import Ledger.Runs.Reversal
import Ledger.Runs.Hold

/-! # What a List of Writes Does to Balances and Holds

    * **Snapshots**: `replay_balance`, the snapshot of an account after a list
      of writes is its old snapshot with the postings folded in, in order.
    * **Holds**: inserting a hold adds at most its amount to what is held;
      resolving one never adds.
    * **Records**: which writes touch the idempotency records.
-/

namespace Ledger

open ReadCommitted

/-! ## Snapshots -/

/-- The postings a list of writes folds into the snapshot of an account. -/
def bumpsOn (ws : List Write) (account : UUID) : List (Int × UUID) :=
  ws.filterMap fun
    | .bump a amount posting => if a = account then some (amount, posting) else none
    | _ => none

/-- What a list of writes adds to the snapshot of an account. -/
def delta (ws : List Write) (account : UUID) : Int := ((bumpsOn ws account).map Prod.fst).sum

@[simp] theorem bumpsOn_nil (a : UUID) : bumpsOn [] a = [] := rfl

@[simp] theorem bumpsOn_append (ws vs : List Write) (a : UUID) :
    bumpsOn (ws ++ vs) a = bumpsOn ws a ++ bumpsOn vs a := by
  simp [bumpsOn]

theorem bumpsOn_cons (w : Write) (ws : List Write) (a : UUID) :
    bumpsOn (w :: ws) a = bumpsOn [w] a ++ bumpsOn ws a :=
  bumpsOn_append [w] ws a

@[simp] theorem delta_nil (a : UUID) : delta [] a = 0 := rfl

@[simp] theorem delta_append (ws vs : List Write) (a : UUID) :
    delta (ws ++ vs) a = delta ws a + delta vs a := by
  simp [delta]

theorem delta_cons (w : Write) (ws : List Write) (a : UUID) :
    delta (w :: ws) a = delta [w] a + delta ws a :=
  delta_append [w] ws a

theorem bumpsOn_of_table {w : Write} (h : w.table ≠ .balances) (a : UUID) : bumpsOn [w] a = [] := by
  cases w <;> first | rfl | exact absurd rfl h

theorem delta_of_table {w : Write} (h : w.table ≠ .balances) (a : UUID) : delta [w] a = 0 := by
  simp [delta, bumpsOn_of_table h]

/-- Fold a list of postings into a snapshot. -/
def AccountBalance.foldAll (b : AccountBalance) (xs : List (Int × UUID)) : AccountBalance :=
  xs.foldl (fun b x => b.fold x.1 x.2) b

namespace AccountBalance

variable (b : AccountBalance) (xs : List (Int × UUID))

@[simp] theorem foldAll_nil : b.foldAll [] = b := rfl

@[simp] theorem foldAll_cons (x : Int × UUID) :
    b.foldAll (x :: xs) = (b.fold x.1 x.2).foldAll xs := rfl

@[simp] theorem foldAll_tenantId : (b.foldAll xs).tenantId = b.tenantId := by
  induction xs generalizing b with
  | nil => rfl
  | cons x xs ih => simp [ih, fold]

@[simp] theorem foldAll_accountId : (b.foldAll xs).accountId = b.accountId := by
  induction xs generalizing b with
  | nil => rfl
  | cons x xs ih => simp [ih, fold]

theorem foldAll_balance : (b.foldAll xs).balance = b.balance + (xs.map Prod.fst).sum := by
  induction xs generalizing b with
  | nil => simp
  | cons x xs ih => simp [ih, fold]; omega

theorem foldAll_version : (b.foldAll xs).version = b.version + xs.length := by
  induction xs generalizing b with
  | nil => simp
  | cons x xs ih => simp [ih, fold]; omega

theorem foldAll_asOf : (b.foldAll xs).asOfPostingId =
    (xs.getLast?.map Prod.snd).or b.asOfPostingId := by
  induction xs generalizing b with
  | nil => rfl
  | cons x xs ih =>
    rw [foldAll_cons, ih]
    cases xs with
    | nil => simp [fold]
    | cons y ys => simp [List.getLast?_cons]

end AccountBalance

/-- No snapshot row is created. -/
def NoNewSnapshot (ws : List Write) : Prop := ∀ r, .insBalance r ∉ ws

theorem NoNewSnapshot.append {ws vs : List Write} (h : NoNewSnapshot ws) (h' : NoNewSnapshot vs) :
    NoNewSnapshot (ws ++ vs) := by
  intro r hr
  rcases List.mem_append.mp hr with hr | hr
  · exact h r hr
  · exact h' r hr

/-- **The snapshot after a list of writes** is the old one with the postings folded in. -/
theorem replay_balance (d : Database) (ws : List Write) (h : NoNewSnapshot ws) (a : UUID) :
    (replay d ws).balances.find? a =
      (d.balances.find? a).map fun b => b.foldAll (bumpsOn ws a) := by
  induction ws generalizing d with
  | nil => simp
  | cons w ws ih =>
    have htail : NoNewSnapshot ws := fun r hr => h r (List.mem_cons_of_mem _ hr)
    rw [replay_cons, ih _ htail, bumpsOn_cons]
    cases w with
    | insBalance r => exact absurd (List.mem_cons_self ..) (h r)
    | bump account amount posting =>
      rw [Database.dbms_apply]
      simp only [Database.apply]
      by_cases ha : a = account
      · subst ha
        rw [Table.find?_modify_self, Option.map_map]
        simp [bumpsOn, Function.comp_def]
      · rw [Table.find?_modify_of_ne _ _ _ ha]
        simp [bumpsOn, Ne.symm ha]
    | _ => rw [bumpsOn_of_table (by simp [Write.table])]; rfl

/-- A snapshot exists after the writes iff it did before, for the same tenant,
    and its balance moved by `delta`. -/
theorem replay_balance_some {d : Database} {ws : List Write} (h : NoNewSnapshot ws) {a : UUID}
    {b : AccountBalance} (hb : d.balances.find? a = some b) :
    ∃ b', (replay d ws).balances.find? a = some b' ∧ b'.tenantId = b.tenantId ∧
      b'.balance = b.balance + delta ws a := by
  refine ⟨_, by rw [replay_balance d ws h a, hb]; rfl, by simp, ?_⟩
  rw [AccountBalance.foldAll_balance, delta]

theorem replay_balance_none {d : Database} {ws : List Write} (h : NoNewSnapshot ws) {a : UUID}
    (hb : d.balances.find? a = none) : (replay d ws).balances.find? a = none := by
  rw [replay_balance d ws h a, hb]; rfl

theorem matched_iff {d : Database} {tenantId : String} {account : UUID} :
    Svc.matched d tenantId account = true ↔
      ∃ b, d.balances.find? account = some b ∧ b.tenantId = tenantId := by
  unfold Svc.matched
  cases d.balances.find? account <;> simp

theorem matched_replay {ws : List Write} (h : NoNewSnapshot ws) (d : Database) (tenantId : String)
    (account : UUID) :
    Svc.matched (replay d ws) tenantId account = Svc.matched d tenantId account := by
  rw [Svc.matched, replay_balance d ws h, Svc.matched]
  cases d.balances.find? account <;> simp

/-! ## Legs -/

/-- The postings of an account's folded legs. -/
theorem bumpsOn_legWrites (legs : List Leg) (a : UUID) :
    bumpsOn (legWrites legs) a =
      (legs.filter fun l => l.folded && l.posting.accountId = a).map
        fun l => (l.posting.amount, l.posting.id) := by
  induction legs with
  | nil => rfl
  | cons l legs ih =>
    rw [legWrites_cons, bumpsOn_append, ih]
    cases hf : l.folded with
    | false => simp [Leg.writes, hf, bumpsOn]
    | true =>
      by_cases ha : l.posting.accountId = a
      · simp [Leg.writes, hf, bumpsOn, ha]
      · simp [Leg.writes, hf, bumpsOn, ha]

/-- What a list of requested legs asks to add to an account. -/
def specsOn (specs : List PostingSpec) (a : UUID) : Int :=
  ((specs.filter fun s => s.accountId = a).map PostingSpec.amount).sum

theorem specsOn_cons (spec : PostingSpec) (specs : List PostingSpec) (a : UUID) :
    specsOn (spec :: specs) a =
      (if spec.accountId = a then spec.amount else 0) + specsOn specs a := by
  by_cases h : spec.accountId = a <;> simp [specsOn, h]

/-- Legs that all found their snapshot add what was requested. -/
theorem delta_carried {txn : UUID} {specs : List PostingSpec} {legs : List Leg}
    (h : List.Forall₂ (Leg.Of txn) specs legs) (hfolded : ∀ l ∈ legs, l.folded = true) (a : UUID) :
    delta (legWrites legs) a = specsOn specs a := by
  induction h with
  | nil => rfl
  | @cons spec l specs legs hof _ ih =>
    have ih' := ih fun l hl => hfolded l (by simp [hl])
    have hf := hfolded l (by simp)
    rw [legWrites_cons, delta_append, ih', specsOn_cons]
    by_cases ha : spec.accountId = a
    · simp [delta, Leg.writes, hf, bumpsOn, hof.account, hof.amount, ha]
    · simp [delta, Leg.writes, hf, bumpsOn, hof.account, ha]

/-- An account no leg is on gets no posting. -/
theorem bumpsOn_carried {txn : UUID} {specs : List PostingSpec} {legs : List Leg}
    (h : List.Forall₂ (Leg.Of txn) specs legs) {a : UUID}
    (hne : ∀ spec ∈ specs, spec.accountId ≠ a) : bumpsOn (legWrites legs) a = [] := by
  induction h with
  | nil => rfl
  | @cons spec l specs legs hof _ ih =>
    have hl : l.posting.accountId ≠ a := hof.account ▸ hne spec (by simp)
    rw [legWrites_cons, bumpsOn_append, ih fun s hs => hne s (by simp [hs])]
    cases hf : l.folded <;> simp [Leg.writes, hf, bumpsOn, hl]

/-- What one leg adds to the snapshot of an account. -/
def Leg.on (l : Leg) (a : UUID) : Int :=
  if l.folded = true ∧ l.posting.accountId = a then l.posting.amount else 0

theorem delta_legWrites (legs : List Leg) (a : UUID) :
    delta (legWrites legs) a = (legs.map fun l => l.on a).sum := by
  induction legs with
  | nil => rfl
  | cons l legs ih =>
    rw [legWrites_cons, delta_append, ih, List.map_cons, List.sum_cons]
    congr 1
    cases hf : l.folded with
    | false => simp [delta, Leg.writes, hf, bumpsOn, Leg.on]
    | true =>
      by_cases ha : l.posting.accountId = a
      · simp [delta, Leg.writes, hf, bumpsOn, Leg.on, ha]
      · simp [delta, Leg.writes, hf, bumpsOn, Leg.on, ha]

theorem Leg.Of.exists_spec {txn : UUID} {specs : List PostingSpec} {legs : List Leg}
    (h : List.Forall₂ (Leg.Of txn) specs legs) {l : Leg} (hl : l ∈ legs) :
    ∃ spec ∈ specs, Leg.Of txn spec l := by
  induction h with
  | nil => cases hl
  | cons hof _ ih =>
    rcases List.mem_cons.mp hl with rfl | hl
    · exact ⟨_, by simp, hof⟩
    · obtain ⟨spec, hspec, hof⟩ := ih hl
      exact ⟨spec, by simp [hspec], hof⟩

theorem Leg.Of.transactions {txn : UUID} {specs : List PostingSpec} {legs : List Leg}
    (h : List.Forall₂ (Leg.Of txn) specs legs) : ∀ l ∈ legs, l.posting.transactionId = txn := by
  intro l hl
  obtain ⟨spec, -, hof⟩ := Leg.Of.exists_spec h hl
  exact hof.transaction

/-- The legs carry the requested amounts. -/
theorem Leg.Of.amounts {txn : UUID} {specs : List PostingSpec} {legs : List Leg}
    (h : List.Forall₂ (Leg.Of txn) specs legs) :
    (legs.map Leg.posting).map Posting.amount = specs.map PostingSpec.amount := by
  induction h with
  | nil => rfl
  | cons hof _ ih => simp [hof.amount, ih]

/-- The legs of a two-sided transaction. -/
theorem legs_of_pair {txn source destination : UUID} {amount : Int} {effectiveAt : Time}
    {legs : List Leg}
    (h : List.Forall₂ (Leg.Of txn) (pair source destination amount effectiveAt) legs) :
    ∃ l m, legs = [l, m] ∧ l.posting.transactionId = txn ∧ l.posting.accountId = source ∧
      l.posting.amount = -amount ∧ m.posting.transactionId = txn ∧
      m.posting.accountId = destination ∧ m.posting.amount = amount := by
  rcases h with _ | ⟨hl, _ | ⟨hm, _ | _⟩⟩
  exact ⟨_, _, rfl, hl.transaction, hl.account, hl.amount, hm.transaction, hm.account, hm.amount⟩

/-- A two-sided transaction of a nonnegative amount only lowers its source, by
    at most the amount. -/
theorem delta_pair {txn source destination : UUID} {amount : Int} {effectiveAt : Time}
    {legs : List Leg} (hamount : 0 ≤ amount)
    (h : List.Forall₂ (Leg.Of txn) (pair source destination amount effectiveAt) legs) (a : UUID) :
    -amount ≤ delta (legWrites legs) a ∧ (a ≠ source → 0 ≤ delta (legWrites legs) a) := by
  obtain ⟨l, m, rfl, -, hl, hla, -, -, hma⟩ := legs_of_pair h
  rw [delta_legWrites]
  simp only [List.map_cons, List.map_nil, List.sum_cons, List.sum_nil, Leg.on, hla, hma, hl]
  constructor
  · split_ifs <;> omega
  · intro hne
    have : ¬ (l.folded = true ∧ source = a) := fun hc => hne hc.2.symm
    rw [if_neg this]
    split_ifs <;> omega

theorem noNewSnapshot_legWrites (legs : List Leg) : NoNewSnapshot (legWrites legs) := by
  intro r hr
  simp only [legWrites, List.mem_flatMap, Leg.writes] at hr
  obtain ⟨l, -, hr⟩ := hr
  split_ifs at hr <;> simp at hr

/-- The writes of a leg are a posting and a snapshot update. -/
theorem table_legWrites {legs : List Leg} {w : Write} (hw : w ∈ legWrites legs) :
    w.table = .postings ∨ w.table = .balances := by
  simp only [legWrites, List.mem_flatMap, Leg.writes] at hw
  obtain ⟨l, -, hw⟩ := hw
  split_ifs at hw with hf
  · simp only [List.mem_cons, List.not_mem_nil, or_false] at hw
    rcases hw with rfl | rfl
    · exact Or.inl rfl
    · exact Or.inr rfl
  · simp only [List.mem_cons, List.not_mem_nil, or_false] at hw
    exact Or.inl (hw ▸ rfl)

/-- The tables a transfer writes. -/
theorem Moved.tables [Runtime] {ι : Type} {rg : RG ι Database Write Resource}
    {g : Shared ι Database Write} {tenantId : String} {src dst : Account}
    {req : TransferRequest} {effectiveAt : Time} {o o' : OrmSession}
    {g' : Shared ι Database Write} {tx tx' : Tx Write Resource} {ws : List Write} {id : UUID}
    {event : OutboxEvent}
    (h : Moved rg tenantId src dst req effectiveAt o g tx ws id event o' g' tx') :
    NoNewSnapshot ws ∧ ∀ w ∈ ws, w.table = .transactions ∨ w.table = .postings ∨
      w.table = .balances ∨ w.table = .outbox := by
  have hlegs : ∀ {legs : List Leg} {w : Write}, w ∈ legWrites legs → w.table = .transactions ∨
      w.table = .postings ∨ w.table = .balances ∨ w.table = .outbox := fun hw => by
    rcases table_legWrites hw with h | h
    · exact Or.inr (Or.inl h)
    · exact Or.inr (Or.inr (Or.inl h))
  cases h with
  | direct hcur hpost =>
    refine ⟨fun r hr => ?_, fun w hw => ?_⟩
    · rcases List.mem_cons.mp hr with hr | hr
      · cases hr
      · exact noNewSnapshot_legWrites _ r hr
    · rcases List.mem_cons.mp hw with rfl | hw
      · exact Or.inl rfl
      · exact hlegs hw
  | routed =>
    refine ⟨fun r hr => ?_, fun w hw => ?_⟩
    · simp only [List.cons_append, List.mem_cons, List.mem_append] at hr
      rcases hr with hr | hr | hr | hr | hr
      · cases hr
      · exact noNewSnapshot_legWrites _ r hr
      · cases hr
      · cases hr
      · exact noNewSnapshot_legWrites _ r hr
    · simp only [List.cons_append, List.mem_cons, List.mem_append] at hw
      rcases hw with rfl | hw | rfl | rfl | hw
      · exact Or.inl rfl
      · exact hlegs hw
      · exact Or.inr (Or.inr (Or.inr rfl))
      · exact Or.inl rfl
      · exact hlegs hw

/-! ## Holds -/

theorem availableBalance_eq_some {d : Database} {tenantId : String} {account : UUID} {now : Time}
    {b : Balance} : d.availableBalance tenantId account now = some b ↔
      ∃ s, d.balances.find? account = some s ∧ s.tenantId = tenantId ∧
        b = ⟨s.balance, d.heldTotal tenantId account now⟩ := by
  unfold Database.availableBalance
  cases hs : d.balances.find? account with
  | none => simp
  | some s =>
    by_cases ht : s.tenantId = tenantId
    · simp [ht, eq_comm]
    · simp [ht]

/-- The figures of an account after a list of writes. -/
theorem availableBalance_replay {d : Database} {ws : List Write} (hnew : NoNewSnapshot ws)
    {tenantId : String} {account : UUID} {now : Time} {b : Balance}
    (hb : d.availableBalance tenantId account now = some b) :
    (replay d ws).availableBalance tenantId account now =
      some ⟨b.posted + delta ws account, (replay d ws).heldTotal tenantId account now⟩ := by
  obtain ⟨s, hs, ht, rfl⟩ := availableBalance_eq_some.mp hb
  obtain ⟨s', hs', ht', hbal⟩ := replay_balance_some hnew hs
  exact availableBalance_eq_some.mpr ⟨s', hs', ht'.trans ht, by rw [hbal]⟩

theorem Hold.reserves_mono {h : Hold} {tenantId : String} {account : UUID} {s t : Time}
    (hst : s ≤ t) (hr : h.reserves tenantId account t = true) :
    h.reserves tenantId account s = true := by
  simp only [Hold.reserves, Bool.and_eq_true, decide_eq_true_eq] at hr ⊢
  exact ⟨hr.1, lt_of_le_of_lt hst hr.2⟩

/-- What is held only shrinks as time passes. -/
theorem heldTotal_antitone (d : Database) (tenantId : String) (account : UUID) {s t : Time}
    (hst : s ≤ t) : d.heldTotal tenantId account t ≤ d.heldTotal tenantId account s :=
  Table.total_le_total _ (fun h _ => h.amount_pos.le) fun _ _ => Hold.reserves_mono hst

/-- An update after which the hold reserves nothing does not add to what is held. -/
theorem total_resolve_le (holds : Table Hold) (id : UUID) (f : Hold → Hold)
    (hf : ∀ h, Keyed.key (f h) = Keyed.key h) (hstate : ∀ h, (f h).state ≠ .ACTIVE)
    (tenantId : String) (account : UUID) (t : Time) :
    (holds.modify id f hf).total (fun h => h.reserves tenantId account t) Hold.amount ≤
      holds.total (fun h => h.reserves tenantId account t) Hold.amount := by
  cases hfind : holds.find? id with
  | none => rw [Table.modify_of_none f hf hfind]
  | some h =>
    rw [Table.total_modify hfind]
    have hno : (f h).reserves tenantId account t = false := by
      simp [Hold.reserves, hstate h]
    have hpos := h.amount_pos
    rw [hno]
    simp only [Bool.false_eq_true, if_false]
    split_ifs <;> omega

theorem heldTotal_release_le (d : Database) (id : UUID) (time : Time) (tenantId : String)
    (account : UUID) (t : Time) :
    (d.apply (.releaseHold id time)).heldTotal tenantId account t ≤
      d.heldTotal tenantId account t :=
  total_resolve_le d.holds id _ (Hold.key_release time) (by simp [Hold.release]) tenantId account t

/-- A capture frees what the hold reserved. -/
theorem heldTotal_capture {d : Database} {id : UUID} {h : Hold} (hfind : d.holds.find? id = some h)
    (txn : UUID) (amount : Int) (time : Time) (tenantId : String) (account : UUID) (t : Time) :
    (d.apply (.captureHold id txn amount time)).heldTotal tenantId account t =
      d.heldTotal tenantId account t - if h.reserves tenantId account t then h.amount else 0 := by
  have hno : (h.capture txn amount time).reserves tenantId account t = false := by
    simp [Hold.reserves, Hold.capture]
  have htotal := Table.total_modify hfind (fun h => h.capture txn amount time)
    (Hold.key_capture txn amount time) (fun h => h.reserves tenantId account t) Hold.amount
  simp only [hno, Bool.false_eq_true, if_false, add_zero] at htotal
  exact htotal

/-- The holds do not move with a transaction. -/
theorem holds_posted (d : Database) (txn : Transaction) (legs : List Leg) :
    (replay d (.insTransaction txn :: legWrites legs)).holds = d.holds := by
  refine Database.replay_holds fun w hw => ?_
  rcases List.mem_cons.mp hw with rfl | hw
  · simp [Write.table]
  · rcases table_legWrites hw with h | h <;> simp [h]

/-- The holds after the writes of a capture. -/
theorem holds_after_capture {d : Database} {id : UUID} {txn : Transaction} {legs : List Leg}
    {event : OutboxEvent}
    {amount : Int} {time : Time} :
    (replay d (.insTransaction txn :: legWrites legs ++
      [.insOutbox event, .captureHold id txn.id amount time])).holds =
      (d.apply (.captureHold id txn.id amount time)).holds := by
  have hframe := holds_posted d txn legs
  rw [replay_append]
  simp only [replay_cons, replay_nil, Database.dbms_apply, Database.apply] at hframe ⊢
  rw [hframe]

theorem heldTotal_insert_le (d : Database) (h : Hold) (tenantId : String) (account : UUID)
    (t : Time) :
    (d.apply (.insHold h)).heldTotal tenantId account t ≤
      d.heldTotal tenantId account t + if h.accountId = account then h.amount else 0 := by
  have hins := Table.total_insert_le (t := d.holds) (r := h)
    (p := fun h => h.reserves tenantId account t) (f := Hold.amount) h.amount_pos.le
  refine le_trans hins ?_
  have hpos := h.amount_pos
  have himp : h.reserves tenantId account t = true → h.accountId = account := by
    intro hr
    simp only [Hold.reserves, Bool.and_eq_true, decide_eq_true_eq] at hr
    exact hr.1.1.1
  by_cases hr : h.reserves tenantId account t = true
  · rw [if_pos hr, if_pos (himp hr)]
    rfl
  · rw [if_neg hr]
    simp only [Database.heldTotal]
    split_ifs <;> omega

end Ledger
