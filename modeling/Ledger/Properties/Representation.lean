import Ledger.Runs.Steps

/-! # Ledger Representation

    What the four core tables say together, in every state that requests run
    one after another can reach.

    * **Transactions** balance, have two postings at least, and stay within
      their tenant.
    * **Snapshots**: one for each account, of the account's tenant, equal to
      the postings of the account folded in the order they were inserted.

    The two parts need each other.  The update of a snapshot silently matches
    no row when the tenant differs, so the sums are right only because every
    leg is on an account of the acting tenant, whose snapshot has that tenant.
-/

namespace Ledger

open ReadCommitted

/-- The postings on an account, in insertion order. -/
def Database.postingsOn (d : Database) (account : UUID) : List Posting :=
  d.postings.rows.filter fun p => p.accountId = account

/-- The snapshot is the account's postings, folded. -/
structure Mirrors (d : Database) (account : UUID) (b : AccountBalance) : Prop where
  balance : b.balance = d.recompute account
  version : b.version = (d.postingsOn account).length
  /-- The posting folded last; none iff the account has no posting. -/
  asOf : b.asOfPostingId = (d.postingsOn account).getLast?.map Posting.id

/-- What a transaction credited to an account, net. -/
def Database.credited (d : Database) (transaction account : UUID) : Int :=
  (((d.postingsOf transaction).filter fun p => p.accountId = account).map Posting.amount).sum

/-- The account belongs to the tenant. -/
def Database.Owns (d : Database) (tenantId : String) (account : UUID) : Prop :=
  ∃ a, d.accounts.find? account = some a ∧ a.tenantId = tenantId

instance (d : Database) (tenantId : String) (account : UUID) :
    Decidable (d.Owns tenantId account) :=
  decidable_of_iff ((d.accounts.find? account).any fun a => a.tenantId = tenantId) (by
    unfold Database.Owns
    cases d.accounts.find? account <;> simp)

/-- The representation invariant of the ledger. -/
structure Books (d : Database) : Prop where
  /-- Every transaction has two postings at least, and they sum to zero. -/
  balanced : ∀ t ∈ d.transactions.rows,
    2 ≤ (d.postingsOf t.id).length ∧ ((d.postingsOf t.id).map Posting.amount).sum = 0
  /-- They are on accounts of its tenant. -/
  owned : ∀ t ∈ d.transactions.rows, ∀ p ∈ d.postingsOf t.id, d.Owns t.tenantId p.accountId
  /-- Every posting belongs to a transaction. -/
  attached : ∀ p ∈ d.postings.rows, ∃ t ∈ d.transactions.rows, t.id = p.transactionId
  /-- Every account has exactly one snapshot row, of its tenant, which
      mirrors its postings. -/
  snapshot : ∀ a ∈ d.accounts.rows, ∃ b,
    (d.balances.rows.filter fun b => b.accountId = a.id) = [b] ∧ b.tenantId = a.tenantId ∧
    Mirrors d a.id b

/-- A direct use of the engine posts on accounts of the acting tenant. -/
def Request.Proper (d : Database) : Request → Prop
  | .post tenantId specs _ => ∀ spec ∈ specs, d.Owns tenantId spec.accountId
  | _ => True

instance (d : Database) (r : Request) : Decidable (r.Proper d) :=
  match r with
  | .post tenantId specs _ =>
    inferInstanceAs (Decidable (∀ spec ∈ specs, d.Owns tenantId spec.accountId))
  | .openAccount .. | .transfer .. | .placeHold .. | .captureHold .. | .releaseHold ..
  | .reverse .. | .upsertRate .. | .dispatch .. | .importStatement .. | .sweep .. =>
    inferInstanceAs (Decidable True)

theorem Books.empty : Books .empty := by
  constructor <;> simp [Database.empty]

/-! ## The Legs of One Transaction -/

/-- The postings after the legs of a transaction. -/
theorem replay_postings_legs {d : Database} {legs : List Leg} (h : Admitted d (legWrites legs)) :
    (replay d (legWrites legs)).postings.rows = d.postings.rows ++ legs.map Leg.posting := by
  induction legs generalizing d with
  | nil => simp
  | cons l legs ih =>
    rw [legWrites_cons] at h ⊢
    rw [replay_append, ih h.right]
    have hadm := h.left
    have hfresh := Database.fresh_posting hadm.head
    have hrows : (replay d l.writes).postings.rows = d.postings.rows ++ [l.posting] := by
      have hins := Table.insert_of_fresh (t := d.postings) (r := l.posting) hfresh
      unfold Leg.writes
      split_ifs <;> exact hins
    simp [hrows]

/-- The other tables after the legs of a transaction. -/
theorem replay_legs_frame (d : Database) (legs : List Leg) :
    (replay d (legWrites legs)).accounts = d.accounts ∧
      (replay d (legWrites legs)).transactions = d.transactions :=
  ⟨Database.replay_accounts fun w hw => by rcases table_legWrites hw with h | h <;> simp [h],
    Database.replay_transactions fun w hw => by rcases table_legWrites hw with h | h <;> simp [h]⟩

/-- The snapshot of an account after legs that all found theirs. -/
theorem Mirrors.legs {d d' : Database} {legs : List Leg} {account : UUID} {b : AccountBalance}
    (h : Mirrors d account b)
    (hrows : d'.postings.rows = d.postings.rows ++ legs.map Leg.posting)
    (hfolded : ∀ l ∈ legs, l.folded = true) :
    Mirrors d' account (b.foldAll (bumpsOn (legWrites legs) account)) := by
  -- the postings of the legs on this account
  generalize hps : (legs.map Leg.posting).filter (fun p => p.accountId = account) = ps
  have hon : d'.postingsOn account = d.postingsOn account ++ ps := by
    rw [Database.postingsOn, hrows, List.filter_append, hps]
    rfl
  have hbumps : bumpsOn (legWrites legs) account = ps.map fun p => (p.amount, p.id) := by
    rw [bumpsOn_legWrites, ← hps, List.filter_map, List.map_map]
    congr 1
    exact List.filter_congr fun l hl => by simp [hfolded l hl]
  have hsum : d'.recompute account = d.recompute account + (ps.map Posting.amount).sum := by
    have h1 : d'.recompute account = ((d'.postingsOn account).map Posting.amount).sum := rfl
    rw [h1, hon, List.map_append, List.sum_append]
    rfl
  constructor
  · rw [AccountBalance.foldAll_balance, h.balance, hsum, hbumps, List.map_map]
    rfl
  · rw [AccountBalance.foldAll_version, h.version, hon, hbumps]
    simp
  · rw [AccountBalance.foldAll_asOf, h.asOf, hon, hbumps, List.getLast?_append, List.getLast?_map]
    cases ps.getLast? <;> rfl

/-- An account the tenant owns has a snapshot the engine's update matches. -/
theorem Books.matched {d : Database} (h : Books d) {tenantId : String} {account : UUID}
    (howns : d.Owns tenantId account) : Svc.matched d tenantId account = true := by
  obtain ⟨a, ha, hat⟩ := howns
  obtain ⟨b, hb, hbt, -⟩ := h.snapshot a (Table.mem_of_find? ha)
  have hkey : a.id = account := Table.key_of_find? ha
  have hfind : d.balances.find? account = some b := hkey ▸ Table.find?_of_filter_key hb
  simp [Svc.matched, hfind, hbt, hat]

section posted

variable {d : Database} {tenantId : String} {txn : Transaction} {specs : List PostingSpec}
  {c : Option UUID} {legs : List Leg}

/-- The legs of a transaction on accounts the tenant owns all find their snapshot. -/
theorem Books.folded (h : Books d) (hblock : Block d tenantId specs c txn legs)
    (howns : ∀ spec ∈ specs, d.Owns tenantId spec.accountId) : ∀ l ∈ legs, l.folded = true := by
  intro l hl
  obtain ⟨spec, hspec, hof⟩ := Leg.Of.exists_spec hblock.carried hl
  rw [hblock.folded_eq l hl, hof.account]
  exact h.matched (howns spec hspec)

/-- What one transaction adds to the snapshot of each account. -/
theorem Books.delta (h : Books d) (hblock : Block d tenantId specs c txn legs)
    (howns : ∀ spec ∈ specs, d.Owns tenantId spec.accountId) (a : UUID) :
    Ledger.delta (legWrites legs) a = specsOn specs a :=
  delta_carried hblock.carried (h.folded hblock howns) a

/-- The rows after one transaction. -/
theorem Block.rows (hblock : Block d tenantId specs c txn legs) :
    (replay d (.insTransaction txn :: legWrites legs)).accounts = d.accounts ∧
    (replay d (.insTransaction txn :: legWrites legs)).transactions.rows =
      d.transactions.rows ++ [txn] ∧
    (replay d (.insTransaction txn :: legWrites legs)).postings.rows =
      d.postings.rows ++ legs.map Leg.posting ∧
    ∀ t ∈ d.transactions.rows, t.id ≠ txn.id := by
  have hfresh := Database.fresh_transaction hblock.admitted.head
  obtain ⟨haccounts, htransactions⟩ := replay_legs_frame (Dbms.apply d (.insTransaction txn)) legs
  rw [replay_cons]
  refine ⟨haccounts, ?_, ?_, Table.find?_eq_none_iff.mp hfresh⟩
  · rw [htransactions]
    exact Table.insert_of_fresh (r := txn) hfresh
  · rw [replay_postings_legs hblock.admitted.tail]
    rfl

/-- The postings of a transaction the engine wrote are its legs. -/
theorem Block.postingsOf_new (hblock : Block d tenantId specs c txn legs)
    (hattached : ∀ p ∈ d.postings.rows, ∃ t ∈ d.transactions.rows, t.id = p.transactionId) :
    (replay d (.insTransaction txn :: legWrites legs)).postingsOf txn.id =
      legs.map Leg.posting := by
  obtain ⟨-, -, hpostings, hnone⟩ := hblock.rows
  have hold : (d.postings.rows.filter fun p => p.transactionId = txn.id) = [] := by
    rw [List.filter_eq_nil_iff]
    intro p hp
    obtain ⟨t, ht, htp⟩ := hattached p hp
    simpa [← htp] using hnone t ht
  have hall : (legs.map Leg.posting).filter (fun p => p.transactionId = txn.id) =
      legs.map Leg.posting := by
    rw [List.filter_eq_self]
    simpa using Leg.Of.transactions hblock.carried
  rw [Database.postingsOf, hpostings, List.filter_append, hold, List.nil_append, hall]

theorem Books.postingsOf_new (h : Books d) (hblock : Block d tenantId specs c txn legs) :
    (replay d (.insTransaction txn :: legWrites legs)).postingsOf txn.id =
      legs.map Leg.posting :=
  hblock.postingsOf_new h.attached

/-- Every posting still belongs to a transaction after it. -/
theorem Block.attached (hblock : Block d tenantId specs c txn legs)
    (hattached : ∀ p ∈ d.postings.rows, ∃ t ∈ d.transactions.rows, t.id = p.transactionId) :
    ∀ p ∈ (replay d (.insTransaction txn :: legWrites legs)).postings.rows,
      ∃ t ∈ (replay d (.insTransaction txn :: legWrites legs)).transactions.rows,
        t.id = p.transactionId := by
  obtain ⟨-, htransactions, hpostings, -⟩ := hblock.rows
  rw [htransactions, hpostings]
  intro p hp
  rcases List.mem_append.mp hp with hp | hp
  · obtain ⟨t, ht, htp⟩ := hattached p hp
    exact ⟨t, List.mem_append_left _ ht, htp⟩
  · obtain ⟨l, hl, rfl⟩ := List.mem_map.mp hp
    exact ⟨txn, by simp, (Leg.Of.transactions hblock.carried l hl).symm⟩

/-- The postings of the transactions before it stay what they were. -/
theorem Block.postingsOf_old (hblock : Block d tenantId specs c txn legs) {t : Transaction}
    (ht : t ∈ d.transactions.rows) :
    (replay d (.insTransaction txn :: legWrites legs)).postingsOf t.id = d.postingsOf t.id := by
  obtain ⟨-, -, hpostings, hnone⟩ := hblock.rows
  have hrest : (legs.map Leg.posting).filter (fun p => p.transactionId = t.id) = [] := by
    rw [List.filter_eq_nil_iff]
    intro p hp
    obtain ⟨l, hl, rfl⟩ := List.mem_map.mp hp
    simpa [Leg.Of.transactions hblock.carried l hl] using (hnone t ht).symm
  rw [Database.postingsOf, hpostings, List.filter_append, hrest, List.append_nil]
  rfl

/-- **The engine keeps the books**: one balanced transaction on accounts the
    tenant owns. -/
theorem Books.posted (h : Books d) (hblock : Block d tenantId specs c txn legs)
    (howns : ∀ spec ∈ specs, d.Owns tenantId spec.accountId) :
    Books (replay d (.insTransaction txn :: legWrites legs)) := by
  obtain ⟨haccounts, htransactions, hpostings, -⟩ := hblock.rows
  have hcarried := hblock.carried
  have hnew := h.postingsOf_new hblock
  have hold := fun t => hblock.postingsOf_old (t := t)
  have hattached := hblock.attached h.attached
  have hbalances := replay_balance d (.insTransaction txn :: legWrites legs)
    (by simpa [NoNewSnapshot] using noNewSnapshot_legWrites legs)
  generalize replay d (.insTransaction txn :: legWrites legs) = d' at *
  have hmem : ∀ t, t ∈ d'.transactions.rows ↔ t ∈ d.transactions.rows ∨ t = txn := by
    simp [htransactions]
  constructor
  · -- every transaction balances
    intro t ht
    rcases (hmem t).mp ht with ht | rfl
    · rw [hold t ht]
      exact h.balanced t ht
    · rw [hnew, Leg.Of.amounts hcarried, List.length_map, ← hcarried.length_eq]
      exact ⟨hblock.two, hblock.zero⟩
  · -- and stays within its tenant
    intro t ht p hp
    have howns' : ∀ {tenant account}, d.Owns tenant account → d'.Owns tenant account := by
      rintro tenant account ⟨a, ha, hat⟩
      exact ⟨a, haccounts ▸ ha, hat⟩
    rcases (hmem t).mp ht with ht | rfl
    · rw [hold t ht] at hp
      exact howns' (h.owned t ht p hp)
    · rw [hnew] at hp
      obtain ⟨l, hl, rfl⟩ := List.mem_map.mp hp
      obtain ⟨spec, hspec, hof⟩ := Leg.Of.exists_spec hcarried hl
      rw [hblock.tenant, hof.account]
      exact howns' (howns spec hspec)
  · exact hattached
  · -- every snapshot mirrors the postings
    intro a ha
    rw [haccounts] at ha
    obtain ⟨b, hb, hbt, hmirrors⟩ := h.snapshot a ha
    have hfind := hbalances a.id
    rw [Table.find?_of_filter_key hb] at hfind
    exact ⟨_, Table.filter_key_of_find? hfind, by simpa using hbt,
      hmirrors.legs hpostings (h.folded hblock howns)⟩

end posted

/-! ## The Other Steps -/

theorem Books.plain {d : Database} {w : Write} (h : Books d) (hw : w.plain) :
    Books (d.apply w) := by
  obtain ⟨h1, h2, h3, h4⟩ := hw
  cases w <;> first
    | exact ⟨h.balanced, h.owned, h.attached, fun a ha => by
        obtain ⟨b, hb, ht, hm⟩ := h.snapshot a ha
        exact ⟨b, hb, ht, hm.balance, hm.version, hm.asOf⟩⟩
    | exact absurd rfl h1
    | exact absurd rfl h2
    | exact absurd rfl h3
    | exact absurd rfl h4

/-- Opening an account with its snapshot keeps the books. -/
theorem Books.opened {d : Database} (h : Books d) (a : Account)
    (hadm : Admitted d [.insAccount a, .insBalance ⟨a.id, a.tenantId, 0, 0, none⟩]) :
    Books (replay d [.insAccount a, .insBalance ⟨a.id, a.tenantId, 0, 0, none⟩]) := by
  let b : AccountBalance := ⟨a.id, a.tenantId, 0, 0, none⟩
  have hfreshA : d.accounts.find? a.id = none := Database.fresh_account hadm.head
  have hfreshB : d.balances.find? a.id = none := Database.fresh_balance hadm.tail.head
  have howns : ∀ {tenant account}, d.Owns tenant account →
      Database.Owns (replay d [.insAccount a, .insBalance b]) tenant account := by
    rintro tenant account ⟨x, hx, hxt⟩
    exact ⟨x, Table.find?_insert_of_some hx, hxt⟩
  -- no posting is on the new account
  have hno : d.postingsOn a.id = [] := by
    rw [Database.postingsOn, List.filter_eq_nil_iff]
    intro p hp hpa
    obtain ⟨t, ht, htp⟩ := h.attached p hp
    obtain ⟨x, hx, -⟩ := h.owned t ht p (by simp [Database.postingsOf, hp, htp])
    rw [decide_eq_true_eq.mp hpa, hfreshA] at hx
    cases hx
  refine ⟨h.balanced, fun t ht p hp => howns (h.owned t ht p hp), h.attached, fun x hx => ?_⟩
  rcases Table.mem_insert.mp hx with hx | ⟨rfl, -⟩
  · obtain ⟨bx, hbx, hbt, hm⟩ := h.snapshot x hx
    have hne : b.accountId ≠ x.id := by
      intro heq
      have := Table.find?_of_mem hx
      rw [show Keyed.key x = a.id from heq.symm, hfreshA] at this
      cases this
    refine ⟨bx, Table.filter_key_of_find? ?_, hbt, hm.balance, hm.version, hm.asOf⟩
    exact (Table.find?_insert_of_ne (r := b) hne).trans (Table.find?_of_filter_key hbx)
  · refine ⟨b, Table.filter_key_of_find? (Table.find?_insert_self (r := b) hfreshB),
      rfl, ?_, ?_, ?_⟩
    · show 0 = ((d.postingsOn x.id).map Posting.amount).sum
      simp [hno]
    · show 0 = ((d.postingsOn x.id).length : Int)
      simp [hno]
    · show none = (d.postingsOn x.id).getLast?.map Posting.id
      simp [hno]

/-! ## Every Request Keeps the Books -/

section requests

variable [Runtime] {d₀ d d' : Database} {r : Request}

/-- The legs of a request are on accounts of the acting tenant. -/
theorem Posts.owned {tenantId : String} {specs : List PostingSpec} {c : Option UUID} (h : Books d)
    (hproper : r.Proper d) (hposts : Posts d r tenantId specs c) :
    ∀ spec ∈ specs, d.Owns tenantId spec.accountId := by
  have hconv : ∀ {path : String} {a : Account}, d.openAt tenantId path = [a] →
      d.Owns tenantId a.id := by
    intro path a ha
    have hmem : a ∈ d.openAt tenantId path := by simp [ha]
    simp only [Database.openAt, List.mem_filter, Bool.and_eq_true, decide_eq_true_eq] at hmem
    exact ⟨a, Table.find?_of_mem hmem.1, hmem.2.1.1⟩
  have hid : ∀ {id : UUID} {a : Account}, d.HasAccount tenantId id a → d.Owns tenantId a.id := by
    intro id a ha
    exact ⟨a, Table.find?_of_mem (Table.mem_of_find? ha.1), ha.2.1⟩
  have hacc : ∀ {id : UUID} {a : Account}, d.HasAccount tenantId id a → d.Owns tenantId id :=
    fun ha => ⟨_, ha.1, ha.2.1⟩
  cases hposts with
  | post => exact hproper
  | transfer hsrc hdst hcur => simpa [pair] using ⟨hacc hsrc, hacc hdst⟩
  | debit h => simpa [pair] using ⟨hid h.source, hconv h.sourceConversion⟩
  | credit h => simpa [pair] using ⟨hconv h.destinationConversion, hid h.destination⟩
  | capture hsrc hdst hcur => simpa [pair] using ⟨hacc hsrc, hacc hdst⟩
  | reversal hfound htenant _ _ =>
    intro spec hspec
    obtain ⟨p, hp, rfl⟩ := List.mem_map.mp hspec
    have hkey := Table.key_of_find? hfound
    rw [← htenant]
    rw [Database.mem_selectPostings, ← hkey] at hp
    exact h.owned _ (Table.mem_of_find? hfound) p hp

/-- **Step lemma.** -/
theorem Books.step (h₀ : Books d₀) (hproper : r.Proper d₀) (h : Books d)
    (hstep : LedgerStep d₀ r d d') : Books d' := by
  cases hstep with
  | plain hw => exact h.plain hw
  | opened a hadm => exact h.opened a hadm
  | @posted tenantId specs c txn legs hacc _ hposts hblock =>
    have howns : ∀ spec ∈ specs, d.Owns tenantId spec.accountId := fun spec hspec => by
      obtain ⟨a, ha, hat⟩ := hposts.owned h₀ hproper spec hspec
      exact ⟨a, hacc ▸ ha, hat⟩
    exact h.posted hblock howns

/-- A request keeps the books. -/
theorem Books.executed (h : Books d) (hproper : r.Proper d) (env : Env) :
    Books (r.executed env d).2 := by
  have hsteps := executed_steps r env d
  generalize (r.executed env d).2 = d' at hsteps
  induction hsteps with
  | refl => exact h
  | tail _ hstep ih => exact Books.step h hproper ih hstep

end requests

/-- **Run lemma.** -/
theorem Reached.books [Runtime] {d : Database} (h : Reached (fun d r => r.Proper d) d) :
    Books d := by
  induction h with
  | empty => exact .empty
  | step r env _ hproper ih => exact ih.executed hproper env

/-- **The representation invariant** holds in every reachable state. -/
theorem books_of_reached [Runtime] {d : Database} (h : Reached (fun d r => r.Proper d) d) :
    Books d :=
  h.books

open Sample

/-- A payment, a hold, its capture, and the reversal of the payment. -/
def busy : List (Request × Env) :=
  setup ++ [(pay bob 60 "t1" sixty_pos, envAt 0 2000),
    (reserve 100 60000000 "h1" hundred_pos, envAt 0 3000), (capture 3005, envAt 0 4000),
    (reverse 2007 "r1", envAt 0 5000)]

/-- Each of them posted a transaction, and the books are in order. -/
theorem books_of_reached_busy :
    (script busy .empty).transactions.rows.length = 4 ∧ Books (script busy .empty) :=
  ⟨by decide +kernel, books_of_reached (Reached.empty.script (by decide +kernel))⟩

end Ledger
