import Ledger.Framework.Deadlock
import Ledger.Runs.Movements
import Mathlib.Order.WithBot

/-! # The Order in which a Movement Asks for its Locks

    A transfer or a capture waits for one advisory lock, and then every
    movement waits for the rows of the snapshots it updates, leg by leg.  Last
    it inserts its idempotency record or updates its hold.

    * **Order**: `movementOrder`, the advisory locks first, then the snapshots
      by a rank of their accounts, then the rest; `snapshotOrder`, of the
      advisory locks and the snapshots only.
    * **Rules**: `Asking`, one rule for each primitive and each shared part of
      a request.
    * **Requests**: `asking_movement`, a movement asks in order when the
      accounts it touches ascend.
-/

namespace Ledger

open ReadCommitted

/-! ## Order -/

/-- What the movements keep while they wait: the advisory locks and the snapshots. -/
def Resource.blocking : Resource → Prop
  | .advisory _ => True
  | .row .balances _ => True
  | _ => False

variable {κ : Type}

/-- An advisory lock comes before every snapshot. -/
def Resource.level (rank : UUID → κ) : Resource → WithBot κ
  | .row .balances a => rank a
  | _ => ⊥

/-- The order on the locks of the movements of a run from `d₀`. -/
def snapshotOrder [Runtime] {ι : Type} (rank : UUID → κ) (requests : ι → Request) (d₀ : Database) :
    LockOrder Database Resource (WithBot κ) :=
  ⟨Settled requests d₀, Resource.blocking, Resource.level rank⟩

/-- The rows a movement inserts under an identifier it has drawn. -/
def Resource.drawn : Resource → Prop
  | .row .transactions _ => True
  | .row .postings _ => True
  | .row .outbox _ => True
  | _ => False

/-- What is neither an advisory lock nor a snapshot comes after them. -/
def Resource.place (rank : UUID → κ) : Resource → WithTop (WithBot κ)
  | .advisory k => ((Resource.advisory k).level rank : WithBot κ)
  | .row .balances a => ((Resource.row .balances a).level rank : WithBot κ)
  | _ => ⊤

/-- The order on all the locks of these movements, but those of the rows that
    nobody else knows. -/
def movementOrder [Runtime] {ι : Type} (rank : UUID → κ) (requests : ι → Request) (d₀ : Database) :
    LockOrder Database Resource (WithTop (WithBot κ)) :=
  ⟨Settled requests d₀, fun r => ¬ r.drawn, Resource.place rank⟩

theorem not_drawn_of_blocking {r : Resource} (h : r.blocking) : ¬ r.drawn := by
  cases r with
  | advisory k => exact id
  | record k => cases h
  | row t a =>
    cases t with
    | balances => exact id
    | _ => cases h

theorem place_of_blocking {rank : UUID → κ} {r : Resource} (h : r.blocking) :
    r.place rank = (r.level rank : WithBot κ) := by
  cases r with
  | advisory k => rfl
  | record k => cases h
  | row t a =>
    cases t with
    | balances => rfl
    | _ => cases h

theorem snapshotOrder_coarser [Runtime] {ι : Type} [Preorder κ] (rank : UUID → κ)
    (requests : ι → Request) (d₀ : Database) :
    Coarser (movementOrder rank requests d₀) (snapshotOrder rank requests d₀) where
  ok d h := h
  blocking r h := not_drawn_of_blocking h
  rank r r' h h' hlt := by
    have hlt' : r.place rank < r'.place rank := hlt
    rw [place_of_blocking h, place_of_blocking h'] at hlt'
    exact WithTop.coe_lt_coe.mp hlt'

/-- After the accounts in `seen`, each further account is one of those before
    it or ranks above them all. -/
def Ascending [LT κ] (rank : UUID → κ) : List UUID → List UUID → Prop
  | _, [] => True
  | seen, a :: xs => (a ∈ seen ∨ ∀ b ∈ seen, rank b < rank a) ∧ Ascending rank (seen ++ [a]) xs

theorem ascending_append [LT κ] {rank : UUID → κ} {seen xs ys : List UUID} :
    Ascending rank seen (xs ++ ys) ↔
      Ascending rank seen xs ∧ Ascending rank (seen ++ xs) ys := by
  induction xs generalizing seen with
  | nil => simp [Ascending]
  | cons a xs ih => simp [Ascending, ih, and_assoc]

/-! ## Rules -/

section rules

variable {α β : Type} [Preorder κ] {L : LockOrder Database Resource κ}

/-- An assertion about what a service returned, the locks its transaction
    keeps and what it wrote. -/
abbrev AskPost (α : Type) : Type := α → OrmSession → List Resource → List Write → Prop

/-- The service asks for its locks in order, up to a return with `Q`. -/
def Asking (L : LockOrder Database Resource κ) (m : Svc α) (Q : AskPost α) (o : OrmSession)
    (held : List Resource) (log : List Write) : Prop :=
  Orderly L (m o) (fun p => Q p.1 p.2) held log

variable {Q : AskPost α} {o : OrmSession} {held : List Resource} {log : List Write}

@[simp] theorem asking_pure (a : α) : Asking L (pure a) Q o held log ↔ Q a o held log := Iff.rfl

theorem asking_bind {Q : AskPost β} (x : Svc α) (f : α → Svc β) :
    Asking L (x >>= f) Q o held log ↔
      Asking L x (fun a o held log => Asking L (f a) Q o held log) o held log := by
  show Orderly L ((x o) >>= fun p => f p.1 p.2) _ held log ↔ _
  rw [orderly_bind]
  rfl

theorem asking_map {Q : AskPost β} (f : α → β) (x : Svc α) :
    Asking L (f <$> x) Q o held log ↔ Asking L x (fun a => Q (f a)) o held log := by
  have hmap : f <$> x = x >>= fun a => pure (f a) := rfl
  rw [hmap, asking_bind]
  rfl

theorem asking_raise (e : Err) : Asking L (Svc.raise e) Q o held log := trivial

theorem asking_now {Q : AskPost Time} (h : ∀ t, Q t o held log) : Asking L Svc.now Q o held log := h

theorem asking_uuid4 {Q : AskPost UUID} (h : ∀ u, Q u o held log) :
    Asking L Svc.uuid4 Q o held log :=
  fun u => h (BitVec.ofNat 128 u)

theorem asking_select {q : Database → Time → α}
    (h : ∀ d, L.ok d → ∀ t, Q (q (replay d log) t) o held log) :
    Asking L (Svc.select q) Q o held log := by
  intro d hd t b ws hq
  cases hq
  simpa [Orderly] using h d hd t

theorem asking_lock {Q : AskPost Unit} {r : Resource} (hasks : Asks L held r)
    (h : Q () o (held ++ [r]) log) : Asking L (Svc.lock r) Q o held log :=
  ⟨hasks, h⟩

theorem asking_execute {Q : AskPost Unit} {w : Write} (hasks : ∀ r ∈ w.locks, Asks L held r)
    (h : Q () o (held ++ w.locks) (log ++ [w])) : Asking L (Svc.execute w) Q o held log := by
  intro d hd t b ws hq
  cases hc : (replay d log).constrain w with
  | error e =>
    simp only [hc, Except.map] at hq
    cases hq
  | ok u =>
    simp only [hc, Except.map] at hq
    cases hq
    simpa [Orderly, Database.dbms_locks] using ⟨hasks, h⟩

theorem asking_add {Q : AskPost Unit} {w : Write}
    (h : Q () { o with pending := o.pending ++ [w] } held log) :
    Asking L (Svc.add w) Q o held log := h

theorem asking_flush_iff {Q : AskPost Unit} : Asking L Svc.flush Q o held log ↔
    Asking L (Svc.executeAll o.pending) Q { o with pending := [] } held log := Iff.rfl

theorem asking_getBalance {Q : AskPost (Option AccountBalance)} {id : UUID}
    (h : ∀ b o', o'.pending = o.pending → Q b o' held log) :
    Asking L (Svc.getBalance id) Q o held log := by
  unfold Asking Svc.getBalance
  cases hc : o.balances id with
  | some b => exact h (some b) o rfl
  | none =>
    intro d hd t b ws hq
    cases hq
    refine ⟨by simp, ?_⟩
    simp only [List.flatMap_nil, List.append_nil]
    exact h _ _ rfl

/-! ### Reads -/

theorem asking_lookup [Runtime] {Q : AskPost (Option Replay)} {tenantId endpoint key : String}
    {body : Json}
    (hnone : ∀ d, L.ok d → (replay d log).records.find? ⟨tenantId, endpoint, key⟩ = none →
      Q none o held log)
    (hsome : ∀ p, Q (some p) o held log) :
    Asking L (lookup tenantId endpoint key body) Q o held log := by
  rw [lookup, asking_bind]
  refine asking_select fun d hd _ => ?_
  cases hfind : (replay d log).records.find? ⟨tenantId, endpoint, key⟩ with
  | none => exact hnone d hd hfind
  | some r =>
    simp only
    cases replayOf key body r with
    | error e => exact asking_raise e
    | ok p => exact hsome p

theorem asking_replayed {Q : AskPost (Nat × α)} {validate : Json → Option α} {p : Replay}
    (h : ∀ a, Q a o held log) : Asking L (replayed validate p) Q o held log := by
  unfold replayed
  cases validate p.body with
  | none => exact asking_raise _
  | some a => exact h _

theorem asking_requireAccount {Q : AskPost Account} {tenantId : String} {id : UUID}
    (h : ∀ a d, L.ok d → (replay d log).HasAccount tenantId id a → Q a o held log) :
    Asking L (requireAccount tenantId id) Q o held log := by
  rw [requireAccount, asking_bind]
  refine asking_select fun d hd _ => ?_
  cases hfind : (replay d log).accounts.find? id with
  | none => exact asking_raise _
  | some a =>
    by_cases hc : a.tenantId ≠ tenantId ∨ a.isOpen = false
    · simp only [hc, if_true]
      exact asking_raise _
    · simp only [hc, if_false]
      simp only [not_or, not_not, Bool.not_eq_false] at hc
      exact h a d hd ⟨hfind, hc.1, hc.2⟩

theorem asking_availableBalance {Q : AskPost (Option Balance)} {tenantId : String} {account : UUID}
    (h : ∀ r o', o'.pending = o.pending → Q r o' held log) :
    Asking L (availableBalance tenantId account) Q o held log := by
  rw [availableBalance, asking_bind, currentBalance, asking_bind]
  refine asking_getBalance fun sb o' ho => ?_
  cases sb with
  | none => exact h none o' ho
  | some b =>
    by_cases hb : b.tenantId = tenantId
    · simp only [hb, ne_eq, not_true_eq_false, if_false, asking_pure]
      rw [asking_bind]
      exact asking_select fun d _ t => h _ o' ho
    · simp only [ne_eq, hb, not_false_eq_true, if_true, asking_pure]
      exact h none o' ho

theorem asking_orNow {Q : AskPost Time} {t? : Option Time} (h : ∀ t, Q t o held log) :
    Asking L (orNow t?) Q o held log := by
  unfold orNow
  cases t? with
  | some t => exact h t
  | none => exact asking_now h

theorem asking_resolveRate [Runtime] {Q : AskPost ResolvedRate} {base quote : Currency}
    {asOf : Time}
    (h : ∀ r, Q r o held log) : Asking L (resolveRate base quote asOf) Q o held log := by
  unfold resolveRate
  split_ifs with heq
  · exact h _
  · rw [asking_bind]
    refine asking_select fun d _ _ => ?_
    cases (replay d log).latest base quote asOf with
    | some r => exact h _
    | none =>
      simp only
      rw [asking_bind]
      refine asking_select fun d' _ _ => ?_
      cases ((replay d' log).latest quote base asOf).bind Database.inverseRate with
      | none => exact asking_raise _
      | some q => exact h q

theorem asking_conversionAccount {Q : AskPost Account} {tenantId : String} {currency : Currency}
    (h : ∀ a d, L.ok d → (replay d log).openAt tenantId (conversionPath currency) = [a] →
      Q a o held log) :
    Asking L (conversionAccount tenantId currency) Q o held log := by
  rw [conversionAccount, asking_bind]
  refine asking_select fun d hd _ => ?_
  rcases hfound : (replay d log).openAt tenantId (conversionPath currency) with _ | ⟨a, as⟩
  · exact asking_raise _
  · cases as with
    | nil => exact h a d hd hfound
    | cons b bs => exact asking_raise _

theorem asking_balanceOf {Q : AskPost AccountBalance} {tenantId : String} {account : UUID}
    (h : ∀ b o', o'.pending = o.pending → Q b o' held log) :
    Asking L (balanceOf tenantId account) Q o held log := by
  rw [balanceOf, asking_bind]
  refine asking_getBalance fun sb o' ho => ?_
  cases sb with
  | none => exact asking_raise _
  | some b =>
    by_cases hb : b.tenantId = tenantId
    · simpa [hb] using h b o' ho
    · simp only [ne_eq, hb, not_false_eq_true, if_true]
      exact asking_raise _

theorem asking_requireHold {Q : AskPost Hold} {tenantId : String} {id : UUID}
    (h : ∀ hold d, L.ok d → (replay d log).holds.find? id = some hold → hold.tenantId = tenantId →
      Q hold o held log) :
    Asking L (requireHold tenantId id) Q o held log := by
  rw [requireHold, asking_bind]
  refine asking_select fun d hd _ => ?_
  cases hfind : (replay d log).holds.find? id with
  | none => exact asking_raise _
  | some hold =>
    by_cases ht : hold.tenantId = tenantId
    · simpa [ht] using h hold d hd hfind ht
    · simp only [ne_eq, ht, not_false_eq_true, if_true]
      exact asking_raise _

theorem asking_currentResponse {Q : AskPost HoldResponse} {tenantId : String} {hold : Hold}
    (h : ∀ r o', Q r o' held log) : Asking L (currentResponse tenantId hold) Q o held log := by
  rw [currentResponse, asking_bind]
  refine asking_availableBalance fun r o' _ => ?_
  cases r with
  | none => exact h _ o'
  | some b => exact h _ o'

theorem asking_requireTransaction {Q : AskPost Transaction} {tenantId : String} {id : UUID}
    (h : ∀ t d, L.ok d → (replay d log).transactions.find? id = some t → t.tenantId = tenantId →
      Q t o held log) :
    Asking L (requireTransaction tenantId id) Q o held log := by
  rw [requireTransaction, asking_bind]
  refine asking_select fun d hd _ => ?_
  cases hfind : (replay d log).transactions.find? id with
  | none => exact asking_raise _
  | some t =>
    by_cases ht : t.tenantId = tenantId
    · simpa [ht] using h t d hd hfind ht
    · simp only [ne_eq, ht, not_false_eq_true, if_true]
      exact asking_raise _

theorem asking_record [Runtime] {Q : AskPost Unit} {tenantId endpoint key : String}
    {body response : Json}
    (h : ∀ r, Q () { o with pending := o.pending ++ [.insRecord r] } held log) :
    Asking L (record tenantId endpoint key body response) Q o held log := by
  rw [record, asking_bind]
  exact asking_now fun t => asking_add (h _)

end rules

/-! ## Snapshots -/

/-- The write inserts a row that nobody else knows. -/
def Write.Drawn (w : Write) : Prop := ∀ r ∈ w.locks, r.drawn

theorem drawn_insTransaction (r : Transaction) : (Write.insTransaction r).Drawn := by
  simp [Write.Drawn, Write.locks, Resource.drawn]

theorem drawn_insPosting (r : Posting) : (Write.insPosting r).Drawn := by
  simp [Write.Drawn, Write.locks, Resource.drawn]

theorem drawn_insOutbox (r : OutboxEvent) : (Write.insOutbox r).Drawn := by
  simp [Write.Drawn, Write.locks, Resource.drawn]

/-- Where a movement is: it keeps the rows of the snapshots in `seen`, none of
    what comes after the snapshots, and has only drawn rows pending. -/
structure Updated (rank : UUID → κ) (seen : List UUID) (o : OrmSession) (held : List Resource)
    (log : List Write) : Prop where
  rows : ∀ a, .row .balances a ∈ held ↔ a ∈ seen
  before : ∀ r ∈ held, ¬ r.drawn → r.place rank ≠ ⊤
  log : NoNewSnapshot log
  pending : ∀ w ∈ o.pending, w.Drawn

section snapshots

variable {ι α : Type} {rank : UUID → κ} {requests : ι → Request} {d₀ : Database}
  {tenantId : String} {seen : List UUID} {o : OrmSession} {held : List Resource} {log : List Write}

/-- Before its first update a request keeps no snapshot. -/
theorem updated_nil {o : OrmSession} (ho : o.pending = []) (account : UUID) :
    Updated rank [] o [.advisory (lockKey account)] [] :=
  ⟨by simp, by simp [Resource.place], by simp [NoNewSnapshot], by simp [ho]⟩

theorem Updated.quiet {o' : OrmSession} {ws : List Write} (h : Updated rank seen o held log)
    (hws : ∀ w ∈ ws, w.Drawn) (hpending : ∀ w ∈ o'.pending, w.Drawn) :
    Updated rank seen o' (held ++ ws.flatMap Write.locks) (log ++ ws) := by
  have hdrawn : ∀ r ∈ ws.flatMap Write.locks, r.drawn := by
    intro r hr
    obtain ⟨w, hw, hr⟩ := List.mem_flatMap.mp hr
    exact hws w hw r hr
  refine ⟨fun a => ?_, fun r hr hnot => ?_, h.log.append fun b hb => ?_, hpending⟩
  · have hnone : .row .balances a ∉ ws.flatMap Write.locks := fun hmem => hdrawn _ hmem
    simp [hnone, h.rows a]
  · rcases List.mem_append.mp hr with hr | hr
    · exact h.before r hr hnot
    · exact absurd (hdrawn r hr) hnot
  · exact hws _ hb (.row .balances b.accountId) (by simp [Write.locks])

theorem Updated.add {w : Write} (h : Updated rank seen o held log) (hw : w.Drawn) :
    Updated rank seen { o with pending := o.pending ++ [w] } held log := by
  refine ⟨h.rows, h.before, h.log, fun v hv => ?_⟩
  rcases List.mem_append.mp hv with hv | hv
  · exact h.pending v hv
  · rw [List.mem_singleton.mp hv]
    exact hw

variable [Runtime] [Preorder κ]

/-- Drawn rows wait for nothing that matters; `vs` is sent after them. -/
theorem asking_executeAll {Q : AskPost Unit} (ws vs : List Write) (hws : ∀ w ∈ ws, w.Drawn)
    (hQ : Asking (movementOrder rank requests d₀) (Svc.executeAll vs) Q o
      (held ++ ws.flatMap Write.locks) (log ++ ws)) :
    Asking (movementOrder rank requests d₀) (Svc.executeAll (ws ++ vs)) Q o held log := by
  induction ws generalizing held log with
  | nil =>
    simp only [List.flatMap_nil, List.append_nil] at hQ
    exact hQ
  | cons w ws ih =>
    rw [List.cons_append, Svc.executeAll, asking_bind]
    refine asking_execute (fun r hr hb => absurd (hws w (by simp) r hr) hb) ?_
    exact ih (fun v hv => hws v (List.mem_cons_of_mem w hv)) (by simpa using hQ)

theorem asking_flush {Q : AskPost Unit} (h : Updated rank seen o held log)
    (hQ : ∀ held' log', Updated rank seen { o with pending := [] } held' log' →
      Q () { o with pending := [] } held' log') :
    Asking (movementOrder rank requests d₀) Svc.flush Q o held log := by
  rw [asking_flush_iff, ← List.append_nil o.pending]
  exact asking_executeAll o.pending [] h.pending (hQ _ _ (h.quiet h.pending (by simp)))

/-- What comes after the snapshots may be asked for, once. -/
theorem asks_last {r : Resource} (h : Updated rank seen o held log) (hr : r.place rank = ⊤) :
    Asks (movementOrder rank requests d₀) held r := by
  intro _
  refine .inr fun x hx hblocking => ?_
  show x.place rank < r.place rank
  rw [hr]
  exact WithTop.lt_top_iff_ne_top.mpr (h.before x hx hblocking)

/-- The commit of a movement sends its drawn rows and then its last write, and
    lets go of every lock. -/
theorem asking_commit {Q : AskPost Unit} {o' : OrmSession} {w : Write}
    (h : Updated rank seen o held log) (hpending : o'.pending = o.pending ++ [w])
    (hlast : ∀ r ∈ w.locks, r.place rank = ⊤) (hQ : Q () { o' with pending := [] } [] []) :
    Asking (movementOrder rank requests d₀) Svc.commit Q o' held log := by
  rw [Svc.commit, asking_bind, asking_flush_iff, hpending]
  refine asking_executeAll o.pending [w] h.pending ?_
  have hsent : Updated rank seen o (held ++ o.pending.flatMap Write.locks) (log ++ o.pending) :=
    h.quiet h.pending h.pending
  rw [Svc.executeAll, asking_bind]
  exact asking_execute (fun r hr => asks_last hsent (hlast r hr)) hQ

/-- A snapshot that comes next in order may be asked for. -/
theorem asks_snapshot {account : UUID} (h : Updated rank seen o held log)
    (hnext : account ∈ seen ∨ ∀ b ∈ seen, rank b < rank account) :
    Asks (movementOrder rank requests d₀) held (.row .balances account) := by
  intro _
  rcases hnext with hmem | habove
  · exact .inl ((h.rows account).mpr hmem)
  · refine .inr fun r hr hblocking => ?_
    have hbefore := h.before r hr hblocking
    show r.place rank < ((rank account : WithBot κ) : WithTop (WithBot κ))
    cases r with
    | advisory k => exact WithTop.coe_lt_coe.mpr (WithBot.bot_lt_coe _)
    | record k => exact absurd rfl hbefore
    | row t b =>
      cases t with
      | balances =>
        have hlt := habove b ((h.rows b).mp hr)
        exact WithTop.coe_lt_coe.mpr (WithBot.coe_lt_coe.mpr hlt)
      | _ => exact absurd rfl hbefore

/-- The update of a snapshot waits for its row, if there is one. -/
theorem asking_updateBalance {Q : AskPost Unit} {account posting : UUID} {amount : Int}
    (h : Updated rank seen o held log)
    (hrank : Ascending rank seen ([account].filter (Svc.matched d₀ tenantId)))
    (hQ : ∀ o' held' log',
      Updated rank (seen ++ [account].filter (Svc.matched d₀ tenantId)) o' held' log' →
      Q () o' held' log') :
    Asking (movementOrder rank requests d₀) (Svc.updateBalance tenantId account amount posting) Q o
      held log := by
  intro d hd t b ws hq
  have hmatched : Svc.matched (replay d log) tenantId account = Svc.matched d₀ tenantId account :=
    (matched_replay h.log d tenantId account).trans (Settled.matched hd tenantId account)
  simp only [hmatched] at hq
  cases hm : Svc.matched d₀ tenantId account with
  | false =>
    simp only [hm, Bool.false_eq_true, if_false] at hq
    cases hq
    have h' : Updated rank seen (Svc.sync o tenantId account amount posting) held log :=
      ⟨h.rows, h.before, h.log, h.pending⟩
    exact ⟨by simp, hQ _ _ _ (by simpa [hm] using h')⟩
  | true =>
    simp only [hm, if_true] at hq
    simp only [List.filter_cons, hm, if_true, List.filter_nil] at hrank hQ
    cases hc : (replay d log).constrain (.bump account amount posting) with
    | error e =>
      simp only [hc, Except.map] at hq
      cases hq
    | ok u =>
      simp only [hc, Except.map] at hq
      cases hq
      have hlocks : [Write.bump account amount posting].flatMap (Dbms.locks Database) =
          [.row .balances account] := rfl
      rw [hlocks]
      refine ⟨fun r hr => ?_, hQ _ _ _
        ⟨fun a => ?_, fun r hr hnot => ?_, h.log.append ?_, h.pending⟩⟩
      · rw [List.mem_singleton.mp hr]
        exact asks_snapshot h hrank.1
      · simp [h.rows a]
      · rcases List.mem_append.mp hr with hr | hr
        · exact h.before r hr hnot
        · rw [List.mem_singleton.mp hr]
          exact WithTop.coe_ne_top
      · intro r hr
        simp at hr

/-- The legs of a transaction ask for their snapshots one by one. -/
theorem asking_postLegs {Q : AskPost Unit} {txn : UUID} (specs : List PostingSpec)
    (h : Updated rank seen o held log)
    (hrank : Ascending rank seen
      ((specs.map PostingSpec.accountId).filter (Svc.matched d₀ tenantId)))
    (hQ : ∀ o' held' log', Updated rank
      (seen ++ (specs.map PostingSpec.accountId).filter (Svc.matched d₀ tenantId)) o' held' log' →
      Q () o' held' log') :
    Asking (movementOrder rank requests d₀) (postLegs tenantId txn specs) Q o held log := by
  induction specs generalizing seen o held log with
  | nil => exact hQ o held log (by simpa using h)
  | cons spec specs ih =>
    have hsplit : ((spec :: specs).map PostingSpec.accountId).filter (Svc.matched d₀ tenantId) =
        [spec.accountId].filter (Svc.matched d₀ tenantId) ++
          (specs.map PostingSpec.accountId).filter (Svc.matched d₀ tenantId) := by
      rw [List.map_cons, ← List.filter_append]
      rfl
    rw [hsplit] at hrank hQ
    obtain ⟨hfirst, hrest⟩ := ascending_append.mp hrank
    rw [postLegs, asking_bind]
    refine asking_uuid4 fun id => ?_
    rw [asking_bind]
    refine asking_now fun createdAt => ?_
    rw [asking_bind]
    refine asking_add ?_
    rw [asking_bind]
    refine asking_flush (h.add (drawn_insPosting _)) fun held₁ log₁ h₁ => ?_
    rw [asking_bind]
    refine asking_updateBalance h₁ hfirst fun o₂ held₂ log₂ h₂ => ?_
    refine ih h₂ hrest fun o' held' log' h' => hQ o' held' log' ?_
    rwa [← List.append_assoc]

/-- One call of the engine asks for the snapshots of its legs. -/
theorem asking_postTransaction {Q : AskPost Transaction} {specs : List PostingSpec} {memo : String}
    {correctsId : Option UUID} (h : Updated rank seen o held log)
    (hrank : Ascending rank seen
      ((specs.map PostingSpec.accountId).filter (Svc.matched d₀ tenantId)))
    (hQ : ∀ txn o' held' log', Updated rank
      (seen ++ (specs.map PostingSpec.accountId).filter (Svc.matched d₀ tenantId)) o' held' log' →
      Q txn o' held' log') :
    Asking (movementOrder rank requests d₀) (postTransaction tenantId specs memo correctsId) Q o
      held log := by
  unfold postTransaction
  split_ifs with htwo hzero
  · exact asking_raise _
  · exact asking_raise _
  · rw [asking_bind]
    refine asking_uuid4 fun id => ?_
    rw [asking_bind]
    refine asking_now fun createdAt => ?_
    rw [asking_bind]
    refine asking_add ?_
    rw [asking_bind]
    refine asking_flush (h.add (drawn_insTransaction _)) fun held₁ log₁ h₁ => ?_
    rw [asking_bind]
    refine asking_postLegs specs h₁ hrank fun o₂ held₂ log₂ h₂ => ?_
    rw [asking_bind, enqueueOutboxEvent, asking_bind]
    refine asking_uuid4 fun eid => ?_
    rw [asking_bind]
    refine asking_now fun eventAt => ?_
    exact asking_add (hQ _ _ held₂ log₂ (h₂.add (drawn_insOutbox _)))

end snapshots

/-! ## Requests -/

/-- The accounts can be ranked so that every request updates its snapshots in
    ascending order. -/
structure Ranked [Runtime] {ι : Type} [LT κ] (rank : UUID → κ) (requests : ι → Request)
    (d₀ : Database) : Prop where
  /-- A request keeps the locks of all its transactions. -/
  ascends : ∀ i tenantId xss, Touches d₀ (requests i) tenantId xss →
    Ascending rank [] (xss.flatten.filter (Svc.matched d₀ tenantId))
  /-- The reversal of a transaction that is still to be posted has its legs, in
      the order in which the query returns them. -/
  later : ∀ i tenantId id req key, requests i = .reverse tenantId id req key →
    d₀.transactions.find? id = none →
    ∀ postings : List Posting, Planned requests d₀ (postings.map Posting.accountId) →
      Ascending rank []
        (((Runtime.unordered postings).map Posting.accountId).filter (Svc.matched d₀ tenantId))

section requests

variable {ι : Type} [Preorder κ] {rank : UUID → κ} {requests : ι → Request} {d₀ : Database}
  {i : ι} {tenantId key : String}

/-- The advisory lock is the first lock a request asks for. -/
theorem asking_accountLock {L : LockOrder Database Resource κ} {Q : AskPost Unit} {o : OrmSession}
    {log : List Write} {account : UUID} (h : Q () o [.advisory (lockKey account)] log) :
    Asking L (accountLock account) Q o [] log :=
  asking_lock (fun _ => .inr (by simp)) h

theorem asking_requireFunds {L : LockOrder Database Resource κ} {Q : AskPost Unit} {o : OrmSession}
    {log : List Write} {account : UUID} {amount : Int}
    (h : ∀ o', o'.pending = o.pending → Q () o' [.advisory (lockKey account)] log) :
    Asking L (requireFunds tenantId account amount) Q o [] log := by
  rw [requireFunds, asking_bind]
  refine asking_accountLock ?_
  rw [asking_bind]
  refine asking_availableBalance fun r o' ho => ?_
  cases r with
  | none => exact asking_raise _
  | some b =>
    simp only
    split_ifs
    · exact asking_raise _
    · exact h o' ho

variable [Runtime]

theorem asking_moveFunds {Q : AskPost UUID} {src dst : Account} {req : TransferRequest}
    {effectiveAt : Time} {o : OrmSession} {held : List Resource} (h : Updated rank [] o held [])
    (hunseen : d₀.records.find? ⟨tenantId, ENDPOINT, key⟩ = none)
    (hsrc : d₀.HasAccount tenantId req.sourceAccountId src)
    (hdst : d₀.HasAccount tenantId req.destinationAccountId dst)
    (hrank : ∀ xss, Touches d₀ (.transfer tenantId req key) tenantId xss →
      Ascending rank [] (xss.flatten.filter (Svc.matched d₀ tenantId)))
    (hQ : ∀ id seen o' held' log', Updated rank seen o' held' log' → Q id o' held' log') :
    Asking (movementOrder rank requests d₀) (moveFunds tenantId src dst req effectiveAt) Q o held
      [] := by
  unfold moveFunds
  split_ifs with hcur
  · rw [asking_bind, routeConversion, asking_bind]
    refine asking_resolveRate fun rate => ?_
    cases convert req.amount src.currency dst.currency rate.rate with
    | none => exact asking_raise _
    | some target =>
      simp only
      rw [asking_bind]
      refine asking_conversionAccount fun srcConv d hd hsrcConv => ?_
      rw [asking_bind]
      refine asking_conversionAccount fun dstConv d' hd' hdstConv => ?_
      rw [replay_nil, openAt_of_accounts (Settled.accounts hd)] at hsrcConv
      rw [replay_nil, openAt_of_accounts (Settled.accounts hd')] at hdstConv
      -- the legs of both transactions, in one sequence
      have hchain := hrank _ (.routed hunseen hsrc hdst hcur hsrcConv hdstConv)
      have hsplit : [[src.id, srcConv.id], [dstConv.id, dst.id]].flatten.filter
          (Svc.matched d₀ tenantId) = [src.id, srcConv.id].filter (Svc.matched d₀ tenantId) ++
            [dstConv.id, dst.id].filter (Svc.matched d₀ tenantId) := by
        rw [← List.filter_append]
        rfl
      rw [hsplit, ascending_append] at hchain
      rw [asking_bind]
      refine asking_postTransaction h hchain.1 fun debit o₁ held₁ log₁ h₁ => ?_
      rw [asking_bind]
      refine asking_postTransaction h₁ hchain.2 fun credit o₂ held₂ log₂ h₂ => ?_
      exact hQ _ _ o₂ held₂ log₂ h₂
  · rw [asking_bind]
    have hchain := hrank _ (.direct hunseen hsrc hdst (not_not.mp hcur))
    refine asking_postTransaction h hchain fun txn o₁ held₁ log₁ h₁ => ?_
    exact hQ _ _ o₁ held₁ log₁ h₁

theorem asking_executeTransfer {req : TransferRequest}
    (hrank : ∀ xss, Touches d₀ (.transfer tenantId req key) tenantId xss →
      Ascending rank [] (xss.flatten.filter (Svc.matched d₀ tenantId))) :
    Asking (movementOrder rank requests d₀) (executeTransfer tenantId req key)
      (fun _ _ _ _ => True) {} [] [] := by
  simp only [executeTransfer]
  rw [asking_bind]
  refine asking_lookup (fun d hd hunseen => ?_) fun p => asking_replayed fun _ => trivial
  simp only
  rw [asking_bind]
  refine asking_requireAccount fun src dS hdS hsrc => ?_
  rw [asking_bind]
  refine asking_requireAccount fun dst dD hdD hdst => ?_
  rw [asking_bind]
  refine asking_requireFunds fun oF hF => ?_
  rw [asking_bind]
  refine asking_orNow fun effectiveAt => ?_
  rw [asking_bind]
  refine asking_moveFunds (updated_nil hF _) (Settled.records hd _ hunseen)
    (hasAccount_of_accounts (Settled.accounts hdS) hsrc)
    (hasAccount_of_accounts (Settled.accounts hdD) hdst) hrank
    fun txnId seen oM held log hM => ?_
  -- what follows waits for the record only
  rw [asking_bind]
  refine asking_balanceOf fun srcAfter oS hS => ?_
  rw [asking_bind]
  refine asking_balanceOf fun dstAfter oD hD => ?_
  rw [asking_bind]
  refine asking_record fun r => ?_
  rw [asking_bind]
  exact asking_commit hM (by rw [hD, hS]) (by simp [Write.locks, Resource.place]) trivial

theorem asking_captureHold {id : UUID} {req : CaptureHoldRequest}
    (hrank : ∀ xss, Touches d₀ (.captureHold tenantId id req) tenantId xss →
      Ascending rank [] (xss.flatten.filter (Svc.matched d₀ tenantId))) :
    Asking (movementOrder rank requests d₀) (captureHold tenantId id req) (fun _ _ _ _ => True) {}
      [] [] := by
  rw [captureHold, asking_bind]
  refine asking_requireHold fun hold dH hdH hfound htenant => ?_
  by_cases hcaptured : hold.state = .CAPTURED
  · rw [if_pos hcaptured]
    exact asking_currentResponse fun _ _ => trivial
  rw [if_neg hcaptured]
  by_cases hactive : hold.state ≠ .ACTIVE
  · rw [if_pos hactive]
    exact asking_raise _
  rw [if_neg hactive, asking_bind]
  rw [not_not] at hactive
  refine asking_requireAccount fun src dS hdS hsrc => ?_
  rw [asking_bind]
  refine asking_requireAccount fun dst dD hdD hdst => ?_
  by_cases hcur : src.currency ≠ dst.currency
  · rw [if_pos hcur]
    exact asking_raise _
  rw [if_neg hcur]
  by_cases hwithin : hold.amount < captureAmount hold req
  · rw [if_pos hwithin]
    exact asking_raise _
  -- the checks have passed, so the request plans to touch these snapshots
  have hchain := hrank _ (.captured (Settled.active hdH id hold hfound hactive) htenant hactive
    (hasAccount_of_accounts (Settled.accounts hdS) hsrc)
    (hasAccount_of_accounts (Settled.accounts hdD) hdst) (not_not.mp hcur) (not_lt.mp hwithin))
  rw [if_neg hwithin, asking_bind, captureFunds, asking_bind]
  -- the advisory lock is asked for before any snapshot
  refine asking_accountLock ?_
  rw [asking_bind]
  refine asking_availableBalance fun before oB hB => ?_
  cases before with
  | none => exact asking_raise _
  | some before =>
    simp only
    by_cases hcovers : before.posted < captureAmount hold req
    · rw [if_pos hcovers]
      exact asking_raise _
    · rw [if_neg hcovers, asking_bind]
      refine asking_now fun effectiveAt => ?_
      rw [asking_bind]
      refine asking_postTransaction (updated_nil hB _) hchain fun txn oP held log hP => ?_
      simp only [asking_pure]
      rw [asking_bind]
      refine asking_add ?_
      rw [asking_bind]
      refine asking_availableBalance fun after oA hA => ?_
      cases after with
      | none => exact asking_raise _
      | some after =>
        simp only
        rw [asking_bind]
        exact asking_commit hP hA (by simp [Write.locks, Resource.place]) trivial

theorem asking_reverseTransaction {id : UUID} {req : ReverseTransactionRequest}
    (hrank : ∀ xss, Touches d₀ (.reverse tenantId id req key) tenantId xss →
      Ascending rank [] (xss.flatten.filter (Svc.matched d₀ tenantId)))
    (hlater : d₀.transactions.find? id = none →
      ∀ postings : List Posting, Planned requests d₀ (postings.map Posting.accountId) →
        Ascending rank []
          (((Runtime.unordered postings).map Posting.accountId).filter
            (Svc.matched d₀ tenantId))) :
    Asking (movementOrder rank requests d₀) (reverseTransaction tenantId id req key)
      (fun _ _ _ _ => True) {} [] [] := by
  simp only [reverseTransaction]
  rw [asking_bind]
  refine asking_lookup (fun d hd hunseen => ?_) fun p => asking_replayed fun _ => trivial
  simp only
  rw [asking_bind]
  refine asking_requireTransaction fun original dT hdT hfound htenant => ?_
  by_cases hplain : original.correctsId ≠ none
  · rw [if_pos hplain]
    exact asking_raise _
  rw [if_neg hplain, asking_bind]
  refine asking_select fun dX hdX _ => ?_
  by_cases hreversed : (replay dX []).reversalsOf tenantId id ≠ []
  · rw [if_pos hreversed]
    exact asking_raise _
  rw [if_neg hreversed, asking_bind]
  refine asking_select fun dQ hdQ _ => ?_
  by_cases hempty : (replay dQ []).selectPostings id = []
  · rw [if_pos hempty]
    exact asking_raise _
  rw [if_neg hempty, asking_bind]
  refine asking_now fun effectiveAt => ?_
  rw [asking_bind]
  -- the legs, as the run started with them or as they were posted since
  have hchain : Ascending rank [] (((reversed ((replay dQ []).selectPostings id) effectiveAt).map
      PostingSpec.accountId).filter (Svc.matched d₀ tenantId)) := by
    have hspecs : (reversed ((replay dQ []).selectPostings id) effectiveAt).map
        PostingSpec.accountId = (dQ.selectPostings id).map Posting.accountId := by
      simp [reversed]
    rw [hspecs]
    have hne : dQ.postingsOf id ≠ [] := fun hnil =>
      hempty (List.perm_nil.mp (hnil ▸ dQ.selectPostings_perm id))
    rcases Settled.reversed hdQ hne with ⟨t₀, hfind₀, hlegs⟩ | ⟨hnone, hplanned⟩
    · obtain rfl := Settled.found hdT hfound hfind₀
      have hunreversed := Settled.unreversed hdX (not_not.mp hreversed)
      have hchain := hrank _ (.reversed (Settled.records hd _ hunseen) hfind₀ htenant
        (not_not.mp hplain) hunreversed)
      simpa [Database.selectPostings, hlegs] using hchain
    · exact hlater hnone _ hplanned
  have hstart : Updated rank [] {} [] [] := ⟨by simp, by simp, by simp [NoNewSnapshot], by simp⟩
  refine asking_postTransaction hstart hchain fun reversal oP held log hP => ?_
  rw [asking_bind]
  refine asking_record fun r => ?_
  rw [asking_bind]
  exact asking_commit hP rfl (by simp [Write.locks, Resource.place]) trivial

/-- **A movement** asks for its locks in order. -/
theorem asking_movement (h : Ranked rank requests d₀) (hmoves : (requests i).moves = true) :
    Asking (movementOrder rank requests d₀) (requests i).service
      (fun _ _ _ _ => True) {} [] [] := by
  have hascends := h.ascends i
  cases hi : requests i with
  | transfer tenantId req key =>
    rw [hi] at hascends
    rw [Request.service, asking_map]
    exact asking_executeTransfer (hascends tenantId)
  | captureHold tenantId id req =>
    rw [hi] at hascends
    rw [Request.service, asking_map]
    exact asking_captureHold (hascends tenantId)
  | reverse tenantId id req key =>
    rw [hi] at hascends
    rw [Request.service, asking_map]
    exact asking_reverseTransaction (hascends tenantId) (h.later i tenantId id req key hi)
  | _ => simp [hi, Request.moves] at hmoves

/-- So it does for its advisory lock and its snapshots. -/
theorem asking_service (h : Ranked rank requests d₀) (hmoves : (requests i).moves = true) :
    Asking (snapshotOrder rank requests d₀) (requests i).service
      (fun _ _ _ _ => True) {} [] [] :=
  Orderly.weaken (snapshotOrder_coarser rank requests d₀) (asking_movement h hmoves)

end requests

end Ledger
