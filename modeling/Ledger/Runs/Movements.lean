import Ledger.Runs.Inserts
import Ledger.Runs.Sessions

/-! # Runs of Money Movements

    Transfers, captures and reversals, any number of them, interleaved.

    * **Plan**: `Touches`, the accounts whose snapshots a request updates,
      transaction by transaction, from the state the run starts in.
    * **Commit**: `Movement`, what the writes of one commit are.
    * **Invariant**: `Settled`, what the committed states of a run have kept
      of its first state (`settled_of_reachable`).
-/

namespace Ledger

open ReadCommitted

/-! ## Plan -/

/-- The request is a transfer, a capture or a reversal. -/
def Request.moves : Request → Bool
  | .transfer .. => true
  | .captureHold .. => true
  | .reverse .. => true
  | _ => false

/-- The accounts of the transactions a request posts, in the order of their
    legs, unless it is answered from its key or refused. -/
inductive Touches [Runtime] (d : Database) : Request → String → List (List UUID) → Prop where
  | direct {tenantId req key src dst}
      (hunseen : d.records.find? ⟨tenantId, ENDPOINT, key⟩ = none)
      (hsrc : d.HasAccount tenantId req.sourceAccountId src)
      (hdst : d.HasAccount tenantId req.destinationAccountId dst)
      (hcur : src.currency = dst.currency) :
      Touches d (.transfer tenantId req key) tenantId
        [[req.sourceAccountId, req.destinationAccountId]]
  /-- Through the conversion accounts, in two transactions. -/
  | routed {tenantId req key src dst srcConv dstConv}
      (hunseen : d.records.find? ⟨tenantId, ENDPOINT, key⟩ = none)
      (hsrc : d.HasAccount tenantId req.sourceAccountId src)
      (hdst : d.HasAccount tenantId req.destinationAccountId dst)
      (hcur : src.currency ≠ dst.currency)
      (hsrcConv : d.openAt tenantId (conversionPath src.currency) = [srcConv])
      (hdstConv : d.openAt tenantId (conversionPath dst.currency) = [dstConv]) :
      Touches d (.transfer tenantId req key) tenantId
        [[src.id, srcConv.id], [dstConv.id, dst.id]]
  | captured {tenantId id req src dst} {hold : Hold}
      (hfound : d.holds.find? id = some hold) (htenant : hold.tenantId = tenantId)
      (hactive : hold.state = .ACTIVE) (hsrc : d.HasAccount tenantId hold.accountId src)
      (hdst : d.HasAccount tenantId req.destinationAccountId dst)
      (hcur : src.currency = dst.currency) (hwithin : captureAmount hold req ≤ hold.amount) :
      Touches d (.captureHold tenantId id req) tenantId
        [[hold.accountId, req.destinationAccountId]]
  | reversed {tenantId id req key original}
      (hunseen : d.records.find? ⟨tenantId, REVERSE_ENDPOINT, key⟩ = none)
      (hfound : d.transactions.find? id = some original) (htenant : original.tenantId = tenantId)
      (hplain : original.correctsId = none) (hunreversed : d.reversalsOf tenantId id = []) :
      Touches d (.reverse tenantId id req key) tenantId
        [(d.selectPostings id).map Posting.accountId]

/-! ## Commit -/

/-- A write of a money movement. -/
def Write.moving : Write → Bool
  | .insTransaction _ => true
  | .insPosting _ => true
  | .insOutbox _ => true
  | .insRecord _ => true
  | .bump .. => true
  | .captureHold .. => true
  | _ => false

variable {ι : Type} {requests : ι → Request} {d₀ d : Database} {ws vs : List Write}

/-- The legs of a transaction among the postings that are written with it. -/
def accountsOf (ps : List Posting) (transaction : UUID) : List UUID :=
  (ps.filter fun p => p.transactionId = transaction).map Posting.accountId

@[simp] theorem accountsOf_append (ps qs : List Posting) (id : UUID) :
    accountsOf (ps ++ qs) id = accountsOf ps id ++ accountsOf qs id := by
  simp [accountsOf]

/-- A transaction other than those the postings belong to has none of them. -/
theorem legs_eq_nil {ps : List Posting} {ts : List Transaction} {id : UUID}
    (howned : ∀ p ∈ ps, ∃ t ∈ ts, t.id = p.transactionId) (hne : ∀ t ∈ ts, t.id ≠ id) :
    ps.filter (fun p => p.transactionId = id) = [] := by
  have hother : ∀ p ∈ ps, p.transactionId ≠ id := by
    intro p hp
    obtain ⟨t, ht, hid⟩ := howned p hp
    rw [← hid]
    exact hne t ht
  simpa using hother

theorem accountsOf_eq_nil {ps : List Posting} {ts : List Transaction} {id : UUID}
    (howned : ∀ p ∈ ps, ∃ t ∈ ts, t.id = p.transactionId) (hne : ∀ t ∈ ts, t.id ≠ id) :
    accountsOf ps id = [] := by
  rw [accountsOf, legs_eq_nil howned hne, List.map_nil]

theorem owned_append {ps qs : List Posting} {ts us : List Transaction}
    (h : ∀ p ∈ ps, ∃ t ∈ ts, t.id = p.transactionId)
    (h' : ∀ p ∈ qs, ∃ t ∈ us, t.id = p.transactionId) :
    ∀ p ∈ ps ++ qs, ∃ t ∈ ts ++ us, t.id = p.transactionId := by
  intro p hp
  rcases List.mem_append.mp hp with hp | hp
  · obtain ⟨t, ht, hid⟩ := h p hp
    exact ⟨t, List.mem_append_left _ ht, hid⟩
  · obtain ⟨t, ht, hid⟩ := h' p hp
    exact ⟨t, List.mem_append_right _ ht, hid⟩

theorem insertedPostings_legWrites (legs : List Leg) :
    insertedPostings (legWrites legs) = legs.map Leg.posting := by
  induction legs with
  | nil => rfl
  | cons l legs ih =>
    rw [legWrites_cons, insertedPostings_append, ih]
    unfold Leg.writes
    split_ifs <;> rfl

/-- The legs are on the requested accounts. -/
theorem Leg.Of.accounts {txn : UUID} {specs : List PostingSpec} {legs : List Leg}
    (h : List.Forall₂ (Leg.Of txn) specs legs) :
    (legs.map Leg.posting).map Posting.accountId = specs.map PostingSpec.accountId := by
  induction h with
  | nil => rfl
  | cons hof _ ih => simp [hof.account, ih]

/-- A hold that is still active was not captured. -/
theorem active_replay (h : ∀ w ∈ ws, w.moving = true) {id : UUID} {hold : Hold}
    (hfind : (replay d ws).holds.find? id = some hold) (hactive : hold.state = .ACTIVE) :
    d.holds.find? id = some hold := by
  induction ws generalizing d with
  | nil => exact hfind
  | cons w ws ih =>
    rw [replay_cons] at hfind
    have hrow := ih (fun v hv => h v (by simp [hv])) hfind
    have hw := h w (by simp)
    cases w with
    | captureHold x t amount time =>
      by_cases hx : id = x
      · subst hx
        simp only [Database.dbms_apply, Database.apply, Table.find?_modify_self,
          Option.map_eq_some_iff] at hrow
        obtain ⟨h₀, -, rfl⟩ := hrow
        cases hactive
      · rw [← hrow]
        exact (Table.find?_modify_of_ne _ _ (Hold.key_capture t amount time) hx).symm
    | insHold r => cases hw
    | releaseHold x time => cases hw
    | _ => exact hrow

/-- A key that is still free was free. -/
theorem records_replay (h : ∀ w ∈ ws, w.moving = true) {k : RecordKey}
    (hfind : (replay d ws).records.find? k = none) : d.records.find? k = none := by
  induction ws generalizing d with
  | nil => exact hfind
  | cons w ws ih =>
    rw [replay_cons] at hfind
    have hrow := ih (fun v hv => h v (by simp [hv])) hfind
    have hw := h w (by simp)
    cases w with
    | insRecord r =>
      cases hd : d.records.find? k with
      | none => rfl
      | some s =>
        rw [Database.dbms_apply, Database.apply, Table.find?_insert_of_some hd] at hrow
        cases hrow
    | deleteRecords ks => cases hw
    | _ => exact hrow

/-- A new transaction is not one of those there are. -/
theorem Fresh.unstored (h : Fresh d ws) {t u : Transaction} (ht : t ∈ insertedTransactions ws)
    (hu : u ∈ d.transactions.rows) : u.id ≠ t.id := by
  intro heq
  have hnone := (h.rows (f := Write.transaction?) (t := .transactions)
    fun w r hr => by cases w <;> cases hr; rfl).1 t ht
  have hfind := Table.find?_of_mem hu
  rw [key_transaction, heq] at hfind
  simp [Database.has, hfind] at hnone

theorem hasAccount_of_accounts {tenantId : String} {id : UUID} {a : Account}
    (h : d.accounts = d₀.accounts) (ha : d.HasAccount tenantId id a) :
    d₀.HasAccount tenantId id a := by
  unfold Database.HasAccount at ha ⊢
  rwa [h] at ha

theorem openAt_of_accounts {tenantId path : String} (h : d.accounts = d₀.accounts) :
    d.openAt tenantId path = d₀.openAt tenantId path := by
  unfold Database.openAt
  rw [h]

/-- The accounts are those of one transaction of one of the requests, or of
    its reversal, which takes them in the order of its query. -/
inductive Planned [Runtime] (requests : ι → Request) (d₀ : Database) : List UUID → Prop where
  | asked {i tenantId xss xs} (h : Touches d₀ (requests i) tenantId xss) (hxs : xs ∈ xss) :
      Planned requests d₀ xs
  | reversed {postings : List Posting}
      (h : Planned requests d₀ (postings.map Posting.accountId)) :
      Planned requests d₀ ((Runtime.unordered postings).map Posting.accountId)

/-- The writes of a commit of money movements in a run from `d₀`. -/
structure Movement [Runtime] (requests : ι → Request) (d₀ : Database) (ws : List Write) : Prop where
  moving : ∀ w ∈ ws, w.moving = true
  /-- Its postings are those of its transactions. -/
  owned : ∀ p ∈ insertedPostings ws, ∃ t ∈ insertedTransactions ws, t.id = p.transactionId
  planned : ∀ t ∈ insertedTransactions ws,
    Planned requests d₀ (accountsOf (insertedPostings ws) t.id)

variable [Runtime]

/-- Writes that post nothing. -/
theorem Movement.plain (h : ∀ w ∈ ws, w.moving = true)
    (hplain : insertedTransactions ws = [] ∧ insertedPostings ws = []) :
    Movement requests d₀ ws where
  moving := h
  owned := by simp [hplain.2]
  planned := by simp [hplain.1]

/-- The writes of one transaction. -/
theorem Movement.block {txn : Transaction} {specs : List PostingSpec} {legs : List Leg}
    (hcarried : List.Forall₂ (Leg.Of txn.id) specs legs)
    (hplanned : Planned requests d₀ (specs.map PostingSpec.accountId)) :
    Movement requests d₀ (.insTransaction txn :: legWrites legs) := by
  have htransactions : insertedTransactions (.insTransaction txn :: legWrites legs) = [txn] := by
    have hnone : insertedTransactions (legWrites legs) = [] := by
      unfold insertedTransactions
      rw [List.filterMap_eq_nil_iff]
      intro w hw
      rcases table_legWrites hw with h | h <;> cases w <;> first | rfl | cases h
    exact congrArg (txn :: ·) hnone
  have hpostings : insertedPostings (.insTransaction txn :: legWrites legs) =
      legs.map Leg.posting := insertedPostings_legWrites legs
  have hown := Leg.Of.transactions hcarried
  constructor
  · intro w hw
    rcases List.mem_cons.mp hw with rfl | hw
    · rfl
    · simp only [legWrites, List.mem_flatMap, Leg.writes] at hw
      obtain ⟨l, -, hw⟩ := hw
      split_ifs at hw
      · rcases List.mem_cons.mp hw with rfl | hw
        · rfl
        · rw [List.mem_singleton.mp hw]
          rfl
      · rw [List.mem_singleton.mp hw]
        rfl
  · rw [hpostings, htransactions]
    intro p hp
    obtain ⟨l, hl, rfl⟩ := List.mem_map.mp hp
    exact ⟨txn, by simp, (hown l hl).symm⟩
  · rw [hpostings, htransactions]
    intro t ht
    rw [List.mem_singleton.mp ht]
    have hall : accountsOf (legs.map Leg.posting) txn.id = specs.map PostingSpec.accountId := by
      have hfilter : (legs.map Leg.posting).filter (fun p => p.transactionId = txn.id) =
          legs.map Leg.posting := by
        rw [List.filter_eq_self]
        simpa using hown
      rw [accountsOf, hfilter]
      exact Leg.Of.accounts hcarried
    rw [hall]
    exact hplanned

/-- One after the other, of different transactions. -/
theorem Movement.append (h : Movement requests d₀ ws) (h' : Movement requests d₀ vs)
    (hne : ∀ t ∈ insertedTransactions ws, ∀ u ∈ insertedTransactions vs, t.id ≠ u.id) :
    Movement requests d₀ (ws ++ vs) where
  moving w hw := (List.mem_append.mp hw).elim (h.moving w) (h'.moving w)
  owned := by
    rw [insertedTransactions_append, insertedPostings_append]
    exact owned_append h.owned h'.owned
  planned := by
    simp only [insertedTransactions_append, insertedPostings_append, List.mem_append,
      accountsOf_append]
    rintro t (ht | ht)
    · rw [accountsOf_eq_nil h'.owned fun u hu => (hne t ht u hu).symm, List.append_nil]
      exact h.planned t ht
    · rw [accountsOf_eq_nil h.owned fun u hu => hne u hu t ht, List.nil_append]
      exact h'.planned t ht

/-- Rows written after the transactions. -/
theorem Movement.then (h : Movement requests d₀ ws) (hvs : ∀ w ∈ vs, w.moving = true)
    (hplain : insertedTransactions vs = [] ∧ insertedPostings vs = []) :
    Movement requests d₀ (ws ++ vs) :=
  h.append (.plain hvs hplain) (by simp [hplain.1])

/-! ## Invariant -/

/-- What a committed state of a run from `d₀` has kept of it. -/
structure Settled [Runtime] (requests : ι → Request) (d₀ d : Database) : Prop where
  accounts : d.accounts = d₀.accounts
  /-- The same snapshots are there. -/
  matched : ∀ tenantId a, Svc.matched d tenantId a = Svc.matched d₀ tenantId a
  records : ∀ k, d.records.find? k = none → d₀.records.find? k = none
  active : ∀ id hold, d.holds.find? id = some hold → hold.state = .ACTIVE →
    d₀.holds.find? id = some hold
  transactions : ∀ t ∈ d₀.transactions.rows, t ∈ d.transactions.rows
  legs : ∀ t ∈ d₀.transactions.rows, d.postingsOf t.id = d₀.postingsOf t.id
  /-- Every posting belongs to a transaction. -/
  attached : ∀ p ∈ d.postings.rows, ∃ t ∈ d.transactions.rows, t.id = p.transactionId
  /-- What was posted since is what some request has planned. -/
  planned : ∀ t ∈ d.transactions.rows, t ∉ d₀.transactions.rows →
    Planned requests d₀ (accountsOf d.postings.rows t.id)

/-- The foreign key of the postings. -/
def Attached (d : Database) : Prop :=
  ∀ p ∈ d.postings.rows, ∃ t ∈ d.transactions.rows, t.id = p.transactionId

theorem Settled.refl (h : Attached d₀) : Settled requests d₀ d₀ where
  accounts := rfl
  matched _ _ := rfl
  records _ h := h
  active _ _ h _ := h
  transactions _ h := h
  legs _ _ := rfl
  attached := h
  planned _ ht hnew := absurd ht hnew

/-- **A commit of a movement** keeps what the run has kept. -/
theorem Settled.commit (h : Settled requests d₀ d) (hm : Movement requests d₀ ws)
    (hfresh : Fresh d ws) : Settled requests d₀ (replay d ws) := by
  have htables : ∀ w ∈ ws, w.table ≠ .accounts ∧ ∀ r, w ≠ .insBalance r := by
    intro w hw
    have hmoving := hm.moving w hw
    cases w <;> first | (constructor <;> simp [Write.table]; done) | cases hmoving
  -- the movement posts nothing to a transaction that was there
  have hold : ∀ u ∈ d.transactions.rows, accountsOf (insertedPostings ws) u.id = [] := by
    intro u hu
    exact accountsOf_eq_nil hm.owned fun t ht => (hfresh.unstored ht hu).symm
  have htransactions := hfresh.transactions
  have hpostings := hfresh.postings
  exact
    { accounts := by
        rw [Database.replay_accounts fun w hw => (htables w hw).1]
        exact h.accounts
      matched := by
        intro tenantId a
        rw [matched_replay fun r hr => (htables _ hr).2 r rfl]
        exact h.matched tenantId a
      records := fun k hk => h.records k (records_replay hm.moving hk)
      active := fun id hold hfind hactive =>
        h.active id hold (active_replay hm.moving hfind hactive) hactive
      transactions := by
        intro t ht
        rw [htransactions]
        exact List.mem_append_left _ (h.transactions t ht)
      legs := by
        intro t ht
        have hnone := legs_eq_nil hm.owned fun u hu =>
          (hfresh.unstored hu (h.transactions t ht)).symm
        rw [← h.legs t ht, Database.postingsOf, hpostings, List.filter_append, hnone,
          List.append_nil]
        rfl
      attached := by
        rw [htransactions, hpostings]
        exact owned_append h.attached hm.owned
      planned := by
        rw [htransactions, hpostings]
        intro t ht hnew
        rw [accountsOf_append]
        rcases List.mem_append.mp ht with ht | ht
        · rw [hold t ht, List.append_nil]
          exact h.planned t ht hnew
        · -- nor had a new transaction any posting before
          rw [accountsOf_eq_nil h.attached fun u hu => hfresh.unstored ht hu, List.nil_append]
          exact hm.planned t ht }

/-- The transaction a reversal negates, when it has postings: they are those it
    had at the start, or on accounts that some request has planned. -/
theorem Settled.reversed (h : Settled requests d₀ d) {id : UUID} (hne : d.postingsOf id ≠ []) :
    (∃ t, d₀.transactions.find? id = some t ∧ d.postingsOf id = d₀.postingsOf id) ∨
    (d₀.transactions.find? id = none ∧
      Planned requests d₀ ((d.postingsOf id).map Posting.accountId)) := by
  obtain ⟨p, hp⟩ := List.exists_mem_of_ne_nil _ hne
  simp only [Database.postingsOf, List.mem_filter, decide_eq_true_eq] at hp
  obtain ⟨t, ht, hid⟩ := h.attached p hp.1
  rw [hp.2] at hid
  cases hfind : d₀.transactions.find? id with
  | some t₀ =>
    have hrow := Table.mem_of_find? hfind
    have hkey : t₀.id = id := Table.key_of_find? hfind
    exact .inl ⟨t₀, rfl, hkey ▸ h.legs t₀ hrow⟩
  | none =>
    refine .inr ⟨rfl, ?_⟩
    have hnew : t ∉ d₀.transactions.rows := fun hmem => Table.find?_eq_none_iff.mp hfind t hmem hid
    exact hid ▸ h.planned t ht hnew

/-- What is found of the transaction of a reversal was so at the start. -/
theorem Settled.unreversed (h : Settled requests d₀ d) {tenantId : String} {id : UUID}
    (hnone : d.reversalsOf tenantId id = []) : d₀.reversalsOf tenantId id = [] := by
  simp only [Database.reversalsOf, List.filter_eq_nil_iff] at hnone ⊢
  exact fun t ht => hnone t (h.transactions t ht)

theorem Settled.found (h : Settled requests d₀ d) {id : UUID} {t t₀ : Transaction}
    (hfind : d.transactions.find? id = some t) (hfind₀ : d₀.transactions.find? id = some t₀) :
    t = t₀ := by
  have hrow := Table.find?_of_mem (h.transactions t₀ (Table.mem_of_find? hfind₀))
  rw [Table.key_of_find? hfind₀, hfind] at hrow
  exact Option.some.inj hrow

/-! ## Runs -/

/-- What the commits of a run from `d₀` leave is settled. -/
abbrev settling (requests : ι → Request) (d₀ : Database) : RG ι Database Write Resource :=
  .logging Sys.all fun _ tx g => Settled requests d₀ (replay g.db tx.log)

variable {clock : Time} {g g' : Shared ι Database Write} {tx tx' : Tx Write Resource}

theorem settled_of_rely (h : Attached d₀) {rs : List Resource}
    (hr : (settling requests d₀).rely rs ⟨d₀, clock, []⟩ g) : Settled requests d₀ g.db := by
  obtain ⟨cs, hlogged, -⟩ := hr
  rcases List.eq_nil_or_concat cs with rfl | ⟨cs, c, rfl⟩
  · rw [hlogged.db]
    exact .refl h
  · -- the state the last commit left
    have hlast := hlogged.each cs c [] (by simp)
    rw [hlogged.db]
    simpa [afterCommits_append, afterCommits_cons, Commit.entry] using hlast

/-- A movement that is committed leaves a settled state. -/
theorem settled_of_movement (h : Attached d₀)
    (hp : Progress (settling requests d₀) ws ⟨d₀, clock, []⟩ {} g tx)
    (hm : Movement requests d₀ ws) :
    Settled requests d₀ (replay g.db tx.log) ∧ ∀ w ∈ tx.log, Dbms.locks Database w ⊆ tx.held := by
  have hlog : tx.log = ws := by simpa using hp.log
  refine ⟨?_, hp.locked⟩
  rw [hlog]
  exact (settled_of_rely h hp.rely).commit hm (fresh_of_progress hp)

section requests

variable {i : ι}

/-- A movement of funds, whatever the others do. -/
theorem Moved.movement (h : Attached d₀) {tenantId key : String} {req : TransferRequest}
    {src dst : Account} {effectiveAt : Time} {o o' : OrmSession} {id : UUID} {event : OutboxEvent}
    (hi : requests i = .transfer tenantId req key)
    (hunseen : d₀.records.find? ⟨tenantId, ENDPOINT, key⟩ = none)
    (hsrc : d₀.HasAccount tenantId req.sourceAccountId src)
    (hdst : d₀.HasAccount tenantId req.destinationAccountId dst)
    (hp : Progress (settling requests d₀) [] ⟨d₀, clock, []⟩ {} g tx)
    (hmoved : Moved (settling requests d₀) tenantId src dst req effectiveAt o g tx ws id event o' g'
      tx') : Movement requests d₀ ws := by
  have hlog : tx.log = [] := by simpa using hp.log
  cases hmoved with
  | direct hcur hpost =>
    have htouches := Touches.direct hunseen hsrc hdst hcur
    rw [← hi] at htouches
    exact .block hpost.carried (.asked htouches (List.mem_cons_self ..))
  | routed hcur hrate hconv h₂ hsrcConv h₃ hdstConv hdebit hcredit =>
    rename_i rate target srcConv dstConv debit credit legs₁ legs₂ event₁ g₁ tx₁ g₂ tx₂ g₃ tx₃ g₄ tx₄
    have hp₂ := (hp.trans hrate.progress).trans h₂
    have hp₃ := hp₂.trans h₃
    have hp₄ := hp₃.trans hdebit.progress
    -- both conversion accounts are those the run started with
    rw [hlog, replay_nil, openAt_of_accounts (settled_of_rely h hp₂.rely).accounts] at hsrcConv
    rw [hlog, replay_nil, openAt_of_accounts (settled_of_rely h hp₃.rely).accounts] at hdstConv
    have htouches := Touches.routed hunseen hsrc hdst hcur hsrcConv hdstConv
    rw [← hi] at htouches
    have hdebits : Movement requests d₀ (.insTransaction debit :: legWrites legs₁) :=
      .block hdebit.carried (.asked htouches (List.mem_cons_self ..))
    have hcredits : Movement requests d₀ (.insTransaction credit :: legWrites legs₂) :=
      .block hcredit.carried (.asked htouches (by simp [pair]))
    have hevent : Movement requests d₀
        ((.insTransaction debit :: legWrites legs₁) ++ [.insOutbox event₁]) :=
      hdebits.then (by simp [Write.moving]) ⟨rfl, rfl⟩
    have hfresh := fresh_of_progress (hp₄.trans hcredit.progress)
    have hwhole := hevent.append hcredits (Fresh.distinct (d := g'.db) (by simpa using hfresh))
    simpa using hwhole

/-- **Every movement** leaves a settled state when it commits. -/
theorem keeps_settled (h : Attached d₀) (hmoves : (requests i).moves = true) :
    Keeps (settling requests d₀) i (requests i) ⟨d₀, clock, []⟩ := by
  unfold Keeps
  cases hi : requests i with
  | transfer tenantId req key =>
    rw [Request.service, swp_map]
    refine swp_executeTransfer (mayRaise_trivial _ _) (fun _ _ _ _ _ _ _ _ _ => trivial)
      fun run _ => ⟨settled_of_movement h run.whole ?_, trivial⟩
    have hS := (run.lookup.trans run.readSrc).rely
    have hD := ((run.lookup.trans run.readSrc).trans run.readDst).rely
    -- what the run read is what the initial state settles
    have hmoved := run.moved.movement h hi
      ((settled_of_rely h run.lookup.rely).records _ run.unseen)
      (hasAccount_of_accounts (settled_of_rely h hS).accounts run.src_eq)
      (hasAccount_of_accounts (settled_of_rely h hD).accounts run.dst_eq) run.prelude
    exact hmoved.then (by simp [Write.moving]) ⟨rfl, rfl⟩
  | captureHold tenantId id req =>
    rw [Request.service, swp_map]
    refine swp_captureHold (mayRaise_trivial _ _) (fun _ _ _ _ _ _ _ _ _ _ _ _ => trivial)
      fun run _ => ⟨settled_of_movement h run.whole ?_, trivial⟩
    have hS := (run.read.trans run.readSrc).rely
    have hD := ((run.read.trans run.readSrc).trans run.readDst).rely
    have htouches := Touches.captured
      ((settled_of_rely h run.read.rely).active id _ run.found run.active) run.hold_tenant
      run.active (hasAccount_of_accounts (settled_of_rely h hS).accounts run.src_eq)
      (hasAccount_of_accounts (settled_of_rely h hD).accounts run.dst_eq) run.currency run.within
    rw [← hi] at htouches
    have hblock : Movement requests d₀ (.insTransaction run.txn :: legWrites run.legs) :=
      .block run.posted.carried (.asked htouches (List.mem_cons_self ..))
    exact hblock.then (by simp [Write.moving]) ⟨rfl, rfl⟩
  | reverse tenantId id req key =>
    rw [Request.service, swp_map]
    refine swp_reverseTransaction (mayRaise_trivial _ _) (fun _ _ _ _ _ _ _ _ _ => trivial)
      fun run _ => ⟨settled_of_movement h run.whole ?_, fun _ => trivial⟩
    have hblock : Movement requests d₀ (.insTransaction run.txn :: legWrites run.legs) := by
      refine .block run.posted.carried ?_
      have hT := run.lookup.trans run.readOriginal
      have hX := hT.trans run.readExisting
      have hQ := settled_of_rely h (hX.trans run.readPostings).rely
      -- a transaction without postings could not have been negated
      have hne : run.gQ.db.postingsOf id ≠ [] := by
        intro hnil
        have htwo := run.posted.two
        have hempty := List.perm_nil.mp (hnil ▸ run.gQ.db.selectPostings_perm id)
        rw [← run.postings_eq, hempty] at htwo
        simp [reversed] at htwo
      have hspecs : (reversed run.postings run.gM.clock).map PostingSpec.accountId =
          (run.gQ.db.selectPostings id).map Posting.accountId := by
        rw [run.postings_eq]
        simp [reversed]
      rw [hspecs, Database.selectPostings]
      rcases hQ.reversed hne with ⟨t₀, hfind₀, hlegs⟩ | ⟨-, hplanned⟩
      · obtain rfl := (settled_of_rely h hT.rely).found run.found hfind₀
        have htouches : Touches d₀ (.reverse tenantId id req key) tenantId
            [(d₀.selectPostings id).map Posting.accountId] :=
          .reversed ((settled_of_rely h run.lookup.rely).records _ run.unseen) hfind₀
            run.original_tenant run.original_plain
            ((settled_of_rely h hX.rely).unreversed run.unreversed)
        rw [← hi] at htouches
        rw [hlegs]
        exact .asked htouches (List.mem_cons_self ..)
      · -- the reversed transaction is itself a movement of the run
        exact .reversed hplanned
    exact hblock.then (by simp [Write.moving]) ⟨rfl, rfl⟩
  | _ => simp [hi, Request.moves] at hmoves

/-- **Every committed state** of a run of money movements is settled. -/
theorem settled_of_reachable [DecidableEq ι] (h : Attached d₀)
    (hmoves : ∀ i, (requests i).moves = true) {s : Sys ι Database Write Resource Err Reply}
    (hr : Sys.Reachable Sys.all (serve requests d₀ clock) s) :
    Verified (settling requests d₀) (serve requests d₀ clock) ∧
      Settled requests d₀ s.shared.db := by
  have hinit : (serve requests d₀ clock).Initial := ⟨rfl, fun _ => rfl⟩
  have hv : Verified (settling requests d₀) (serve requests d₀ clock) :=
    .initial hinit fun i => wp_program (P := fun _ _ _ => True) (keeps_settled h (hmoves i))
  obtain ⟨-, hr⟩ := hv.reachable (RG.logging_sound _ _) hr
  exact ⟨hv, settled_of_rely h hr⟩

end requests

end Ledger
