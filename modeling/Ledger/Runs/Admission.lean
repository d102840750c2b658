import Ledger.Runs.Alone

/-! # When the Database Takes a Transaction

    The rows the engine sends are checked one by one: the numbers against
    their columns, the identifiers against those in use, the accounts against
    the accounts table.  Here the checks of all rows are read off the state
    before the first one.

    * **Legs**: `LegTaken`, one more leg after the legs before it.
    * **Calls**: `Taken`, and `admitted_calls`, a sequence of calls of the
      engine in one transaction is admitted iff it is taken.
-/

namespace Ledger

open ReadCommitted

/-- How many of the requested legs are on an account. -/
def legsOn (specs : List PostingSpec) (account : UUID) : Nat :=
  (specs.filter fun s => s.accountId = account).length

theorem legsOn_cons (spec : PostingSpec) (specs : List PostingSpec) (a : UUID) :
    legsOn (spec :: specs) a = (if spec.accountId = a then 1 else 0) + legsOn specs a := by
  by_cases h : spec.accountId = a
  · simp [legsOn, h]
    omega
  · simp [legsOn, h]

/-! ## Legs -/

/-- A requested leg and the identifier drawn for its posting. -/
structure DrawnLeg where
  id : UUID
  spec : PostingSpec

/-- The legs of a call, the first one drawn at a node. -/
def drawnLegs (env : Env) : Nat → List PostingSpec → List DrawnLeg
  | _, [] => []
  | node, spec :: specs =>
    ⟨BitVec.ofNat 128 (env.ident node), spec⟩ :: drawnLegs env (node + 4) specs

/-- The database takes one more leg after the legs `pre`. -/
structure LegTaken (d : Database) (tenantId : String) (pre : List DrawnLeg) (leg : DrawnLeg) :
    Prop where
  amount : Database.bigint leg.spec.amount = true
  account : (d.accounts.find? leg.spec.accountId).isSome = true
  /-- The identifier is new. -/
  fresh : d.postings.find? leg.id = none
  distinct : leg.id ∉ pre.map DrawnLeg.id
  /-- The snapshot, if one of the tenant is there, has room for the leg. -/
  room : ∀ b, d.balances.find? leg.spec.accountId = some b → b.tenantId = tenantId →
    Database.bigint (b.balance + specsOn (pre.map DrawnLeg.spec) leg.spec.accountId +
      leg.spec.amount) = true ∧
    Database.integer (b.version + legsOn (pre.map DrawnLeg.spec) leg.spec.accountId + 1) = true

/-- The database takes the legs one after another. -/
def LegsTaken (d : Database) (tenantId : String) (legs : List DrawnLeg) : Prop :=
  ∀ pre leg post, legs = pre ++ leg :: post → LegTaken d tenantId pre leg

/-- A written leg is the drawn one. -/
structure Leg.Writes (d : Database) (tenantId : String) (txn : UUID) (leg : DrawnLeg) (l : Leg) :
    Prop where
  id : l.posting.id = leg.id
  carries : Leg.Of txn leg.spec l
  folded : l.folded = Svc.matched d tenantId l.posting.accountId

section legs

variable {env : Env} {d d' : Database} {tenantId : String} {txn : UUID} {leg : DrawnLeg} {l : Leg}
  {legs : List DrawnLeg}

theorem LegsTaken.nil : LegsTaken d tenantId [] := by
  intro pre leg post h
  simp at h

/-- The legs are checked against three tables. -/
theorem LegsTaken.congr (haccounts : d'.accounts = d.accounts)
    (hpostings : d'.postings = d.postings)
    (hbalances : d'.balances = d.balances) :
    LegsTaken d' tenantId legs ↔ LegsTaken d tenantId legs := by
  have hleg : ∀ pre leg, LegTaken d' tenantId pre leg ↔ LegTaken d tenantId pre leg := by
    intro pre leg
    constructor
    · intro h
      exact ⟨h.amount, haccounts ▸ h.account, hpostings ▸ h.fresh, h.distinct, hbalances ▸ h.room⟩
    · intro h
      exact ⟨h.amount, haccounts ▸ h.account, hpostings ▸ h.fresh, h.distinct, hbalances ▸ h.room⟩
  simp only [LegsTaken, hleg]

theorem noNewSnapshot_leg (l : Leg) : NoNewSnapshot l.writes := by
  simpa using noNewSnapshot_legWrites [l]

/-- The snapshot of an account after one leg. -/
theorem balance_after_leg (hfolded : l.folded = Svc.matched d tenantId l.posting.accountId)
    (a : UUID) : (replay d l.writes).balances.find? a = (d.balances.find? a).map fun b =>
      if b.tenantId = tenantId ∧ l.posting.accountId = a then b.fold l.posting.amount l.posting.id
      else b := by
  rw [replay_balance _ _ (noNewSnapshot_leg l)]
  cases hb : d.balances.find? a with
  | none => rfl
  | some b =>
    simp only [Option.map_some, Option.some.injEq]
    by_cases ha : l.posting.accountId = a
    · have hm : l.folded = decide (b.tenantId = tenantId) := by
        rw [hfolded, ha]
        simp [Svc.matched, hb]
      by_cases ht : b.tenantId = tenantId
      · simp [Leg.writes, hm, ht, ha, bumpsOn]
      · simp [Leg.writes, hm, ht, bumpsOn]
    · cases hf : l.folded <;> simp [Leg.writes, hf, ha, bumpsOn]

/-- Once the first leg is written, a later one is checked as after it. -/
theorem legTaken_cons (h : Leg.Writes d tenantId txn leg l)
    (hfresh : d.postings.find? leg.id = none)
    {pre : List DrawnLeg} {s : DrawnLeg} :
    LegTaken (replay d l.writes) tenantId pre s ↔ LegTaken d tenantId (leg :: pre) s := by
  have haccounts : (replay d l.writes).accounts = d.accounts := by
    unfold Leg.writes
    split_ifs <;> rfl
  have hpostings : (replay d l.writes).postings = d.postings.insert l.posting := by
    unfold Leg.writes
    split_ifs <;> rfl
  -- the identifier of the first leg is one more to avoid
  have hids : (d.postings.insert l.posting).find? s.id = none ∧ s.id ∉ pre.map DrawnLeg.id ↔
      d.postings.find? s.id = none ∧ s.id ∉ (leg :: pre).map DrawnLeg.id := by
    rw [← h.id] at hfresh
    rw [List.map_cons, List.mem_cons, not_or, ← h.id]
    by_cases hk : l.posting.id = s.id
    · rw [← hk, show l.posting.id = Keyed.key l.posting from rfl, Table.find?_insert_self hfresh]
      simp
    · rw [Table.find?_insert_of_ne hk]
      simp [Ne.symm hk]
  -- the snapshot has grown by the first leg if it is on this account
  have hroom : (∀ b, (replay d l.writes).balances.find? s.spec.accountId = some b →
        b.tenantId = tenantId →
        Database.bigint (b.balance + specsOn (pre.map DrawnLeg.spec) s.spec.accountId +
          s.spec.amount) = true ∧
        Database.integer (b.version + legsOn (pre.map DrawnLeg.spec) s.spec.accountId + 1) = true) ↔
      (∀ b, d.balances.find? s.spec.accountId = some b → b.tenantId = tenantId →
        Database.bigint (b.balance + specsOn ((leg :: pre).map DrawnLeg.spec) s.spec.accountId +
          s.spec.amount) = true ∧
        Database.integer (b.version +
          legsOn ((leg :: pre).map DrawnLeg.spec) s.spec.accountId + 1) = true) := by
    rw [balance_after_leg h.folded, List.map_cons, specsOn_cons, legsOn_cons]
    cases d.balances.find? s.spec.accountId with
    | none => simp
    | some b =>
      simp only [Option.map_some, Option.some.injEq, forall_eq']
      by_cases ht : b.tenantId = tenantId
      · by_cases ha : leg.spec.accountId = s.spec.accountId
        · simp [ht, h.carries.account, ha, AccountBalance.fold, h.carries.amount, Int.add_assoc]
        · simp [ht, h.carries.account, ha]
      · simp [ht]
  constructor
  · intro hs
    obtain ⟨hnew, hdistinct⟩ := hids.mp ⟨hpostings ▸ hs.fresh, hs.distinct⟩
    exact ⟨hs.amount, haccounts ▸ hs.account, hnew, hdistinct, hroom.mp hs.room⟩
  · intro hs
    obtain ⟨hnew, hdistinct⟩ := hids.mpr ⟨hs.fresh, hs.distinct⟩
    exact ⟨hs.amount, haccounts ▸ hs.account, hpostings ▸ hnew, hdistinct, hroom.mpr hs.room⟩

/-- The database takes a leg iff it is `LegTaken` as the first one. -/
theorem admitted_leg (h : Leg.Writes d tenantId txn leg l)
    (htxn : (d.transactions.find? txn).isSome = true) :
    Admitted d l.writes ↔ LegTaken d tenantId [] leg := by
  have hinsert : d.constrain (.insPosting l.posting) = .ok () ↔
      Database.bigint leg.spec.amount = true ∧
        (d.accounts.find? leg.spec.accountId).isSome = true ∧ d.postings.find? leg.id = none := by
    simp [Database.constrain, Database.bind_eq_ok, h.carries.transaction, h.carries.account,
      h.carries.amount, h.id, htxn]
  have hbump : Database.bigint leg.spec.amount = true →
      (Admitted (d.apply (.insPosting l.posting)) (if l.folded = true
          then [.bump l.posting.accountId l.posting.amount l.posting.id] else []) ↔
        ∀ b, d.balances.find? leg.spec.accountId = some b → b.tenantId = tenantId →
          Database.bigint (b.balance + specsOn [] leg.spec.accountId + leg.spec.amount) = true ∧
            Database.integer (b.version + legsOn [] leg.spec.accountId + 1) = true) := by
    intro hamount
    rw [h.folded, Svc.matched, h.carries.account]
    have hbalances : (d.apply (.insPosting l.posting)).balances = d.balances := rfl
    cases hb : d.balances.find? leg.spec.accountId with
    | none => simp [admitted_nil]
    | some b =>
      by_cases ht : b.tenantId = tenantId
      · simp [ht, admitted_cons, admitted_nil, Database.dbms_admits, Database.constrain, hbalances,
          hb, h.carries.amount, hamount, specsOn, legsOn]
      · simp [ht, admitted_nil]
  rw [Leg.writes, admitted_cons, Database.dbms_admits, hinsert, Database.dbms_apply]
  constructor
  · rintro ⟨⟨hamount, haccount, hfresh⟩, hrest⟩
    exact ⟨hamount, haccount, hfresh, by simp, (hbump hamount).mp hrest⟩
  · intro hs
    exact ⟨⟨hs.amount, hs.account, hs.fresh⟩, (hbump hs.amount).mpr hs.room⟩

theorem legsTaken_cons : LegsTaken d tenantId (leg :: legs) ↔ LegTaken d tenantId [] leg ∧
    ∀ pre s post, legs = pre ++ s :: post → LegTaken d tenantId (leg :: pre) s := by
  constructor
  · intro h
    exact ⟨h [] leg legs rfl, fun pre s post heq => h (leg :: pre) s post (by rw [heq]; rfl)⟩
  · rintro ⟨hhead, htail⟩ pre s post heq
    cases pre with
    | nil =>
      simp only [List.nil_append, List.cons.injEq] at heq
      obtain ⟨rfl, -⟩ := heq
      exact hhead
    | cons x pre =>
      simp only [List.cons_append, List.cons.injEq] at heq
      obtain ⟨rfl, heq⟩ := heq
      exact htail pre s post heq

/-- Legs that are written, and legs that come after them. -/
theorem legsTaken_append {d₀ : Database} {node : Nat} {specs : List PostingSpec}
    (htxn : (d.transactions.find? txn).isSome = true)
    (hmatched : ∀ a, Svc.matched d₀ tenantId a = Svc.matched d tenantId a) :
    LegsTaken d tenantId (drawnLegs env node specs ++ legs) ↔
      Admitted d (legWrites (legsAt env tenantId d₀ txn node specs)) ∧
        LegsTaken (replay d (legWrites (legsAt env tenantId d₀ txn node specs))) tenantId legs := by
  induction specs generalizing node d with
  | nil => simp [drawnLegs, legsAt, admitted_nil]
  | cons spec specs ih =>
    rw [legsAt, legWrites_cons, admitted_append, replay_append, drawnLegs, List.cons_append,
      legsTaken_cons, and_assoc]
    generalize hl : ({ posting := _, folded := _ } : Leg) = l
    have hwrites : Leg.Writes d tenantId txn ⟨BitVec.ofNat 128 (env.ident node), spec⟩ l := by
      rw [← hl]
      exact ⟨rfl, ⟨rfl, rfl, rfl, rfl⟩, hmatched _⟩
    rw [admitted_leg hwrites htxn]
    refine and_congr_right fun hfirst => ?_
    simp only [← legTaken_cons hwrites hfirst.fresh]
    have htransactions : (replay d l.writes).transactions = d.transactions := by
      unfold Leg.writes
      split_ifs <;> rfl
    refine ih (by rw [htransactions]; exact htxn) fun a => ?_
    rw [hmatched a, matched_replay (noNewSnapshot_leg l)]

end legs

/-! ## Calls -/

/-- A call of the engine that has nothing to reverse. -/
structure Call where
  /-- The node it starts at. -/
  node : Nat
  /-- How many rows it finds pending. -/
  pending : Nat
  specs : List PostingSpec
  memo : String

namespace Call

variable (env : Env) (c : Call)

/-- The identifier drawn for the transaction. -/
def txn : UUID := BitVec.ofNat 128 (env.ident c.node)

/-- The identifier drawn for the event. -/
def event : UUID := BitVec.ofNat 128 (env.ident (c.node + (3 + c.pending) + 4 * c.specs.length))

/-- The legs. -/
def legs : List DrawnLeg := drawnLegs env (c.node + (3 + c.pending)) c.specs

/-- The row of the transaction. -/
def row (tenantId : String) : Transaction := txnAt env tenantId c.node c.memo none

/-- The postings; `d` says which snapshots match. -/
def written (tenantId : String) (d : Database) : List Leg :=
  legsAt env tenantId d (c.txn env) (c.node + (3 + c.pending)) c.specs

/-- The rows up to the return of the call. -/
def body (tenantId : String) (d : Database) : List Write :=
  .insTransaction (c.row env tenantId) :: legWrites (c.written env tenantId d)

variable [Runtime]

/-- The event, which is left pending. -/
def emitted (tenantId : String) : OutboxEvent :=
  eventAt env tenantId (c.node + (3 + c.pending) + 4 * c.specs.length) (c.row env tenantId) c.specs

/-- The rows, the event included. -/
def rows (tenantId : String) (d : Database) : List Write :=
  callRows env tenantId c.node c.pending d c.specs c.memo

/-- The session when it returns. -/
def after (tenantId : String) (d : Database) (o : OrmSession) : OrmSession :=
  afterPost tenantId (c.written env tenantId d) (c.emitted env tenantId) o

theorem rows_eq (tenantId : String) (d : Database) :
    c.rows env tenantId d = c.body env tenantId d ++ [.insOutbox (c.emitted env tenantId)] :=
  rfl

variable {env}

/-- What the engine sends when it is called alone. -/
theorem sends {tenantId : String} {d : Database} {p : Point} {pend : List Write}
    (hnode : p.node = c.node) (hpend : p.orm.pending = pend) (hcount : pend.length = c.pending)
    (hnew : NoNewSnapshot pend) (htwo : 2 ≤ c.specs.length)
    (hzero : (c.specs.map PostingSpec.amount).sum = 0)
    (hmatched : ∀ account, Svc.matched p.view tenantId account = Svc.matched d tenantId account) :
    Svc.Sends env (postTransaction tenantId c.specs c.memo) p (pend ++ c.body env tenantId d)
      (c.row env tenantId) (c.after env tenantId d p.orm)
      (5 + c.pending + 4 * c.specs.length) := by
  unfold after
  rw [← hcount]
  refine sends_postTransaction p htwo hzero hpend hnew hmatched ?_ ?_ ?_
  · rw [hnode]
    rfl
  · rw [hnode, hcount]
    rfl
  · rw [hnode, hcount]
    rfl

/-- The session stays in step with the rows it sends. -/
theorem inStep (env : Env) (tenantId : String) (d : Database) {d' : Database} {o : OrmSession}
    (h : o.InStep d')
    (hmatched : ∀ account, Svc.matched d tenantId account = Svc.matched d' tenantId account) :
    (c.after env tenantId d o).InStep (replay d' (c.body env tenantId d)) :=
  h.emit (c.row env tenantId)
    (fun l hl => (legsAt_folded _ _ _ _ l hl).trans (hmatched _)) _

omit [Runtime] in
theorem noNewSnapshot_body (tenantId : String) (d : Database) :
    NoNewSnapshot (c.body env tenantId d) := by
  intro r hr
  rcases List.mem_cons.mp hr with hr | hr
  · cases hr
  · exact noNewSnapshot_legWrites _ r hr

end Call

/-- The database takes the calls, one after another in one transaction: the
    identifiers drawn are new, the accounts exist, the numbers fit. -/
structure Taken (env : Env) (d : Database) (tenantId : String) (calls : List Call) : Prop where
  transactions : d.transactions.Unused (calls.map (Call.txn env))
  events : d.outbox.Unused (calls.map (Call.event env))
  legs : LegsTaken d tenantId (calls.flatMap (Call.legs env))

section calls

variable {env : Env} {d d₀ : Database} {tenantId : String}

theorem noNewSnapshot_emission (txn : Transaction) (legs : List Leg) (event : OutboxEvent) :
    NoNewSnapshot (emission txn legs event) := by
  intro r hr
  unfold emission at hr
  simp only [List.cons_append, List.mem_cons, List.mem_append, List.not_mem_nil, or_false,
    reduceCtorEq, false_or] at hr
  exact noNewSnapshot_legWrites _ r hr

theorem taken_iff {calls : List Call} : Taken env d tenantId calls ↔
    d.transactions.Unused (calls.map (Call.txn env)) ∧
      d.outbox.Unused (calls.map (Call.event env)) ∧
      LegsTaken d tenantId (calls.flatMap (Call.legs env)) := by
  constructor
  · intro h
    exact ⟨h.transactions, h.events, h.legs⟩
  · rintro ⟨htransactions, hevents, hlegs⟩
    exact ⟨htransactions, hevents, hlegs⟩

variable [Runtime]

/-- One call, and calls that come after it. -/
theorem taken_cons (c : Call) {calls : List Call}
    (hmatched : ∀ a, Svc.matched d₀ tenantId a = Svc.matched d tenantId a) :
    Taken env d tenantId (c :: calls) ↔ Admitted d (c.rows env tenantId d₀) ∧
      Taken env (replay d (c.rows env tenantId d₀)) tenantId calls := by
  let txn := c.row env tenantId
  let event := c.emitted env tenantId
  let ws := legWrites (c.written env tenantId d₀)
  let d₁ := d.apply (.insTransaction txn)
  have hrows : c.rows env tenantId d₀ = .insTransaction txn :: (ws ++ [.insOutbox event]) := rfl
  have htables : ∀ w ∈ ws, w.table = .postings ∨ w.table = .balances := fun w hw =>
    table_legWrites hw
  have htransactions : (replay d₁ ws).transactions = d.transactions.insert txn :=
    Database.replay_transactions fun w hw => by rcases htables w hw with h | h <;> simp [h]
  have houtbox : (replay d₁ ws).outbox = d.outbox :=
    Database.replay_outbox fun w hw => by rcases htables w hw with h | h <;> simp [h]
  -- each part of the condition is the admission of one row or of the legs
  have hinsert : d.constrain (.insTransaction txn) = .ok () ↔
      d.transactions.find? (Keyed.key txn) = none := by
    simp [Database.constrain, Database.bind_eq_ok, txn, Call.row, txnAt, Keyed.key]
  have hevent : d.transactions.find? (Keyed.key txn) = none →
      (Admitted (replay d₁ ws) [.insOutbox event] ↔ d.outbox.find? (Keyed.key event) = none) := by
    intro hfresh
    have hstored : ((replay d₁ ws).transactions.find? (Keyed.key txn)).isSome = true := by
      rw [htransactions, Table.find?_insert_self hfresh]
      rfl
    have hconstrain : (replay d₁ ws).constrain (.insOutbox event) = .ok () ↔
        d.outbox.find? (Keyed.key event) = none := by
      simp only [Database.constrain, Database.bind_eq_ok, Database.require_eq_ok, houtbox,
        Option.isNone_iff_eq_none]
      exact and_iff_right hstored
    rw [admitted_cons, Database.dbms_admits, hconstrain]
    exact and_iff_left (admitted_nil _)
  have hlegs : d.transactions.find? (Keyed.key txn) = none →
      (LegsTaken d tenantId ((c :: calls).flatMap (Call.legs env)) ↔
        Admitted d₁ ws ∧ LegsTaken (replay d₁ ws) tenantId (calls.flatMap (Call.legs env))) := by
    intro hfresh
    have hstored : (d₁.transactions.find? (Keyed.key txn)).isSome = true := by
      show ((d.transactions.insert txn).find? (Keyed.key txn)).isSome = true
      rw [Table.find?_insert_self hfresh]
      rfl
    have hcongr : LegsTaken d₁ tenantId ((c :: calls).flatMap (Call.legs env)) ↔
        LegsTaken d tenantId ((c :: calls).flatMap (Call.legs env)) :=
      LegsTaken.congr rfl rfl rfl
    rw [← hcongr, List.flatMap_cons]
    exact legsTaken_append hstored hmatched
  -- the later calls meet the tables with these rows in them
  have hrest : Taken env (replay (replay d₁ ws) [.insOutbox event]) tenantId calls ↔
      (d.transactions.insert txn).Unused (calls.map (Call.txn env)) ∧
        (d.outbox.insert event).Unused (calls.map (Call.event env)) ∧
        LegsTaken (replay d₁ ws) tenantId (calls.flatMap (Call.legs env)) := by
    have hcongr : LegsTaken (replay (replay d₁ ws) [.insOutbox event]) tenantId
        (calls.flatMap (Call.legs env)) ↔
          LegsTaken (replay d₁ ws) tenantId (calls.flatMap (Call.legs env)) :=
      LegsTaken.congr rfl rfl rfl
    rw [← htransactions, ← houtbox, ← hcongr]
    exact taken_iff
  have hwhole : Taken env d tenantId (c :: calls) ↔
      d.transactions.Unused (Keyed.key txn :: calls.map (Call.txn env)) ∧
        d.outbox.Unused (Keyed.key event :: calls.map (Call.event env)) ∧
        LegsTaken d tenantId ((c :: calls).flatMap (Call.legs env)) :=
    taken_iff
  rw [hwhole, Table.unused_cons, Table.unused_cons, hrows, admitted_cons, admitted_append,
    Database.dbms_admits, hinsert, Database.dbms_apply, replay_cons, Database.dbms_apply,
    replay_append, hrest]
  -- an identifier that is in use fails both sides at once
  by_cases hfresh : d.transactions.find? (Keyed.key txn) = none
  · rw [hlegs hfresh, hevent hfresh]
    tauto
  · exact iff_of_false (fun h => hfresh h.1.1) (fun h => hfresh h.1.1)

/-- **The database admits the rows** of a sequence of calls iff it takes them. -/
theorem admitted_calls {calls : List Call}
    (hmatched : ∀ a, Svc.matched d₀ tenantId a = Svc.matched d tenantId a) :
    Admitted d (calls.flatMap fun c => c.rows env tenantId d₀) ↔ Taken env d tenantId calls := by
  induction calls generalizing d with
  | nil => exact iff_of_true (admitted_nil d) ⟨Table.unused_nil _, Table.unused_nil _, .nil⟩
  | cons c calls ih =>
    rw [List.flatMap_cons, admitted_append, taken_cons c hmatched]
    refine and_congr_right fun _ => ih fun a => ?_
    rw [hmatched a]
    exact (matched_replay (noNewSnapshot_emission _ _ _) d tenantId a).symm

end calls

end Ledger
