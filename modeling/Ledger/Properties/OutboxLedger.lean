import Ledger.Properties.Representation
import Ledger.Services.Reads

/-! # The Outbox as a Ledger

    The event of a transaction is built from the requested legs, its postings
    one by one in a loop.  They tell the same.

    * **Payloads**: `OutboxEvent.decode`, what a consumer reads in an event.
    * **Invariant**: `Told`, the events are those of the transactions, one for
      one and in the same order.
    * **Steps**: a request is a sequence of calls of the engine, each with its
      event, of dispatches, and of writes that touch neither.
    * **Result**: `outbox_tells_ledger`.
-/

namespace Ledger

open ReadCommitted

/-! ## Payloads -/

/-- A posting as a payload tells it; the instant is the text that was written. -/
structure PayloadPosting where
  accountId : UUID
  amount : Int
  effectiveAt : String
  deriving DecidableEq

/-- What a payload tells about its transaction. -/
structure Payload where
  transactionId : UUID
  tenantId : String
  memo : String
  correctsId : Option UUID
  postings : List PayloadPosting
  deriving DecidableEq

/-- Read one posting of a payload. -/
def PayloadPosting.ofJson (j : Json) : Option PayloadPosting := do
  let accountId ← (← j.field? "account_id").toUuid?
  let amount ← (← j.field? "amount").toInt?
  let effectiveAt ← (← j.field? "effective_at").toStr?
  return { accountId, amount, effectiveAt }

/-- Read the list of postings. -/
def PayloadPosting.listOfJson : Json → Option (List PayloadPosting)
  | .arr js => js.mapM PayloadPosting.ofJson
  | _ => none

/-- Read a payload. -/
def Payload.ofJson (j : Json) : Option Payload := do
  let transactionId ← (← j.field? "transaction_id").toUuid?
  let tenantId ← (← j.field? "tenant_id").toStr?
  let memo ← (← j.field? "memo").toStr?
  let correctsId ← (← j.field? "corrects_id").toOpt? Json.toUuid?
  let postings ← PayloadPosting.listOfJson (← j.field? "postings")
  return { transactionId, tenantId, memo, correctsId, postings }

/-- What a consumer reads in an event. -/
def OutboxEvent.decode (e : OutboxEvent) : Option Payload :=
  (OutboxEventResponse.fromRow e).bind fun r => Payload.ofJson (.obj r.payload)

section payload

variable [Runtime] {d : Database} {tenantId memo : String} {specs : List PostingSpec}
  {c : Option UUID} {txn : Transaction} {legs : List Leg} {event : OutboxEvent}

/-- A stored posting, as a payload tells it. -/
def Posting.told (p : Posting) : PayloadPosting :=
  ⟨p.accountId, p.amount, Runtime.isoformat p.effectiveAt⟩

/-- A requested leg, as a payload tells it. -/
def PostingSpec.told (s : PostingSpec) : PayloadPosting :=
  ⟨s.accountId, s.amount, Runtime.isoformat s.effectiveAt⟩

/-- A stored transaction with its postings, as a payload tells it. -/
def Database.tell (d : Database) (t : Transaction) : Payload :=
  ⟨t.id, t.tenantId, t.memo, t.correctsId, (d.postingsOf t.id).map Posting.told⟩

theorem ofJson_postings (specs : List PostingSpec) :
    PayloadPosting.listOfJson (.arr (specs.map fun spec => .obj
      [("account_id", .uuid spec.accountId), ("amount", .int spec.amount),
       ("effective_at", .str (Runtime.isoformat spec.effectiveAt))])) =
      some (specs.map PostingSpec.told) := by
  unfold PayloadPosting.listOfJson
  induction specs with
  | nil => rfl
  | cons spec specs ih =>
    simp only [List.map_cons, List.mapM_cons] at ih ⊢
    rw [ih]
    simp [PayloadPosting.ofJson, Json.field?, Json.toUuid?_uuid, Json.toInt?, Json.toStr?,
      PostingSpec.told]

/-- The payload the engine builds is read back. -/
theorem ofJson_outboxPayload (tenantId : String) (txn : Transaction) (specs : List PostingSpec) :
    Payload.ofJson (outboxPayload tenantId txn specs) =
      some ⟨txn.id, tenantId, txn.memo, txn.correctsId, specs.map PostingSpec.told⟩ := by
  have hpostings := ofJson_postings specs
  have hcorrects := HoldResponse.toOpt?_opt_uuid txn.correctsId
  simp [Payload.ofJson, outboxPayload, Json.field?, hpostings, hcorrects, Json.toUuid?_uuid,
    Json.toStr?]

/-- The legs carry out what was requested, so they are told alike. -/
theorem told_carried {id : UUID} (h : List.Forall₂ (Leg.Of id) specs legs) :
    (legs.map Leg.posting).map Posting.told = specs.map PostingSpec.told := by
  induction h with
  | nil => rfl
  | cons hof _ ih =>
    simp only [List.map_cons, ih, Posting.told, PostingSpec.told, hof.account, hof.amount,
      hof.effective]

/-- The event of one call tells the transaction and its legs. -/
theorem Emitted.decode (h : Emitted d tenantId specs memo c txn legs event) :
    event.decode = some ⟨txn.id, txn.tenantId, txn.memo, txn.correctsId,
      (legs.map Leg.posting).map Posting.told⟩ := by
  have hread := ofJson_outboxPayload tenantId txn specs
  unfold OutboxEvent.decode OutboxEventResponse.fromRow
  rw [h.event_payload, Json.loads_dumps, told_carried h.block.carried, h.block.tenant]
  unfold outboxPayload at hread ⊢
  simpa using hread

end payload

/-! ## Invariant -/

section invariant

variable [Runtime] {d d' : Database}

/-- The event is the one of the transaction. -/
structure Tells (d : Database) (t : Transaction) (e : OutboxEvent) : Prop where
  transaction : e.transactionId = t.id
  tenant : e.tenantId = t.tenantId
  payload : e.decode = some (d.tell t)

/-- The events are those of the transactions, and the postings are theirs. -/
structure Told (d : Database) : Prop where
  attached : ∀ p ∈ d.postings.rows, ∃ t ∈ d.transactions.rows, t.id = p.transactionId
  events : List.Forall₂ (Tells d) d.transactions.rows d.outbox.rows

theorem Told.empty : Told .empty where
  attached p hp := by cases hp
  events := .nil

/-- What one step of a request does to transactions, postings and events. -/
inductive EventStep : Database → Database → Prop where
  /-- A write to another table. -/
  | quiet {d w} (htransactions : w.table ≠ .transactions) (hpostings : w.table ≠ .postings)
      (houtbox : w.table ≠ .outbox) : EventStep d (d.apply w)
  | published {d id time} : EventStep d (d.apply (.publish id time))
  | emitted {d tenantId specs memo c txn legs event}
      (hpost : Emitted d tenantId specs memo c txn legs event)
      (hadm : Admitted d (emission txn legs event)) :
      EventStep d (replay d (emission txn legs event))

/-- The rows after one call of the engine and its event. -/
theorem Emitted.rows {tenantId memo : String} {specs : List PostingSpec} {c : Option UUID}
    {txn : Transaction} {legs : List Leg} {event : OutboxEvent}
    (h : Emitted d tenantId specs memo c txn legs event)
    (hadm : Admitted d (emission txn legs event)) :
    (replay d (emission txn legs event)).transactions.rows = d.transactions.rows ++ [txn] ∧
    (replay d (emission txn legs event)).postings.rows =
      d.postings.rows ++ legs.map Leg.posting ∧
    (replay d (emission txn legs event)).outbox.rows = d.outbox.rows ++ [event] := by
  obtain ⟨-, htransactions, hpostings, -⟩ := h.block.rows
  unfold emission at hadm ⊢
  have houtbox : (replay d (.insTransaction txn :: legWrites legs)).outbox = d.outbox := by
    refine Database.replay_outbox fun w hw => ?_
    rcases List.mem_cons.mp hw with rfl | hw
    · simp [Write.table]
    · rcases table_legWrites hw with h | h <;> simp [h]
  have hfresh := Database.fresh_outbox hadm.right.head
  rw [replay_append]
  generalize replay d (.insTransaction txn :: legWrites legs) = d₁ at *
  refine ⟨htransactions, hpostings, ?_⟩
  rw [← houtbox]
  exact Table.insert_of_fresh (r := event) hfresh

omit [Runtime] in
/-- A dispatch does not touch the payload. -/
theorem decode_publish (e : OutboxEvent) (time : Time) : (e.publish time).decode = e.decode := by
  unfold OutboxEvent.decode OutboxEventResponse.fromRow OutboxEvent.publish
  cases hload : Json.loads e.payload with
  | none => rfl
  | some j => cases j <;> rfl

/-- **Step lemma.** -/
theorem Told.step (h : Told d) (hstep : EventStep d d') : Told d' := by
  cases hstep with
  | @quiet w htransactions hpostings houtbox =>
    have ht := Database.apply_transactions (d := d) htransactions
    have hp := Database.apply_postings (d := d) hpostings
    have ho := Database.apply_outbox (d := d) houtbox
    constructor
    · rw [ht, hp]
      exact h.attached
    · rw [ht, ho]
      refine h.events.imp fun t e he => ⟨he.transaction, he.tenant, ?_⟩
      rw [he.payload]
      unfold Database.tell Database.postingsOf
      rw [hp]
  | @published id time =>
    -- only the status and the time of the event change
    refine ⟨h.attached, ?_⟩
    show List.Forall₂ _ _ (d.outbox.rows.map _)
    rw [List.forall₂_map_right_iff]
    refine h.events.imp fun t e he => ?_
    split_ifs
    · exact ⟨he.transaction, he.tenant, (decode_publish e time).trans he.payload⟩
    · exact ⟨he.transaction, he.tenant, he.payload⟩
  | @emitted tenantId specs memo c txn legs event hpost hadm =>
    have hrows := hpost.rows hadm
    have hblock := hpost.block
    -- the event leaves the postings alone
    have hpostings : ∀ id, (replay d (emission txn legs event)).postingsOf id =
        (replay d (.insTransaction txn :: legWrites legs)).postingsOf id := by
      intro id
      unfold emission
      rw [replay_append]
      rfl
    constructor
    · intro p hp
      rw [hrows.2.1] at hp
      rw [hrows.1]
      have hattached := hblock.attached h.attached p
      rw [hblock.rows.2.2.1, hblock.rows.2.1] at hattached
      exact hattached hp
    · rw [hrows.1, hrows.2.2]
      refine List.rel_append ?_ (.cons ?_ .nil)
      · have hmem : List.Forall₂ (fun t e => t ∈ d.transactions.rows ∧ Tells d t e)
            d.transactions.rows d.outbox.rows :=
            (List.forall₂_and_left _ _).mpr ⟨fun t ht => ht, h.events⟩
        refine hmem.imp fun t e ⟨ht, he⟩ => ⟨he.transaction, he.tenant, ?_⟩
        rw [he.payload]
        unfold Database.tell
        rw [hpostings, hblock.postingsOf_old ht]
      · refine ⟨hpost.event_transaction, hpost.event_tenant.trans hblock.tenant.symm, ?_⟩
        rw [hpost.decode]
        unfold Database.tell
        rw [hpostings, hblock.postingsOf_new h.attached]

/-! ## Requests -/

/-- What the steps of a request get to. -/
abbrev EventSteps : Database → Database → Prop := Relation.ReflTransGen EventStep

theorem eventSteps_quiet {ws : List Write}
    (h : ∀ w ∈ ws, w.table ≠ .transactions ∧ w.table ≠ .postings ∧ w.table ≠ .outbox) :
    EventSteps d (replay d ws) := by
  induction ws generalizing d with
  | nil => exact .refl
  | cons w ws ih =>
    obtain ⟨ht, hp, ho⟩ := h w (by simp)
    exact .head (.quiet ht hp ho) (ih fun v hv => h v (by simp [hv]))

theorem eventSteps_publish {time : Time} (events : List OutboxEvent) :
    EventSteps d (replay d (events.map fun e => .publish e.id time)) := by
  induction events generalizing d with
  | nil => exact .refl
  | cons e events ih => exact .head .published ih

/-- Calls of the engine, then writes that leave the ledger and its events alone. -/
theorem EventSteps.then {ws vs : List Write} (h : EventSteps d (replay d ws))
    (hvs : ∀ w ∈ vs, w.table ≠ .transactions ∧ w.table ≠ .postings ∧ w.table ≠ .outbox) :
    EventSteps d (replay d (ws ++ vs)) := by
  rw [replay_append]
  exact Relation.ReflTransGen.trans h (eventSteps_quiet hvs)

/-- **Refinement**: every request is a sequence of these steps. -/
theorem Outcome.eventSteps {env : Env} {r : Request} {ws : List Write} (h : Outcome env d r ws)
    (hadm : Admitted d ws) : EventSteps d (replay d ws) := by
  cases h with
  | nothing => exact .refl
  | posted hpost => exact .single (.emitted hpost hadm)
  | transferred hunseen hsrc hdst hcur hfunded hnow hpost hrecord =>
    exact EventSteps.then (.single (.emitted hpost hadm.left)) (by simp [Write.table])
  | converted hconverts hnow hrate hconv hpos hdebit hcredit hrecord =>
    -- two transactions, each with its event, in one commit
    refine EventSteps.then ?_ (by simp [Write.table])
    rw [replay_append]
    exact .tail (.single (.emitted hdebit hadm.left.left)) (.emitted hcredit hadm.left.right)
  | captured hfound htenant hactive hsrc hdst hcur hamount hwithin hnow hpost =>
    exact EventSteps.then (.single (.emitted hpost hadm.left)) (by simp [Write.table])
  | reversed hunseen hfound htenant hplain hunreversed hnow hpost hrecord =>
    exact EventSteps.then (.single (.emitted hpost hadm.left)) (by simp [Write.table])
  | dispatched => exact eventSteps_publish _
  | opened | placed | released | rated | imported | swept =>
    exact eventSteps_quiet (by simp [Write.table])

/-- **Run lemma.** -/
theorem told_of_reached {ok : Database → Request → Prop} (h : Reached ok d) : Told d := by
  induction h with
  | empty => exact .empty
  | @step d r env _ _ ih =>
    obtain ⟨ws, hout, hadm, hafter⟩ := executed_outcome r env d
    rw [hafter]
    have hsteps := hout.eventSteps hadm
    generalize replay d ws = d' at hsteps
    induction hsteps with
    | refl => exact ih
    | tail _ hstep ih' => exact ih'.step hstep

/-! ## Result -/

/-- What the payload of an event adds to an account. -/
def OutboxEvent.adds (account : UUID) (e : OutboxEvent) : Int :=
  match e.decode with
  | some payload =>
    ((payload.postings.filter fun p => p.accountId = account).map PayloadPosting.amount).sum
  | none => 0

/-- The events alone tell the ledger. -/
structure Reconstructs (d : Database) : Prop where
  /-- Every transaction has exactly one event, -/
  event : ∀ t ∈ d.transactions.rows, ∃! e, e ∈ d.outbox.rows ∧ e.transactionId = t.id
  /-- and every event exactly one transaction, of the same tenant. -/
  transaction : ∀ e ∈ d.outbox.rows, ∃! t, t ∈ d.transactions.rows ∧ t.id = e.transactionId ∧
    t.tenantId = e.tenantId
  /-- Its payload is that transaction with all of its postings. -/
  payload : ∀ e ∈ d.outbox.rows, ∀ t ∈ d.transactions.rows, t.id = e.transactionId →
    e.decode = some (d.tell t)
  /-- The payloads add up to the postings of every account. -/
  sums : ∀ account, (d.outbox.rows.map (OutboxEvent.adds account)).sum = d.recompute account

theorem Told.ids (h : Told d) :
    d.outbox.rows.map OutboxEvent.transactionId = d.transactions.rows.map Transaction.id := by
  have hevents := h.events
  generalize d.transactions.rows = ts, d.outbox.rows = es at hevents
  induction hevents with
  | nil => rfl
  | cons he _ ih => rw [List.map_cons, List.map_cons, he.transaction, ih]

/-- An event and its transaction are found from one another. -/
theorem Told.exists_event (h : Told d) {t : Transaction} (ht : t ∈ d.transactions.rows) :
    ∃ e ∈ d.outbox.rows, Tells d t e := by
  have hevents := h.events
  generalize d.transactions.rows = ts, d.outbox.rows = es at hevents ht
  induction hevents with
  | nil => cases ht
  | cons he _ ih =>
    rcases List.mem_cons.mp ht with rfl | ht
    · exact ⟨_, by simp, he⟩
    · obtain ⟨e, hmem, he⟩ := ih ht
      exact ⟨e, by simp [hmem], he⟩

theorem Told.exists_transaction (h : Told d) {e : OutboxEvent} (he : e ∈ d.outbox.rows) :
    ∃ t ∈ d.transactions.rows, Tells d t e := by
  have hevents := h.events
  generalize d.transactions.rows = ts, d.outbox.rows = es at hevents he
  induction hevents with
  | nil => cases he
  | cons ht _ ih =>
    rcases List.mem_cons.mp he with rfl | he
    · exact ⟨_, by simp, ht⟩
    · obtain ⟨t, hmem, ht⟩ := ih he
      exact ⟨t, by simp [hmem], ht⟩

/-- An event adds what the postings of its transaction add. -/
theorem Tells.adds {t : Transaction} {e : OutboxEvent} (h : Tells d t e) (account : UUID) :
    e.adds account =
      (((d.postingsOf t.id).filter fun p => p.accountId = account).map Posting.amount).sum := by
  unfold OutboxEvent.adds
  rw [h.payload]
  unfold Database.tell
  simp only [List.filter_map, List.map_map]
  rfl

theorem Told.sums (h : Told d) (account : UUID) :
    (d.outbox.rows.map (OutboxEvent.adds account)).sum = d.recompute account := by
  -- the postings of the account, grouped by transaction
  have hgroup := Table.sum_by_key d.transactions
    (d.postings.rows.filter fun p => p.accountId = account) Posting.transactionId Posting.amount
    fun p hp => h.attached p (List.mem_filter.mp hp).1
  show _ = ((d.postings.rows.filter fun p => p.accountId = account).map Posting.amount).sum
  rw [hgroup]
  have hswap : ∀ id, (d.postingsOf id).filter (fun p => p.accountId = account) =
      (d.postings.rows.filter fun p => p.accountId = account).filter fun p =>
        p.transactionId = id := fun id => List.filter_comm _ _ _
  congr 1
  have hevents := h.events
  generalize d.transactions.rows = ts, d.outbox.rows = es at hevents
  induction hevents with
  | nil => rfl
  | cons he _ ih =>
    rw [List.map_cons, List.map_cons, he.adds, hswap, ih]
    rfl

theorem Told.reconstructs (h : Told d) : Reconstructs d where
  event t ht := by
    obtain ⟨e, he, htells⟩ := h.exists_event ht
    refine ⟨e, ⟨he, htells.transaction⟩, ?_⟩
    rintro e' ⟨he', hid⟩
    -- no two events are of one transaction
    have hnodup : (d.outbox.rows.map OutboxEvent.transactionId).Nodup := by
      rw [h.ids]
      exact d.transactions.nodup
    exact List.inj_on_of_nodup_map hnodup he' he (hid.trans htells.transaction.symm)
  transaction e he := by
    obtain ⟨t, ht, htells⟩ := h.exists_transaction he
    refine ⟨t, ⟨ht, htells.transaction.symm, htells.tenant.symm⟩, ?_⟩
    rintro t' ⟨ht', hid, -⟩
    exact Table.eq_of_key_eq _ ht' ht (hid.trans htells.transaction)
  payload e he t ht hid := by
    obtain ⟨t', ht', htells⟩ := h.exists_transaction he
    have hsame : t = t' := Table.eq_of_key_eq _ ht ht' (hid.trans htells.transaction)
    rw [hsame]
    exact htells.payload
  sums := h.sums

/-- Whoever can read `datetime.isoformat()` is told each posting of the
    transaction: its account, its amount and when it took effect. -/
theorem Reconstructs.postings (h : Reconstructs d) {fromisoformat : String → Option Time}
    (hreads : ∀ time, fromisoformat (Runtime.isoformat time) = some time) {e : OutboxEvent}
    {t : Transaction} (he : e ∈ d.outbox.rows) (ht : t ∈ d.transactions.rows)
    (hid : t.id = e.transactionId) : ∃ payload, e.decode = some payload ∧
      payload.postings.map (fun p => (p.accountId, p.amount, fromisoformat p.effectiveAt)) =
        (d.postingsOf t.id).map fun p => (p.accountId, p.amount, some p.effectiveAt) := by
  refine ⟨d.tell t, h.payload e he t ht hid, ?_⟩
  unfold Database.tell
  rw [List.map_map]
  exact List.map_congr_left fun p _ => by simp [Posting.told, hreads]

/-- **The outbox as a ledger**: in every reachable state the events alone
    reconstruct it, and no dispatch changes a payload. -/
theorem outbox_tells_ledger {ok : Database → Request → Prop} (h : Reached ok d) :
    Reconstructs d ∧ ∀ tenantId limit env,
      ((Request.dispatch tenantId limit).executed env d).2.outbox.rows.map
        (fun e => (e.id, e.payload)) = d.outbox.rows.map fun e => (e.id, e.payload) := by
  refine ⟨(told_of_reached h).reconstructs, fun tenantId limit env => ?_⟩
  obtain ⟨ws, hout, -, hafter⟩ := executed_outcome (.dispatch tenantId limit) env d
  rw [hafter]
  cases hout with
  | nothing => rfl
  | dispatched =>
    rename_i time
    refine replay_induction (P := fun d' => d'.outbox.rows.map (fun e => (e.id, e.payload)) =
      d.outbox.rows.map fun e => (e.id, e.payload)) d rfl fun d' w hw hd' => ?_
    obtain ⟨e, -, rfl⟩ := List.mem_map.mp hw
    rw [← hd']
    show ((d'.outbox.rows.map _).map _) = _
    rw [List.map_map]
    refine List.map_congr_left fun x _ => ?_
    simp only [Function.comp_apply]
    split_ifs <;> rfl

end invariant

open Sample

/-- A payment, a capture and a reversal, told by their events. -/
theorem outbox_tells_busy :
    (script busy .empty).outbox.rows.length = 4 ∧ Reconstructs (script busy .empty) := by
  have hreached : Reached (fun d r => r.Proper d) (script busy .empty) :=
    Reached.empty.script (by decide +kernel)
  exact ⟨by decide +kernel, (outbox_tells_ledger hreached).1⟩

end Ledger
