import Ledger.Runs.TransferAlone
import Ledger.Properties.Undo

/-! # How a Transfer Fails

    The route of a transfer answers three errors.  Those of the rate, of the
    conversion accounts, of the decimal context and of the database are not
    among them.

    * **Records**: a key that was seen before is answered or refused.
    * **Failures**: `transfer_fails_cleanly_iff`, exactly the requests that
      fail by one of the three or succeed.
-/

namespace Ledger

open ReadCommitted

/-! ## Records -/

section records

variable [Runtime] {env : Env} {d : Database} {tenantId key : String} {req : TransferRequest}

/-- The records of transfers hold responses of transfers. -/
def TransfersStored (d : Database) : Prop :=
  ∀ r ∈ d.records.rows, r.id.endpoint = ENDPOINT →
    ∃ response : TransferResponse, r.responseJson = response.modelDump.dumps .spaced

omit [Runtime] in
/-- A record is one that was there, or one that was written. -/
theorem mem_records_replay {ws : List Write} {r : IdempotencyRecord}
    (hr : r ∈ (replay d ws).records.rows) : r ∈ d.records.rows ∨ .insRecord r ∈ ws := by
  refine replay_induction
    (P := fun d' => r ∈ d'.records.rows → r ∈ d.records.rows ∨ .insRecord r ∈ ws)
    d .inl (fun d' w hw ih hmem => ?_) hr
  cases w with
  | insRecord s =>
    rcases Table.mem_insert.mp hmem with hmem | ⟨rfl, -⟩
    · exact ih hmem
    · exact .inr hw
  | deleteRecords ks => exact ih (Table.mem_erase.mp hmem).1
  | _ => exact ih hmem

/-- What an executed transfer adds to the records. -/
theorem transfer_records (env : Env) (d : Database) (tenantId key : String)
    (req : TransferRequest) :
    ((Request.transfer tenantId req key).executed env d).2 = d ∨
      ∃ (response : TransferResponse) (stored : IdempotencyRecord),
        stored.responseJson = response.modelDump.dumps .spaced ∧
        ((Request.transfer tenantId req key).executed env d).2.records =
          d.records.insert stored := by
  refine executed_of_swp (.transfer tenantId req key) env d
    (P := fun _ d' => d' = d ∨ ∃ (response : TransferResponse) (stored : IdempotencyRecord),
      stored.responseJson = response.modelDump.dumps .spaced ∧
        d'.records = d.records.insert stored) fun g hg _ => ?_
  subst hg
  rw [Request.service, swp_map]
  have hraise : MayRaise (alone env) (fun _ g' _ => g'.db = g.db ∨
      ∃ (response : TransferResponse) (stored : IdempotencyRecord),
        stored.responseJson = response.modelDump.dumps .spaced ∧
          g'.db.records = g.db.records.insert stored) g {} :=
    fun _ _ _ _ hp => .inl hp.rely.1
  refine swp_executeTransfer hraise (fun _ _ _ _ _ hp _ _ _ => .inl hp.rely.1)
    fun run _ => ⟨trivial, .inr ⟨run.response, run.stored, rfl, ?_⟩⟩
  have hgC : run.g.db = g.db := run.whole.rely.1
  obtain ⟨-, htables⟩ := run.moved.tables
  have hrecords : (replay g.db run.ws).records = g.db.records :=
    Database.replay_records fun w hw => by rcases htables w hw with h | h | h | h <;> simp [h]
  show (replay run.g.db run.tx.log).records = _
  rw [hgC, run.log, replay_append]
  show ((replay g.db run.ws).records.insert run.stored) = _
  rw [hrecords]

/-- A request stores the response of a transfer, or a record of another endpoint. -/
theorem TransfersStored.executed (h : TransfersStored d) (r : Request) (env : Env) :
    TransfersStored (r.executed env d).2 := by
  intro rec hrec hendpoint
  obtain ⟨ws, hout, -, hafter⟩ := executed_outcome r env d
  by_cases htransfer : ∃ tenantId req key, r = .transfer tenantId req key
  · obtain ⟨tenantId, req, key, rfl⟩ := htransfer
    rcases transfer_records env d tenantId key req with hsame | ⟨response, stored, hjson, hinsert⟩
    · rw [hsame] at hrec
      exact h rec hrec hendpoint
    · rw [hinsert] at hrec
      rcases Table.mem_insert.mp hrec with hrec | ⟨rfl, -⟩
      · exact h rec hrec hendpoint
      · exact ⟨response, hjson⟩
  · -- the records of other requests are under other endpoints
    rw [hafter] at hrec
    rcases mem_records_replay hrec with hrec | hw
    · exact h rec hrec hendpoint
    · exfalso
      have hemission : ∀ (txn : Transaction) (legs : List Leg) (event : OutboxEvent),
          .insRecord rec ∉ emission txn legs event := by
        intro txn legs event hmem
        rcases table_emission hmem with h | h | h | h <;> cases h
      cases hout with
      | transferred => exact htransfer ⟨_, _, _, rfl⟩
      | converted => exact htransfer ⟨_, _, _, rfl⟩
      | placed _ _ _ _ _ _ _ _ hid =>
        simp only [List.mem_cons, reduceCtorEq, Write.insRecord.injEq, List.not_mem_nil, or_false,
          false_or] at hw
        rw [hw, hid] at hendpoint
        exact absurd hendpoint (by simp [PLACE_ENDPOINT, ENDPOINT])
      | reversed _ _ _ _ _ _ _ hid =>
        rcases List.mem_append.mp hw with hw | hw
        · exact hemission _ _ _ hw
        · simp only [List.mem_singleton, Write.insRecord.injEq] at hw
          rw [hw, hid] at hendpoint
          exact absurd hendpoint (by simp [REVERSE_ENDPOINT, ENDPOINT])
      | posted => exact hemission _ _ _ hw
      | captured =>
        simp only [List.mem_append, List.mem_singleton, reduceCtorEq, or_false] at hw
        exact hemission _ _ _ hw
      | nothing | opened | released | rated | dispatched | imported | swept => simp at hw

theorem Attained.transfersStored (h : Attained d) : TransfersStored d := by
  induction h with
  | empty => intro r hr; cases hr
  | alone r env _ _ ih => exact ih.executed r env
  | beside _ _ hr ih =>
    refine made_invariant ih (fun d ws hmade hd rec hrec hendpoint => ?_) hr
    rcases mem_records_replay hrec with hrec | hw
    · exact hd rec hrec hendpoint
    · obtain ⟨r, reply, hstores⟩ := hmade _ hw
      cases hstores with
      | transfer t req key response time => exact ⟨response, rfl⟩
      | placeHold => exact absurd hendpoint (by simp [PLACE_ENDPOINT, ENDPOINT])
      | reverse => exact absurd hendpoint (by simp [REVERSE_ENDPOINT, ENDPOINT])

omit [Runtime] in
theorem transfer_service [Runtime] : (Request.transfer tenantId req key).service =
    executeTransfer tenantId req key >>= fun r => pure (Reply.transfer r.1 r.2) := rfl

theorem transfer_fails {e : Err}
    (h : Svc.Fails env (executeTransfer tenantId req key) { db := d } e) :
    (Request.transfer tenantId req key).executed env d = (.error e, d) := by
  apply executed_fails
  rw [transfer_service]
  exact Svc.Fails.bind h _

theorem transfer_returns {a : Nat × TransferResponse} {q : Point}
    (h : Svc.Returns env (executeTransfer tenantId req key) { db := d } a q) :
    (Request.transfer tenantId req key).executed env d = (.ok (.transfer a.1 a.2), q.db) := by
  have hret : Svc.Returns env (Request.transfer tenantId req key).service { db := d }
      (.transfer a.1 a.2) q := by
    rw [transfer_service]
    exact Svc.Returns.bind h (Svc.returns_pure _ _)
  exact executed_returns hret

/-- A transfer whose key was seen is answered from the record, or in conflict with it. -/
theorem seen_executed (hstored : TransfersStored d) {r : IdempotencyRecord}
    (hfound : d.records.find? ⟨tenantId, ENDPOINT, key⟩ = some r) :
    (∃ reply, (Request.transfer tenantId req key).executed env d = (.ok reply, d)) ∨
      ∃ msg, (Request.transfer tenantId req key).executed env d =
        (.error (.idempotencyConflict msg), d) := by
  have hview : ({ db := d } : Point).view.records.find? ⟨tenantId, ENDPOINT, key⟩ = some r := by
    rw [Point.view_start]
    exact hfound
  have hendpoint : r.id.endpoint = ENDPOINT := by
    have hkey : r.id = ⟨tenantId, ENDPOINT, key⟩ := Table.key_of_find? hfound
    rw [hkey]
  obtain ⟨response, hjson⟩ := hstored r (Table.mem_of_find? hfound) hendpoint
  by_cases hprint : r.requestFingerprint ≠ fingerprint req.modelDump
  · have hreplay : replayOf key req.modelDump r = .error (.idempotencyConflict
        s!"key {Runtime.repr key} reused with a different body") := by
      unfold replayOf
      rw [if_pos hprint]
    have hfails : Svc.Fails env (executeTransfer tenantId req key) { db := d } _ :=
      (fails_lookup hview hreplay).bind _
    exact .inr ⟨_, transfer_fails hfails⟩
  · have hreplay : replayOf key req.modelDump r = .ok ⟨r.statusCode, response.modelDump⟩ := by
      unfold replayOf
      rw [if_neg hprint, hjson, Json.loads_dumps]
    have hvalid : Svc.Returns env (replayed TransferResponse.modelValidate
        ⟨r.statusCode, response.modelDump⟩) (({ db := d } : Point).read env)
        (r.statusCode, response) (({ db := d } : Point).read env) := by
      unfold replayed
      simp only [TransferResponse.modelValidate_modelDump]
      exact Svc.returns_pure _ _
    have hret : Svc.Returns env (executeTransfer tenantId req key) { db := d } _ _ :=
      (returns_lookup_found hview hreplay).bind hvalid
    exact .inl ⟨_, transfer_returns hret⟩

end records

/-! ## Failures -/

/-- No rate is effective in either direction, or one side has no single open
    conversion account. -/
inductive Unroutable (d : Database) (tenantId : String) (src dst : Account) (asOf : Time) :
    Prop where
  | noRate (hdirect : d.latest src.currency dst.currency asOf = none)
      (hinverse : d.latest dst.currency src.currency asOf = none)
  | noSource (h : ∀ a, d.openAt tenantId (conversionPath src.currency) ≠ [a])
  | noDestination (h : ∀ a, d.openAt tenantId (conversionPath dst.currency) ≠ [a])

/-- The transfer succeeds, or raises an error its route answers and leaves the
    database as it was; a request across currencies that passes the checks is
    a mismatch exactly if it cannot be routed. -/
structure FailsCleanly [Runtime] (env : Env) (d : Database) (tenantId : String)
    (req : TransferRequest) (key : String) : Prop where
  answered : ∀ e d', (Request.transfer tenantId req key).executed env d = (.error e, d') →
    e.answered = true ∧ d' = d
  mismatch : ∀ src dst, Passes env d tenantId req key src dst → src.currency ≠ dst.currency →
    ((∃ msg, ((Request.transfer tenantId req key).executed env d).1 =
      .error (.currencyMismatch msg)) ↔
        Unroutable d tenantId src dst (effectiveTime env req))

section failures

variable [Runtime] {env : Env} {d : Database} {tenantId key : String} {req : TransferRequest}
  {src dst : Account}

omit [Runtime] in
theorem Database.HasAccount.unique {id : UUID} {a b : Account} (ha : d.HasAccount tenantId id a)
    (hb : d.HasAccount tenantId id b) : a = b := by
  have h := ha.1
  rw [hb.1] at h
  cases h
  rfl

omit [Runtime] in
theorem Passes.unique {src' dst' : Account} (h : Passes env d tenantId req key src dst)
    (h' : Passes env d tenantId req key src' dst') : src = src' ∧ dst = dst' :=
  ⟨h.source.unique h'.source, h.destination.unique h'.destination⟩

omit [Runtime] in
/-- There is one way to route a movement. -/
theorem Routes.unique {asOf : Time} {node : Nat} {calls calls' : List Call}
    (h : Routes d tenantId src dst req asOf node calls)
    (h' : Routes d tenantId src dst req asOf node calls') : calls = calls' := by
  cases h with
  | direct hcur =>
    cases h' with
    | direct => rfl
    | converted hcur' => exact absurd hcur hcur'
  | converted hcur hrate hconv hsrc hdst =>
    cases h' with
    | direct hcur' => exact absurd hcur' hcur
    | converted _ hrate' hconv' hsrc' hdst' =>
      rw [hrate] at hrate'
      cases hrate'
      rw [hconv] at hconv'
      cases hconv'
      rw [hsrc] at hsrc'
      cases hsrc'
      rw [hdst] at hdst'
      cases hdst'
      rfl

omit [Runtime] in
/-- What is routed across currencies is not unroutable. -/
theorem Routes.not_unroutable {asOf : Time} {node : Nat} {calls : List Call}
    (h : Routes d tenantId src dst req asOf node calls) (hcur : src.currency ≠ dst.currency) :
    ¬ Unroutable d tenantId src dst asOf := by
  cases h with
  | direct hcur' => exact absurd hcur' hcur
  | converted _ hrate _ hsrc hdst =>
    intro hun
    cases hun with
    | noRate hdirect hinverse =>
      unfold Database.resolve at hrate
      rw [if_neg hcur, hdirect, hinverse] at hrate
      cases hrate
    | noSource h => exact h _ hsrc
    | noDestination h => exact h _ hdst

omit [Runtime] in
/-- An answer of the database is none of the errors the route knows. -/
theorem Err.not_answered {e : Err} (h : e.rejection = true) : e.answered = false := by
  cases e <;> first | rfl | cases h

/-- **A request that passes the checks** and can be routed is executed if the
    database takes its calls, and otherwise raises what the database answers. -/
theorem Passes.executed (hbooks : Books d) (h : Passes env d tenantId req key src dst)
    {calls : List Call} (hroutes : Routes d tenantId src dst req (effectiveTime env req)
      (movementNode req) calls) :
    (Taken env d tenantId calls → ∃ reply d',
      (Request.transfer tenantId req key).executed env d = (.ok reply, d')) ∧
    (¬ Taken env d tenantId calls → ∃ e, e.rejection = true ∧
      (Request.transfer tenantId req key).executed env d = (.error e, d)) := by
  obtain ⟨q, hq, hleads⟩ : ∃ q, Point.Stays { db := d } q _ ∧ Svc.Leads env _ _ _ q := h.leads
  have hview : q.view = d := by rw [hq.view, Point.view_start]
  have hnode : q.node = movementNode req := by simpa using hq.node
  have hstep : q.orm.InStep q.view := by
    rw [hview]
    have hfresh := hq.inStep (inStep_fresh _)
    rwa [Point.view_start] at hfresh
  rw [← hview, ← hnode] at hroutes
  obtain ⟨ws, event, o, hsends⟩ : ∃ ws event o,
      MoveSends env tenantId src dst req _ q _ ws event o :=
    hroutes.sends hq.pending hstep
  have hsrc : Svc.matched q.view tenantId req.sourceAccountId = true := by
    rw [hview]
    exact hbooks.matched ⟨src, h.source.1, h.source.2.1⟩
  have hdst : Svc.matched q.view tenantId req.destinationAccountId = true := by
    rw [hview]
    exact hbooks.matched ⟨dst, h.destination.1, h.destination.2.1⟩
  have hunseen : q.view.records.find? ⟨tenantId, ENDPOINT, key⟩ = none := by
    rw [hview]
    exact h.unseen
  obtain ⟨hsettles, hrejects⟩ := hsends.settles hsrc hdst hunseen
  have htaken : Admitted q.view (ws ++ [.insOutbox event]) ↔ Taken env d tenantId calls := by
    rw [← hsends.rows, hview]
    exact admitted_calls fun _ => rfl
  rw [htaken] at hsettles hrejects
  constructor
  · intro h
    obtain ⟨a, r, hret⟩ := hsettles h
    exact ⟨_, _, transfer_returns (hleads.returns hret)⟩
  · intro h
    obtain ⟨e, he, hfails⟩ := hrejects h
    exact ⟨e, he, transfer_fails (hleads.fails hq.db hfails)⟩

/-- A request that passes the checks and cannot be routed escapes its route. -/
theorem Passes.unrouted (h : Passes env d tenantId req key src dst)
    (hnone : ∀ calls, ¬ Routes d tenantId src dst req (effectiveTime env req) (movementNode req)
      calls) :
    ∃ e, e.answered = false ∧
      (Request.transfer tenantId req key).executed env d = (.error e, d) := by
  obtain ⟨q, hq, hleads⟩ : ∃ q, Point.Stays { db := d } q _ ∧ Svc.Leads env _ _ _ q := h.leads
  have hview : q.view = d := by rw [hq.view, Point.view_start]
  have hnode : q.node = movementNode req := by simpa using hq.node
  obtain ⟨e, he, hfails⟩ : ∃ e, e.answered = false ∧ Svc.Fails env
      (moveFunds tenantId src dst req (effectiveTime env req)) q e :=
    fails_moveFunds (by rw [hview, hnode]; exact hnone)
  exact ⟨e, he, transfer_fails (hleads.fails hq.db (hfails.bind _))⟩

/-- **A transfer fails cleanly** exactly if it does not pass the checks, or can
    be routed by calls the database takes. -/
theorem transfer_fails_cleanly_iff (hreached : Attained d) :
    FailsCleanly env d tenantId req key ↔ ∀ src dst, Passes env d tenantId req key src dst →
      ∃ calls, Routes d tenantId src dst req (effectiveTime env req) (movementNode req) calls ∧
        Taken env d tenantId calls := by
  have hbooks := hreached.books
  cases hfound : d.records.find? ⟨tenantId, ENDPOINT, key⟩ with
  | some r =>
    -- the key was seen before
    have hunpassed : ∀ src dst, ¬ Passes env d tenantId req key src dst := by
      intro src dst h
      have hunseen := h.unseen
      rw [hfound] at hunseen
      cases hunseen
    refine iff_of_true ⟨fun e d' hexec => ?_, fun src dst h => absurd h (hunpassed src dst)⟩
      fun src dst h => absurd h (hunpassed src dst)
    have hanswered : (∃ reply, (Request.transfer tenantId req key).executed env d =
        (.ok reply, d)) ∨ _ :=
      seen_executed hreached.transfersStored hfound
    rcases hanswered with ⟨reply, hseen⟩ | ⟨msg, hseen⟩
    · rw [hseen] at hexec
      cases hexec
    · rw [hseen] at hexec
      cases hexec
      exact ⟨rfl, rfl⟩
  | none =>
    by_cases hpass : ∃ src dst, Passes env d tenantId req key src dst
    swap
    · have hunpassed : ∀ src dst, ¬ Passes env d tenantId req key src dst :=
        fun src dst h => hpass ⟨src, dst, h⟩
      refine iff_of_true ⟨fun e d' hexec => ?_, fun src dst h => absurd h (hunpassed src dst)⟩
        fun src dst h => absurd h (hunpassed src dst)
      -- refused by one of the checks
      obtain ⟨msg, hfails⟩ := fails_unpassed hfound hunpassed
      rw [transfer_fails hfails] at hexec
      cases hexec
      exact ⟨rfl, rfl⟩
    obtain ⟨src, dst, hpass⟩ := hpass
    by_cases hroutes : ∃ calls, Routes d tenantId src dst req (effectiveTime env req)
      (movementNode req) calls
    swap
    · -- one of the other errors is raised
      obtain ⟨e, he, hexec⟩ := hpass.unrouted fun calls h => hroutes ⟨calls, h⟩
      refine iff_of_false (fun hclean => ?_) fun h => ?_
      · have := (hclean.answered e d hexec).1
        rw [he] at this
        cases this
      · obtain ⟨calls, hcalls, -⟩ := h src dst hpass
        exact hroutes ⟨calls, hcalls⟩
    obtain ⟨calls, hroutes⟩ := hroutes
    obtain ⟨hsucceeds, hrejected⟩ := hpass.executed hbooks hroutes
    by_cases htaken : Taken env d tenantId calls
    · -- executed: there is no error to judge
      obtain ⟨reply, d₁, hexec⟩ := hsucceeds htaken
      refine iff_of_true ⟨fun e d' herror => ?_, fun src' dst' h hcur => ?_⟩ fun src' dst' h => ?_
      · rw [hexec] at herror
        cases herror
      · obtain ⟨rfl, rfl⟩ := hpass.unique h
        refine iff_of_false (fun h => ?_) (hroutes.not_unroutable hcur)
        obtain ⟨msg, hmsg⟩ := h
        rw [hexec] at hmsg
        cases hmsg
      · obtain ⟨rfl, rfl⟩ := hpass.unique h
        exact ⟨calls, hroutes, htaken⟩
    · -- the database rejects a row of it
      obtain ⟨e, he, hexec⟩ := hrejected htaken
      refine iff_of_false (fun hclean => ?_) fun h => ?_
      · have := (hclean.answered e d hexec).1
        rw [Err.not_answered he] at this
        cases this
      · obtain ⟨calls', hcalls', htaken'⟩ := h src dst hpass
        exact htaken (hroutes.unique hcalls' ▸ htaken')

end failures

section failureRuns

open Sample

/-- A payment by Alice to Carol. -/
def toCarol : TransferRequest := ⟨alice, carol, 100, "", none, hundred_pos⟩

/-- Alice's payment passes the checks. -/
theorem passes_toCarol : ∃ src dst, Passes (envAt 0 2000) exchange "acme" toCarol "t1" src dst ∧
    src.currency = .USD ∧ dst.currency = .EUR := by
  have haccount : ∀ {id : UUID} {c : Currency}, (exchange.accounts.find? id).any
      (fun a => a.tenantId = "acme" && a.isOpen && a.currency = c) = true →
      ∃ a, exchange.HasAccount "acme" id a ∧ a.currency = c := by
    intro id c h
    cases hfind : exchange.accounts.find? id with
    | none => simp [hfind] at h
    | some a =>
      simp only [hfind, Option.any_some, Bool.and_eq_true, decide_eq_true_eq] at h
      exact ⟨a, ⟨hfind, h.1.1, h.1.2⟩, h.2⟩
  have halice : (exchange.accounts.find? alice).any
      (fun a => a.tenantId = "acme" && a.isOpen && a.currency = .USD) = true := by decide +kernel
  have hcarol : (exchange.accounts.find? carol).any
      (fun a => a.tenantId = "acme" && a.isOpen && a.currency = .EUR) = true := by decide +kernel
  have hfunds : exchange.availableBalance "acme" alice 0 = some ⟨200, 0⟩ := by decide +kernel
  have hrecords : exchange.records.rows = [] := by decide +kernel
  obtain ⟨src, hsrc, hdollars⟩ := haccount halice
  obtain ⟨dst, hdst, heuros⟩ := haccount hcarol
  refine ⟨src, dst, ⟨?_, hsrc, hdst, _, hfunds, by decide⟩, hdollars, heuros⟩
  rw [Table.find?, hrecords]
  rfl

/-- With a rate and both conversion accounts it is routed by two calls, and the
    database takes them. -/
theorem transfer_fails_cleanly_exchange : ∃ src dst calls,
    Passes (envAt 0 2000) exchange "acme" toCarol "t1" src dst ∧ calls.length = 2 ∧
      Taken (envAt 0 2000) exchange "acme" calls := by
  have hreached : Reached (fun d r => r.Proper d) exchange :=
    Reached.empty.script (by decide +kernel)
  have hok : ((Request.transfer "acme" toCarol "t1").executed (envAt 0 2000) exchange).1.isOk =
      true := by
    decide +kernel
  obtain ⟨src, dst, hpass, hdollars, heuros⟩ := passes_toCarol
  have hclean : FailsCleanly (envAt 0 2000) exchange "acme" toCarol "t1" := by
    obtain ⟨reply, hexec⟩ := executed_ok hok
    have hrate : (exchange.latest .USD .EUR 0).isSome = true := by decide +kernel
    have hopen : ∀ c ∈ [Currency.USD, Currency.EUR],
        (exchange.openAt "acme" (conversionPath c)).length = 1 := by decide +kernel
    refine ⟨fun e d' herror => ?_, fun src' dst' h _ => iff_of_false (fun hraised => ?_) ?_⟩
    · rw [hexec] at herror
      cases herror
    · obtain ⟨msg, hmsg⟩ := hraised
      rw [hexec] at hmsg
      cases hmsg
    · obtain ⟨rfl, rfl⟩ := hpass.unique h
      intro hun
      cases hun with
      | noRate hdirect =>
        rw [hdollars, heuros] at hdirect
        rw [show effectiveTime (envAt 0 2000) toCarol = 0 from rfl] at hdirect
        rw [hdirect] at hrate
        cases hrate
      | noSource hnone =>
        obtain ⟨a, ha⟩ := List.length_eq_one_iff.mp (hopen .USD (by simp))
        rw [hdollars] at hnone
        exact hnone a ha
      | noDestination hnone =>
        obtain ⟨a, ha⟩ := List.length_eq_one_iff.mp (hopen .EUR (by simp))
        rw [heuros] at hnone
        exact hnone a ha
  obtain ⟨calls, hroutes, htaken⟩ :=
    (transfer_fails_cleanly_iff hreached.attained).mp hclean src dst hpass
  refine ⟨src, dst, calls, hpass, ?_, htaken⟩
  cases hroutes with
  | direct hcur =>
    rw [hdollars, heuros] at hcur
    cases hcur
  | converted => rfl

/-- The same accounts with no rate published. -/
def unquoted : Database :=
  script (setup ++ [(opening "platform.fx.conversion.eur" "conversion eur" .EUR, envAt 0 400),
    (opening "users.carol" "carol" .EUR, envAt 0 500)]) .empty

/-- Alice's payment raises an error its route does not answer. -/
theorem transfer_escapes_unquoted : Reached (fun d r => r.Proper d) unquoted ∧
    ((Request.transfer "acme" toCarol "t1").executed (envAt 0 2000) unquoted).1 =
      .error (.rateUnavailable "no effective rate for USD->EUR at 1970-01-01T00:00:00") ∧
    ¬ FailsCleanly (envAt 0 2000) unquoted "acme" toCarol "t1" := by
  have hraised : ((Request.transfer "acme" toCarol "t1").executed (envAt 0 2000) unquoted).1 =
      .error (.rateUnavailable "no effective rate for USD->EUR at 1970-01-01T00:00:00") := by
    decide +kernel
  refine ⟨Reached.empty.script (by decide +kernel), hraised, fun hclean => ?_⟩
  obtain ⟨hanswered, -⟩ := hclean.answered _ _ (executed_eq hraised)
  cases hanswered

end failureRuns

end Ledger
