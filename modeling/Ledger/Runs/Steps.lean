import Ledger.Runs.Outcomes
import Mathlib.Logic.Relation

/-! # A Request as Steps of the Books

    Of all a request writes, the accounts, their snapshots, the transactions
    and their postings change in two ways only: an account is opened with its
    snapshot, or one transaction is posted.

    * **Posts**: which legs a request may ask the engine to post.
    * **LedgerStep**: one change of the database, seen at this level.
    * **Refinement**: `executed_steps`, every request run alone is a sequence
      of such steps.
-/

namespace Ledger

open ReadCommitted

/-- The write leaves the accounts, snapshots, transactions and postings alone. -/
def Write.plain (w : Write) : Prop :=
  w.table ≠ .accounts ∧ w.table ≠ .balances ∧ w.table ≠ .transactions ∧ w.table ≠ .postings

theorem plain_insOutbox (event : OutboxEvent) : (Write.insOutbox event).plain := by
  simp [Write.plain, Write.table]

/-- The legs a request may have posted in the state it finds, and the
    transaction they correct. -/
inductive Posts [Runtime] (d : Database) :
    Request → String → List PostingSpec → Option UUID → Prop where
  | post {tenantId specs memo} : Posts d (.post tenantId specs memo) tenantId specs none
  | transfer {tenantId req key src dst t}
      (hsrc : d.HasAccount tenantId req.sourceAccountId src)
      (hdst : d.HasAccount tenantId req.destinationAccountId dst)
      (hcur : src.currency = dst.currency) :
      Posts d (.transfer tenantId req key) tenantId
        (pair req.sourceAccountId req.destinationAccountId req.amount t) none
  | debit {tenantId req key src dst srcConv dstConv t}
      (hconv : Converts d tenantId req key src dst srcConv dstConv) :
      Posts d (.transfer tenantId req key) tenantId (pair src.id srcConv.id req.amount t) none
  | credit {tenantId req key src dst srcConv dstConv target t}
      (hconv : Converts d tenantId req key src dst srcConv dstConv) :
      Posts d (.transfer tenantId req key) tenantId (pair dstConv.id dst.id target t) none
  | capture {tenantId id req src dst amount t} {hold : Hold}
      (hsrc : d.HasAccount tenantId hold.accountId src)
      (hdst : d.HasAccount tenantId req.destinationAccountId dst)
      (hcur : src.currency = dst.currency) :
      Posts d (.captureHold tenantId id req) tenantId
        (pair hold.accountId req.destinationAccountId amount t) none
  | reversal {tenantId id req key original t}
      (hfound : d.transactions.find? id = some original) (htenant : original.tenantId = tenantId)
      (hplain : original.correctsId = none) (hunreversed : d.reversalsOf tenantId id = []) :
      Posts d (.reverse tenantId id req key) tenantId (reversed (d.selectPostings id) t) (some id)

/-- One step of the books on behalf of a request that found `d₀`. -/
inductive LedgerStep [Runtime] (d₀ : Database) (r : Request) : Database → Database → Prop where
  | plain {d w} (h : w.plain) : LedgerStep d₀ r d (d.apply w)
  | opened {d} (a : Account)
      (hadm : Admitted d [.insAccount a, .insBalance ⟨a.id, a.tenantId, 0, 0, none⟩]) :
      LedgerStep d₀ r d (replay d [.insAccount a, .insBalance ⟨a.id, a.tenantId, 0, 0, none⟩])
  | posted {d tenantId specs c txn legs} (hacc : d.accounts = d₀.accounts)
      (htransactions : c ≠ none → d.transactions = d₀.transactions)
      (hposts : Posts d₀ r tenantId specs c) (hblock : Block d tenantId specs c txn legs) :
      LedgerStep d₀ r d (replay d (.insTransaction txn :: legWrites legs))

/-- What the steps of a request get to. -/
abbrev LedgerSteps [Runtime] (d₀ : Database) (r : Request) : Database → Database → Prop :=
  Relation.ReflTransGen (LedgerStep d₀ r)

variable [Runtime] {d₀ d : Database} {r : Request}

theorem steps_plain {ws : List Write} (h : ∀ w ∈ ws, w.plain) :
    LedgerSteps d₀ r d (replay d ws) := by
  induction ws generalizing d with
  | nil => exact .refl
  | cons w ws ih =>
    exact .head (.plain (h w (by simp))) (ih fun v hv => h v (by simp [hv]))

/-- The steps of a movement and the rows written after it. -/
theorem steps_then {ws vs : List Write} (h : LedgerSteps d₀ r d (replay d ws))
    (hvs : ∀ w ∈ vs, w.plain) : LedgerSteps d₀ r d (replay d (ws ++ vs)) := by
  rw [replay_append]
  exact h.trans (steps_plain hvs)

variable {env : Env} {g g' : Shared Unit Database Write} {tx tx' : Tx Write Resource}

/-- One call of the engine is one step, and its event does not touch the books. -/
theorem Emitted.steps {tenantId memo : String} {specs : List PostingSpec} {c : Option UUID}
    {txn : Transaction} {legs : List Leg} {event : OutboxEvent}
    (h : Emitted d tenantId specs memo c txn legs event) (hacc : d.accounts = d₀.accounts)
    (htransactions : c ≠ none → d.transactions = d₀.transactions)
    (hposts : Posts d₀ r tenantId specs c) :
    LedgerSteps d₀ r d (replay d (emission txn legs event)) := by
  have hstep := LedgerStep.posted hacc htransactions hposts h.block
  exact steps_then (.single hstep) (by simp [Write.plain, Write.table])

/-- **Refinement**: a request that runs alone moves the database by steps of
    the books, and leaves it as it was when it raises or replays. -/
theorem executed_steps (r : Request) (env : Env) (d : Database) :
    LedgerSteps d r d (r.executed env d).2 := by
  obtain ⟨ws, hout, hadm, hafter⟩ := executed_outcome r env d
  rw [hafter]
  cases hout with
  | nothing => exact .refl
  | opened hrow => exact .single (.opened _ hadm)
  | posted hpost => exact hpost.steps rfl (fun _ => rfl) .post
  | transferred hunseen hsrc hdst hcur hfunded hnow hpost hrecord =>
    exact steps_then (hpost.steps rfl (fun _ => rfl) (.transfer hsrc hdst hcur))
      (by simp [Write.plain, Write.table])
  | converted hconverts hnow hrate hconv hpos hdebit hcredit hrecord =>
    refine steps_then ?_ (by simp [Write.plain, Write.table])
    rw [replay_append]
    -- the second transaction is posted to the accounts the request found
    exact (hdebit.steps rfl (fun _ => rfl) (.debit hconverts)).trans
      (hcredit.steps (accounts_emission d _ _ _) (fun h => absurd rfl h) (.credit hconverts))
  | captured hfound htenant hactive hsrc hdst hcur hamount hwithin hnow hpost =>
    exact steps_then (hpost.steps rfl (fun _ => rfl) (.capture hsrc hdst hcur))
      (by simp [Write.plain, Write.table])
  | reversed hunseen hfound htenant hplain hunreversed hnow hpost hrecord =>
    exact steps_then
      (hpost.steps rfl (fun _ => rfl) (.reversal hfound htenant hplain hunreversed))
      (by simp [Write.plain, Write.table])
  | placed | released | rated | dispatched | imported | swept =>
    exact steps_plain (by simp [Write.plain, Write.table])

/-! ## Successful Requests -/

omit [Runtime] in
theorem mayRaise_error {P : Reply → Database → Prop} :
    MayRaise (alone env)
      (fun e g _ => ∀ reply, (Except.error e : Except Err Reply) = .ok reply → P reply g.db)
      g tx :=
  fun _ _ _ _ _ _ h => by cases h

/-- What a transfer that succeeded did. -/
inductive TransferOutcome (env : Env) (d : Database) (tenantId : String) (req : TransferRequest)
    (key : String) :
    Reply → Database → Prop where
  | replayed {rec p a} (hfound : d.records.find? ⟨tenantId, ENDPOINT, key⟩ = some rec)
      (hreplay : replayOf key req.modelDump rec = .ok p)
      (hvalid : TransferResponse.modelValidate p.body = some a) :
      TransferOutcome env d tenantId req key (.transfer p.statusCode a) d
  | executed {g₀ : Shared Unit Database Write} (run : TransferRun (alone env) tenantId req key g₀)
      (hg : g₀.db = d) (hnow : env.Reads run.gM.clock)
      (hunseen : d.records.find? ⟨tenantId, ENDPOINT, key⟩ = none) :
      TransferOutcome env d tenantId req key (.transfer 200 run.response) (replay d run.tx.log)

theorem transfer_outcome {tenantId key : String} {req : TransferRequest} {d d' : Database}
    {reply : Reply} (h : (Request.transfer tenantId req key).executed env d = (.ok reply, d')) :
    TransferOutcome env d tenantId req key reply d' := by
  have hres := executed_of_swp (.transfer tenantId req key) env d
    (P := fun res d' => ∀ reply, res = .ok reply → TransferOutcome env d tenantId req key reply d')
    fun g hg hnow => ?_
  · rw [h] at hres
    exact hres reply rfl
  subst hg
  rw [Request.service, swp_map]
  refine swp_executeTransfer mayRaise_error (fun rec p a g' tx' hp hfind hr ha reply hreply => ?_)
    fun run _ => ⟨trivial, fun reply hreply => ?_⟩
  · cases hreply
    have hdb : g'.db = g.db := hp.rely.1
    rw [hdb] at hfind
    simp only [hdb]
    exact .replayed hfind hr ha
  · cases hreply
    have hgL : run.gL.db = g.db := run.lookup.rely.1
    have hgC : run.g.db = g.db := run.whole.rely.1
    show TransferOutcome _ _ _ _ _ _ (replay run.g.db run.tx.log)
    rw [hgC]
    exact .executed run rfl (run.prelude.rely.2 hnow) (hgL ▸ run.unseen)

/-- What a capture that succeeded did. -/
inductive CaptureOutcome (env : Env) (d : Database) (tenantId : String) (id : UUID)
    (req : CaptureHoldRequest) :
    Reply → Database → Prop where
  | replayed {hold reply} (hfound : d.holds.find? id = some hold)
      (hstate : hold.state = .CAPTURED) :
      CaptureOutcome env d tenantId id req reply d
  | executed {g₀ : Shared Unit Database Write} (run : CaptureRun (alone env) tenantId id req g₀)
      (hg : g₀.db = d) :
      CaptureOutcome env d tenantId id req (.hold run.response) (replay d run.ws)

theorem capture_outcome {tenantId : String} {id : UUID} {req : CaptureHoldRequest}
    {d d' : Database} {reply : Reply}
    (h : (Request.captureHold tenantId id req).executed env d = (.ok reply, d')) :
    CaptureOutcome env d tenantId id req reply d' := by
  have hres := executed_of_swp (.captureHold tenantId id req) env d
    (P := fun res d' => ∀ reply, res = .ok reply → CaptureOutcome env d tenantId id req reply d')
    fun g hg hnow => ?_
  · rw [h] at hres
    exact hres reply rfl
  subst hg
  rw [Request.service, swp_map]
  refine swp_captureHold mayRaise_error
    (fun hold _ _ g₁ _ g' _ hp hfind _ hstate hr reply _ => ?_)
    fun run _ => ⟨trivial, fun reply hreply => ?_⟩
  · have hdb₁ : g₁.db = g.db := hp.rely.1
    have hdb : g'.db = g.db := (hp.trans hr.progress).rely.1
    rw [hdb]
    exact .replayed (hdb₁ ▸ hfind) hstate
  · cases hreply
    have hgC : run.g.db = g.db := run.whole.rely.1
    show CaptureOutcome _ _ _ _ _ _ (replay run.g.db run.tx.log)
    rw [run.log, hgC]
    exact .executed run rfl

/-- What a reversal that succeeded did. -/
inductive ReverseOutcome (env : Env) (d : Database) (tenantId : String) (id : UUID)
    (req : ReverseTransactionRequest) (key : String) : Reply → Database → Prop where
  | replayed {rec reply} (hfound : d.records.find? ⟨tenantId, REVERSE_ENDPOINT, key⟩ = some rec) :
      ReverseOutcome env d tenantId id req key reply d
  | executed {g₀ : Shared Unit Database Write} (run : ReverseRun (alone env) tenantId id req key g₀)
      (hg : g₀.db = d)
      (hunseen : d.records.find? ⟨tenantId, REVERSE_ENDPOINT, key⟩ = none) :
      ReverseOutcome env d tenantId id req key (.reversal 200 run.response) (replay d run.ws)

theorem reverse_outcome {tenantId key : String} {id : UUID} {req : ReverseTransactionRequest}
    {d d' : Database} {reply : Reply}
    (h : (Request.reverse tenantId id req key).executed env d = (.ok reply, d')) :
    ReverseOutcome env d tenantId id req key reply d' := by
  have hres := executed_of_swp (.reverse tenantId id req key) env d
    (P := fun res d' => ∀ reply, res = .ok reply →
      ReverseOutcome env d tenantId id req key reply d')
    fun g hg hnow => ?_
  · rw [h] at hres
    exact hres reply rfl
  subst hg
  rw [Request.service, swp_map]
  refine swp_reverseTransaction mayRaise_error (fun _ _ _ g' _ hp hfind _ _ reply _ => ?_)
    fun run _ => ⟨trivial, fun _ reply hreply => ?_⟩
  · have hdb : g'.db = g.db := hp.rely.1
    rw [hdb]
    exact .replayed (hdb ▸ hfind)
  · cases hreply
    have hgL : run.gL.db = g.db := run.lookup.rely.1
    have hgC : run.g.db = g.db := run.whole.rely.1
    show ReverseOutcome _ _ _ _ _ _ _ (replay run.g.db run.tx.log)
    rw [run.log, hgC]
    exact .executed run rfl (hgL ▸ run.unseen)

end Ledger
