import Ledger.Runs.Sessions

/-! # What a Request Alone Writes

    The rules of the services speak of any interference.  A request that runs
    alone sees one database, so what it does is a function of that database
    and of the readings of its environment.

    * **Engine**: `Emitted`, the transaction of one call and its event.
    * **Outcome**: `Outcome env d r ws`, that a request which finds `d` may
      have made the writes `ws`, with everything it checked before.
    * **Result**: `executed_outcome`, every request run alone has one.
-/

namespace Ledger

open ReadCommitted

/-! ## What the Parts See -/

/-- The rate in force, as a function of the state. -/
def Database.resolve (d : Database) (base quote : Currency) (asOf : Time) : Option ResolvedRate :=
  if base = quote then some ⟨ONE, "identity", none, asOf⟩
  else match d.latest base quote asOf with
    | some r => some (Database.directRate r)
    | none => (d.latest quote base asOf).bind Database.inverseRate

/-- What a transfer across currencies finds when it goes through. -/
structure Converts (d : Database) (tenantId : String) (req : TransferRequest) (key : String)
    (src dst srcConv dstConv : Account) : Prop where
  unseen : d.records.find? ⟨tenantId, ENDPOINT, key⟩ = none
  source : d.HasAccount tenantId req.sourceAccountId src
  destination : d.HasAccount tenantId req.destinationAccountId dst
  differ : src.currency ≠ dst.currency
  funded : ∃ now b, d.availableBalance tenantId req.sourceAccountId now = some b ∧
    req.amount ≤ b.available
  converted : ∃ now rate target,
    d.resolve src.currency dst.currency (req.effectiveAt.getD now) = some rate ∧
      convert req.amount src.currency dst.currency rate.rate = some target
  sourceConversion : d.openAt tenantId (conversionPath src.currency) = [srcConv]
  destinationConversion : d.openAt tenantId (conversionPath dst.currency) = [dstConv]

/-- One transaction written by the engine: the legs it was asked for, in a
    state that admits them. -/
structure Block (d : Database) (tenantId : String) (specs : List PostingSpec)
    (correctsId : Option UUID) (txn : Transaction) (legs : List Leg) : Prop where
  two : 2 ≤ specs.length
  zero : (specs.map PostingSpec.amount).sum = 0
  tenant : txn.tenantId = tenantId
  corrects : txn.correctsId = correctsId
  carried : List.Forall₂ (Leg.Of txn.id) specs legs
  admitted : Admitted d (.insTransaction txn :: legWrites legs)
  /-- The update of a snapshot silently matches no row of another tenant. -/
  folded : ∀ pre l post, legs = pre ++ l :: post → l.folded = Svc.matched
    (replay d (.insTransaction txn :: (legWrites pre ++ [.insPosting l.posting]))) tenantId
    l.posting.accountId

/-- One call of the engine and the event it leaves. -/
structure Emitted [Runtime] (d : Database) (tenantId : String) (specs : List PostingSpec)
    (memo : String) (correctsId : Option UUID) (txn : Transaction) (legs : List Leg)
    (event : OutboxEvent) : Prop where
  block : Block d tenantId specs correctsId txn legs
  memo : txn.memo = memo
  event_tenant : event.tenantId = tenantId
  event_transaction : event.transactionId = txn.id
  event_payload : event.payload = (outboxPayload tenantId txn specs).dumps .spaced
  event_pending : event.status = .PENDING

/-- The writes of one call, its event flushed. -/
def emission (txn : Transaction) (legs : List Leg) (event : OutboxEvent) : List Write :=
  .insTransaction txn :: legWrites legs ++ [.insOutbox event]

variable {d : Database}

variable [Runtime] {env : Env} {g g' : Shared Unit Database Write} {tx tx' : Tx Write Resource}

/-- Alone on the database, one call of the engine writes one transaction. -/
theorem Posted.block {S : Time → Prop} {tenantId memo : String} {specs : List PostingSpec}
    {c : Option UUID} {pend : List Write} {txn : Transaction} {legs : List Leg}
    {event : OutboxEvent}
    (h : Posted (aloneAt env S) tenantId specs memo c pend txn legs event g tx g' tx')
    (hd : replay g.db (tx.log ++ pend) = d) : Block d tenantId specs c txn legs where
  two := h.two
  zero := h.zero
  tenant := h.tenant
  corrects := h.corrects
  carried := h.carried
  admitted := by
    have hadm := h.progress.admitted.right
    rwa [← replay_append, hd] at hadm
  folded pre l post heq := by
    obtain ⟨gs, hr, hf⟩ := h.folded pre l post heq
    have hdb : gs.db = g.db := hr.1
    rw [hf, hdb, ← List.append_assoc, replay_append, hd]

omit [Runtime] in
/-- The update of a leg finds the snapshot that was there before the transaction. -/
theorem Block.folded_eq {d : Database} {tenantId : String} {specs : List PostingSpec}
    {c : Option UUID} {txn : Transaction} {legs : List Leg}
    (h : Block d tenantId specs c txn legs) :
    ∀ l ∈ legs, l.folded = Svc.matched d tenantId l.posting.accountId := by
  intro l hl
  obtain ⟨pre, post, rfl⟩ := List.append_of_mem hl
  have hnew : NoNewSnapshot
      (.insTransaction txn :: (legWrites pre ++ [.insPosting l.posting])) := by
    intro r hr
    simp only [List.mem_cons, List.mem_append, List.not_mem_nil, or_false, reduceCtorEq,
      false_or] at hr
    exact noNewSnapshot_legWrites pre r hr
  rw [h.folded pre l post rfl, matched_replay hnew]

theorem Posted.emitted {tenantId memo : String} {specs : List PostingSpec} {c : Option UUID}
    {pend : List Write} {txn : Transaction} {legs : List Leg} {event : OutboxEvent}
    (h : Posted (alone env) tenantId specs memo c pend txn legs event g tx g' tx')
    (hd : replay g.db (tx.log ++ pend) = d) :
    Emitted d tenantId specs memo c txn legs event where
  block := h.block hd
  memo := h.memo
  event_tenant := h.event_tenant
  event_transaction := h.event_transaction
  event_payload := h.event_payload
  event_pending := h.event_pending

omit [Runtime] in
/-- Alone on the database, the rate that is read is the one in force. -/
theorem RateRead.resolve {base quote : Currency} {asOf : Time} {r : ResolvedRate}
    (h : RateRead (alone env) base quote asOf g tx r g' tx') (hlog : tx.log = []) :
    g.db.resolve base quote asOf = some r := by
  cases h with
  | identity h => simp [Database.resolve, h]
  | direct h hp hr =>
    have hdb : g'.db = g.db := hp.rely.1
    rw [hlog, replay_nil, hdb] at hr
    simp [Database.resolve, h, hr]
  | inverse h hp hnone hp' hr hq =>
    have hdb₁ := hp.rely.1
    have hdb : g'.db = g.db := (hp.trans hp').rely.1
    rw [hlog, replay_nil, hdb₁] at hnone
    rw [hlog, replay_nil, hdb] at hr
    simp [Database.resolve, h, hnone, hr, hq]

/-- The movement of a transfer that runs alone, in terms of the state it
    found.  The event of the last transaction is still pending. -/
inductive MovedAlone (d : Database) (tenantId : String) (src dst : Account) (req : TransferRequest)
    (effectiveAt : Time) : List Write → UUID → OutboxEvent → Prop where
  | direct {txn legs event} (hcur : src.currency = dst.currency)
      (hpost : Emitted d tenantId
        (pair req.sourceAccountId req.destinationAccountId req.amount effectiveAt) req.memo none txn
        legs event) :
      MovedAlone d tenantId src dst req effectiveAt (.insTransaction txn :: legWrites legs) txn.id
        event
  | routed {rate srcConv dstConv debit credit legs₁ legs₂ event₁ event₂} {target : Int}
      (hcur : src.currency ≠ dst.currency)
      (hrate : d.resolve src.currency dst.currency effectiveAt = some rate)
      (hconv : convert req.amount src.currency dst.currency rate.rate = some target)
      (hpos : 0 ≤ target)
      (hsrc : d.openAt tenantId (conversionPath src.currency) = [srcConv])
      (hdst : d.openAt tenantId (conversionPath dst.currency) = [dstConv])
      (hdebit : Emitted d tenantId (pair src.id srcConv.id req.amount effectiveAt)
        (legMemo req.memo "debit" rate) none debit legs₁ event₁)
      (hcredit : Emitted (replay d (emission debit legs₁ event₁)) tenantId
        (pair dstConv.id dst.id target effectiveAt) (legMemo req.memo "credit" rate) none credit
        legs₂ event₂) :
      MovedAlone d tenantId src dst req effectiveAt
        (emission debit legs₁ event₁ ++ .insTransaction credit :: legWrites legs₂) debit.id event₂

theorem Moved.alone {tenantId : String} {src dst : Account} {req : TransferRequest}
    {effectiveAt : Time} {o o' : OrmSession} {ws : List Write} {id : UUID} {event : OutboxEvent}
    (h : Moved (alone env) tenantId src dst req effectiveAt o g tx ws id event o' g' tx')
    (hlog : tx.log = []) : MovedAlone g.db tenantId src dst req effectiveAt ws id event := by
  cases h with
  | direct hcur hpost => exact .direct hcur (hpost.emitted (by simp [hlog]))
  | routed hcur hrate hconv h₂ hsrcConv h₃ hdstConv hdebit hcredit =>
    rename_i rate target srcConv dstConv debit credit legs₁ legs₂ event₁ g₁ tx₁ g₂ tx₂ g₃ tx₃ g₄ tx₄
    -- all four readings saw the same rows
    have hg₂ : g₂.db = g.db := (hrate.progress.trans h₂).rely.1
    have hg₃ : g₃.db = g.db := ((hrate.progress.trans h₂).trans h₃).rely.1
    have hlog₃ : tx₃.log = [] := by
      simpa [hlog] using ((hrate.progress.trans h₂).trans h₃).log
    have hg₄ : g₄.db = g₃.db := hdebit.progress.rely.1
    have hlog₄ : tx₄.log = .insTransaction debit :: legWrites legs₁ := by
      simpa [hlog₃] using hdebit.progress.log
    rw [hlog, replay_nil, hg₂] at hsrcConv
    rw [hlog, replay_nil, hg₃] at hdstConv
    have hws : .insTransaction debit :: legWrites legs₁ ++
        .insOutbox event₁ :: .insTransaction credit :: legWrites legs₂ =
        emission debit legs₁ event₁ ++ .insTransaction credit :: legWrites legs₂ := by
      simp [emission]
    rw [hws]
    exact .routed hcur (hrate.resolve hlog) hconv (convert_nonneg req.amount_pos.le hrate.neg hconv)
      hsrcConv hdstConv (hdebit.emitted (by simp [hlog₃, hg₃]))
      (hcredit.emitted (by rw [hlog₄, hg₄, hg₃, emission]))

omit [Runtime] in
/-- The tables one call of the engine writes. -/
theorem table_emission {txn : Transaction} {legs : List Leg} {event : OutboxEvent} {w : Write}
    (hw : w ∈ emission txn legs event) : w.table = .transactions ∨ w.table = .postings ∨
      w.table = .balances ∨ w.table = .outbox := by
  unfold emission at hw
  simp only [List.cons_append, List.mem_cons, List.mem_append, List.not_mem_nil, or_false] at hw
  rcases hw with rfl | hw | rfl
  · exact .inl rfl
  · rcases table_legWrites hw with h | h <;> simp [h]
  · exact .inr (.inr (.inr rfl))

omit [Runtime] in
/-- The accounts and the holds do not move with a transaction. -/
theorem accounts_emission (d : Database) (txn : Transaction) (legs : List Leg)
    (event : OutboxEvent) : (replay d (emission txn legs event)).accounts = d.accounts :=
  Database.replay_accounts fun w hw => by rcases table_emission hw with h | h | h | h <;> simp [h]

omit [Runtime] in
theorem holds_emission (d : Database) (txn : Transaction) (legs : List Leg) (event : OutboxEvent) :
    (replay d (emission txn legs event)).holds = d.holds :=
  Database.replay_holds fun w hw => by rcases table_emission hw with h | h | h | h <;> simp [h]

omit [Runtime] in
/-- Alone on the database, the funds check compares with the available balance. -/
theorem FundsChecked.available {tenantId : String} {account : UUID} {amount : Int}
    {o o' : OrmSession} (h : FundsChecked (alone env) tenantId account amount o g tx o' g' tx')
    (hlog : tx.log = []) (ho : o.balances account = none) :
    ∃ now b, g.db.availableBalance tenantId account now = some b ∧ amount ≤ b.available := by
  obtain ⟨lock, -, posted, loaded, tenant, holds, covers⟩ := h
  have hg₂ := (lock.trans posted).rely.1
  have hg' : g'.db = g.db := ((lock.trans posted).trans holds).rely.1
  have hseen := loaded.fresh ho
  rw [hlog, replay_nil, hg₂] at hseen
  rw [hlog, replay_nil, hg'] at covers
  exact ⟨_, _, availableBalance_eq_some.mpr ⟨_, hseen.symm, tenant, rfl⟩, covers⟩

/-! ## Outcomes -/

/-- The request may have made these writes in the state it found. -/
inductive Outcome (env : Env) (d : Database) : Request → List Write → Prop where
  /-- It raised, answered from a record, or only read. -/
  | nothing {r} : Outcome env d r []
  | opened {tenantId req a} (hrow : Opened tenantId req a) :
      Outcome env d (.openAccount tenantId req)
        [.insAccount a, .insBalance ⟨a.id, a.tenantId, 0, 0, none⟩]
  | posted {tenantId specs memo txn legs event}
      (hpost : Emitted d tenantId specs memo none txn legs event) :
      Outcome env d (.post tenantId specs memo) (emission txn legs event)
  | transferred {tenantId req key src dst now txn legs event} {record : IdempotencyRecord}
      (hunseen : d.records.find? ⟨tenantId, ENDPOINT, key⟩ = none)
      (hsrc : d.HasAccount tenantId req.sourceAccountId src)
      (hdst : d.HasAccount tenantId req.destinationAccountId dst)
      (hcur : src.currency = dst.currency)
      (hfunded : ∃ now b, d.availableBalance tenantId req.sourceAccountId now = some b ∧
        req.amount ≤ b.available)
      (hnow : env.Reads now)
      (hpost : Emitted d tenantId
        (pair req.sourceAccountId req.destinationAccountId req.amount (req.effectiveAt.getD now))
        req.memo none txn legs event)
      (hrecord : record.id = ⟨tenantId, ENDPOINT, key⟩) :
      Outcome env d (.transfer tenantId req key) (emission txn legs event ++ [.insRecord record])
  | converted {tenantId req key src dst srcConv dstConv now rate debit credit legs₁ legs₂ event₁
        event₂} {target : Int} {record : IdempotencyRecord}
      (hconverts : Converts d tenantId req key src dst srcConv dstConv)
      (hnow : env.Reads now)
      (hrate : d.resolve src.currency dst.currency (req.effectiveAt.getD now) = some rate)
      (hconv : convert req.amount src.currency dst.currency rate.rate = some target)
      (hpos : 0 ≤ target)
      (hdebit : Emitted d tenantId
        (pair src.id srcConv.id req.amount (req.effectiveAt.getD now))
        (legMemo req.memo "debit" rate) none debit legs₁ event₁)
      (hcredit : Emitted (replay d (emission debit legs₁ event₁)) tenantId
        (pair dstConv.id dst.id target (req.effectiveAt.getD now))
        (legMemo req.memo "credit" rate) none credit legs₂ event₂)
      (hrecord : record.id = ⟨tenantId, ENDPOINT, key⟩) :
      Outcome env d (.transfer tenantId req key)
        (emission debit legs₁ event₁ ++ emission credit legs₂ event₂ ++ [.insRecord record])
  | placed {tenantId req key account} {hold : Hold} {record : IdempotencyRecord}
      (hunseen : d.records.find? ⟨tenantId, PLACE_ENDPOINT, key⟩ = none)
      (haccount : d.HasAccount tenantId req.accountId account)
      (hfunded : ∃ now b, d.availableBalance tenantId req.accountId now = some b ∧
        req.amount ≤ b.available)
      (htenant : hold.tenantId = tenantId) (hon : hold.accountId = req.accountId)
      (hamount : hold.amount = req.amount) (hactive : hold.state = .ACTIVE)
      (hopen : hold.capturedTransactionId = none ∧ hold.capturedAmount = none ∧
        hold.resolvedAt = none)
      (hrecord : record.id = ⟨tenantId, PLACE_ENDPOINT, key⟩) :
      Outcome env d (.placeHold tenantId req key) [.insHold hold, .insRecord record]
  | captured {tenantId id req src dst now txn legs event} {hold : Hold}
      (hfound : d.holds.find? id = some hold) (htenant : hold.tenantId = tenantId)
      (hactive : hold.state = .ACTIVE) (hsrc : d.HasAccount tenantId hold.accountId src)
      (hdst : d.HasAccount tenantId req.destinationAccountId dst)
      (hcur : src.currency = dst.currency) (hamount : 0 < captureAmount hold req)
      (hwithin : captureAmount hold req ≤ hold.amount) (hnow : env.Reads now)
      (hpost : Emitted d tenantId
        (pair hold.accountId req.destinationAccountId (captureAmount hold req) now)
        (if req.memo = "" then hold.memo else req.memo) none txn legs event) :
      Outcome env d (.captureHold tenantId id req)
        (emission txn legs event ++ [.captureHold id txn.id (captureAmount hold req) now])
  | released {tenantId id now} {hold : Hold} (hfound : d.holds.find? id = some hold)
      (htenant : hold.tenantId = tenantId) (hactive : hold.state = .ACTIVE)
      (hnow : env.Reads now) :
      Outcome env d (.releaseHold tenantId id) [.releaseHold id now]
  | reversed {tenantId id req key original now txn legs event} {record : IdempotencyRecord}
      (hunseen : d.records.find? ⟨tenantId, REVERSE_ENDPOINT, key⟩ = none)
      (hfound : d.transactions.find? id = some original) (htenant : original.tenantId = tenantId)
      (hplain : original.correctsId = none) (hunreversed : d.reversalsOf tenantId id = [])
      (hnow : env.Reads now)
      (hpost : Emitted d tenantId (reversed (d.selectPostings id) now) (reversalMemo req id)
        (some id) txn legs event)
      (hrecord : record.id = ⟨tenantId, REVERSE_ENDPOINT, key⟩) :
      Outcome env d (.reverse tenantId id req key)
        (emission txn legs event ++ [.insRecord record])
  | rated {tenantId req row} : Outcome env d (.upsertRate tenantId req) [.insRate row]
  | dispatched {tenantId limit time} :
      Outcome env d (.dispatch tenantId limit)
        ((d.events tenantId (some .PENDING) limit.toNat).map fun e => .publish e.id time)
  | imported {tenantId account raw lines} {row : StatementImport} {rows : List StatementLine}
      (htenant : row.tenantId = tenantId) (hlines : ∀ line ∈ rows, line.importId = row.id) :
      Outcome env d (.importStatement tenantId account raw lines)
        (.insImport row :: rows.map .insLine)
  | swept {minAge cutoff} :
      Outcome env d (.sweep minAge) [.deleteRecords (d.swept cutoff)]

/-- What a request that found `d` left behind. -/
def Done (env : Env) (d : Database) (r : Request) (d' : Database) : Prop :=
  ∃ ws, Outcome env d r ws ∧ Admitted d ws ∧ d' = replay d ws

/-- A stretch that commits nothing leaves the database as it was. -/
theorem done_nothing {r : Request} {ws : List Write} (h : Progress (alone env) ws g tx g' tx') :
    Done env g.db r g'.db :=
  ⟨[], .nothing, fun _ _ _ h => by simp at h, h.rely.1⟩

theorem mayRaise_done {r : Request} :
    MayRaise (alone env) (fun _ g' _ => Done env g.db r g'.db) g tx :=
  fun _ _ _ _ hp => done_nothing hp

omit [Runtime] in
/-- The writes of a commit, in the state the request found. -/
theorem done_commit [Runtime] {r : Request} {ws : List Write}
    (h : Progress (alone env) ws g {} g' tx') (hout : Outcome env g.db r ws) :
    Done env g.db r (g'.commit () tx').db := by
  have hdb : g'.db = g.db := h.rely.1
  have hlog : tx'.log = ws := by simpa using h.log
  refine ⟨ws, hout, h.admitted, ?_⟩
  show replay g'.db tx'.log = _
  rw [hlog, hdb]

section requests

variable {tenantId key : String}

theorem TransferRun.done {req : TransferRequest} (run : TransferRun (alone env) tenantId req key g)
    (hnow : env.Reads g.clock) :
    Done env g.db (.transfer tenantId req key) (run.g.commit () run.tx).db := by
  -- every statement of the request saw the same database
  have hgL : run.gL.db = g.db := run.lookup.rely.1
  have hgS : run.gS.db = g.db := (run.lookup.trans run.readSrc).rely.1
  have hgD : run.gD.db = g.db := ((run.lookup.trans run.readSrc).trans run.readDst).rely.1
  have hgM : run.gM.db = g.db := run.prelude.rely.1
  have hreads := run.prelude.rely.2 hnow
  have hsrc := hgS ▸ run.src_eq
  have hdst := hgD ▸ run.dst_eq
  have hunseen := hgL ▸ run.unseen
  have hlog : run.txD.log = [] := by
    simpa using ((run.lookup.trans run.readSrc).trans run.readDst).log
  have hfunded := run.funds.available hlog rfl
  rw [hgD] at hfunded
  have hmoved := run.moved.alone run.txM_log
  rw [hgM, run.effective] at hmoved
  have hwhole := run.whole
  have hrecord : run.stored.id = ⟨tenantId, ENDPOINT, key⟩ := rfl
  generalize run.ws = ws at hmoved hwhole
  generalize run.txnId = id at hmoved
  generalize run.event = event at hmoved hwhole
  cases hmoved with
  | direct hcur hpost =>
    have hout := Outcome.transferred hunseen hsrc hdst hcur hfunded hreads hpost hrecord
    exact done_commit (by simpa [emission] using hwhole) hout
  | routed hcur hrate hconv hpos hsrcConv hdstConv hdebit hcredit =>
    have hconverts := Converts.mk hunseen hsrc hdst hcur hfunded ⟨_, _, _, hrate, hconv⟩ hsrcConv
      hdstConv
    have hout := Outcome.converted hconverts hreads hrate hconv hpos hdebit hcredit hrecord
    exact done_commit (by simpa [emission] using hwhole) hout

theorem PlaceRun.done {req : PlaceHoldRequest} (run : PlaceRun (alone env) tenantId req key g) :
    Done env g.db (.placeHold tenantId req key) (run.g.commit () run.tx).db := by
  have hgL : run.gL.db = g.db := run.lookup.rely.1
  have hgS : run.gS.db = g.db := (run.lookup.trans run.readAccount).rely.1
  have hfunded := run.funds.available run.txS_log rfl
  rw [hgS] at hfunded
  exact done_commit run.whole (.placed (hgL ▸ run.unseen) (hgS ▸ run.account_eq) hfunded
    run.hold_tenant run.hold_account run.hold_amount run.hold_state run.hold_open rfl)

theorem CaptureRun.done {id : UUID} {req : CaptureHoldRequest}
    (run : CaptureRun (alone env) tenantId id req g) (hnow : env.Reads g.clock) :
    Done env g.db (.captureHold tenantId id req) (run.g.commit () run.tx).db := by
  have hgH : run.gH.db = g.db := run.read.rely.1
  have hgS : run.gS.db = g.db := (run.read.trans run.readSrc).rely.1
  have hgD : run.gD.db = g.db := ((run.read.trans run.readSrc).trans run.readDst).rely.1
  have hgM : run.gM.db = g.db := (run.read.trans run.prelude).rely.1
  have hreads := (run.read.trans run.prelude).rely.2 hnow
  have hpost := run.posted.emitted (d := g.db) (by simp [run.txB_log, hgM])
  have hout := Outcome.captured (hgH ▸ run.found) run.hold_tenant run.active (hgS ▸ run.src_eq)
    (hgD ▸ run.dst_eq) run.currency run.amount_pos run.within hreads hpost
  have hwhole := run.whole
  rw [CaptureRun.ws, CaptureRun.amount, run.hold_id] at hwhole
  exact done_commit (by simpa [emission] using hwhole) hout

theorem ReleaseRun.done {id : UUID} (run : ReleaseRun (alone env) tenantId id g)
    (hnow : env.Reads g.clock) :
    Done env g.db (.releaseHold tenantId id) (run.g.commit () run.tx).db := by
  have hgH : run.gH.db = g.db := run.read.rely.1
  have hreads := (run.read.trans run.stamp).rely.2 hnow
  have hwhole := run.whole
  rw [run.hold_id] at hwhole
  exact done_commit hwhole (.released (hgH ▸ run.found) run.hold_tenant run.active hreads)

theorem ReverseRun.done {id : UUID} {req : ReverseTransactionRequest}
    (run : ReverseRun (alone env) tenantId id req key g) (hnow : env.Reads g.clock) :
    Done env g.db (.reverse tenantId id req key) (run.g.commit () run.tx).db := by
  have hgL : run.gL.db = g.db := run.lookup.rely.1
  have hgT : run.gT.db = g.db := (run.lookup.trans run.readOriginal).rely.1
  have hgX : run.gX.db = g.db := ((run.lookup.trans run.readOriginal).trans run.readExisting).rely.1
  have hread := ((run.lookup.trans run.readOriginal).trans run.readExisting).trans run.readPostings
  have hgQ : run.gQ.db = g.db := hread.rely.1
  have hgM : run.gM.db = g.db := (hread.trans run.stamp).rely.1
  have hreads := (hread.trans run.stamp).rely.2 hnow
  have hpost := run.posted.emitted (d := g.db) (by simp [run.txQ_log, hgM])
  rw [← run.postings_eq, hgQ] at hpost
  have hout := Outcome.reversed (hgL ▸ run.unseen) (hgT ▸ run.found) run.original_tenant
    run.original_plain (hgX ▸ run.unreversed) hreads hpost (show run.stored.id = _ from rfl)
  have hwhole := run.whole
  rw [ReverseRun.ws] at hwhole
  exact done_commit (by simpa [emission] using hwhole) hout

end requests

/-- **Every request run alone** commits the writes of one outcome, or nothing. -/
theorem executed_outcome (r : Request) (env : Env) (d : Database) :
    Done env d r (r.executed env d).2 := by
  refine executed_of_swp r env d (P := fun _ d' => Done env d r d') fun g hg hnow => ?_
  subst hg
  cases r with
  | openAccount tenantId req =>
    rw [Request.service, swp_map]
    refine swp_openAccount mayRaise_done fun a g' tx' ha hp _ => ⟨trivial, fun _ _ => ?_⟩
    rw [← ha.tenant] at hp
    exact done_commit hp (.opened ha)
  | post tenantId specs memo =>
    rw [Request.service, swp_map]
    refine swp_postAndCommit mayRaise_done fun txn legs event g₁ tx₁ g' tx' posted hp _ =>
      ⟨trivial, fun _ => ?_⟩
    have hwhole := posted.progress.trans hp
    exact done_commit hwhole (.posted (posted.emitted rfl))
  | transfer tenantId req key =>
    rw [Request.service, swp_map]
    exact swp_executeTransfer mayRaise_done (fun _ _ _ _ _ hp _ _ _ => done_nothing hp)
      fun run _ => ⟨trivial, run.done hnow⟩
  | placeHold tenantId req key =>
    rw [Request.service, swp_map]
    exact swp_placeHold mayRaise_done (fun _ _ _ _ _ hp _ _ _ => done_nothing hp)
      fun run _ => ⟨trivial, run.done⟩
  | captureHold tenantId id req =>
    rw [Request.service, swp_map]
    exact swp_captureHold mayRaise_done
      (fun _ _ _ _ _ _ _ hp _ _ _ hr => done_nothing (hp.trans hr.progress))
      fun run _ => ⟨trivial, run.done hnow⟩
  | releaseHold tenantId id =>
    rw [Request.service, swp_map]
    refine swp_releaseHold mayRaise_done
      (fun _ _ _ _ _ _ _ hp _ _ _ hr => done_nothing (hp.trans hr.progress)) fun run _ =>
        ⟨trivial, fun _ _ g' _ hr => ?_⟩
    -- the response is read after the commit
    have hdb : g'.db = (run.g.commit () run.tx).db := hr.progress.rely.1
    rw [hdb]
    exact run.done hnow
  | reverse tenantId id req key =>
    rw [Request.service, swp_map]
    exact swp_reverseTransaction mayRaise_done (fun _ _ _ _ _ hp _ _ _ => done_nothing hp)
      fun run _ => ⟨trivial, fun _ => run.done hnow⟩
  | upsertRate tenantId req =>
    rw [Request.service, swp_map]
    exact swp_upsertRate mayRaise_done fun row g' tx' _ hp _ =>
      ⟨trivial, fun _ => done_commit hp .rated⟩
  | dispatch tenantId limit =>
    rw [Request.service, swp_map]
    refine swp_dispatchPending mayRaise_done (fun _ _ _ hp => done_nothing hp)
      fun g₁ tx₁ time g' tx' hp _ hp' _ => ⟨trivial, fun _ => ?_⟩
    have hg₁ : g₁.db = g.db := hp.rely.1
    have hwhole := hp.trans hp'
    rw [hg₁] at hwhole
    exact done_commit hwhole .dispatched
  | importStatement tenantId account raw lines =>
    rw [Request.service, swp_map]
    exact swp_importStatement mayRaise_done (fun _ _ _ _ _ hp _ => done_nothing hp)
      fun run _ =>
        ⟨trivial, fun _ => done_commit run.whole (.imported run.tenant run.rows_import)⟩
  | sweep minAge =>
    rw [Request.service, swp_map]
    refine swp_sweepOnce mayRaise_done fun run _ => ⟨trivial, fun _ _ => ?_⟩
    have hgS : run.gS.db = g.db := (run.stamp.trans run.deleted).rely.1
    have hwhole := run.whole
    rw [SweepRun.keys, hgS] at hwhole
    exact done_commit hwhole .swept

end Ledger
