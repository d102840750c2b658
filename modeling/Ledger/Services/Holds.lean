import Ledger.Services.Transfers

/-! # Holds

    Two-phase money movement (`services/holds_service.py`): place a
    reservation, then capture it into a transaction or release it.
-/

namespace Ledger

open ReadCommitted

/-- The endpoint of the placements' idempotency keys. -/
def PLACE_ENDPOINT : String := "holds.place"

/-- `timedelta(minutes=settings.hold_default_ttl_minutes)`. -/
def HOLD_DEFAULT_TTL [Runtime] : Time := Runtime.holdDefaultTtlMinutes * 60 * 1000000

/-- The response about a hold. -/
def toResponse (hold : Hold) (posted available : Int) : HoldResponse :=
  { id := hold.id, accountId := hold.accountId, amount := hold.amount, state := hold.state,
    expiresAt := hold.expiresAt, capturedTransactionId := hold.capturedTransactionId,
    capturedAmount := hold.capturedAmount, postedBalance := posted, availableBalance := available }

/-- The expiry a request names, or the default lifetime from now. -/
def expiryOf [Runtime] : Option Time → Svc Time
  | some t => return t
  | none => do
    let t ← Svc.now
    return t + HOLD_DEFAULT_TTL

/-- Reserve funds against an account idempotently. -/
def placeHold [Runtime] (tenantId : String) (req : PlaceHoldRequest) (idempotencyKey : String) :
    Svc (Nat × HoldResponse) := do
  let body := req.modelDump
  let replay ← lookup tenantId PLACE_ENDPOINT idempotencyKey body
  match replay with
  | some replay => replayed HoldResponse.modelValidate replay
  | none =>
    let _ ← requireAccount tenantId req.accountId
    requireFunds tenantId req.accountId req.amount
    let expiresAt ← expiryOf req.expiresAt
    let id ← Svc.uuid4
    let createdAt ← Svc.now
    let hold : Hold :=
      { id, tenantId, accountId := req.accountId, amount := req.amount, state := .ACTIVE,
        memo := req.memo, expiresAt, createdAt, amount_pos := req.amount_pos }
    Svc.add (.insHold hold)
    -- the new hold counts in the balances that are reported
    Svc.flush
    let after ← availableBalance tenantId req.accountId
    match after with
    | none => Svc.raise .assertionError
    | some after =>
      let response := toResponse hold after.posted after.available
      record tenantId PLACE_ENDPOINT idempotencyKey body response.modelDump
      Svc.commit
      return (200, response)

/-- A hold of the acting tenant, or the service's error. -/
def requireHold (tenantId : String) (holdId : UUID) : Svc Hold := do
  let found ← Svc.select fun d _ => d.holds.find? holdId
  match found with
  | some h =>
    if h.tenantId ≠ tenantId then Svc.raise (.holdNotFound s!"hold {holdId.str} not found")
    else return h
  | none => Svc.raise (.holdNotFound s!"hold {holdId.str} not found")

/-- The response about a hold with the account's current balances. -/
def currentResponse (tenantId : String) (hold : Hold) : Svc HoldResponse := do
  let balance ← availableBalance tenantId hold.accountId
  match balance with
  | some b => return toResponse hold b.posted b.available
  | none => return toResponse hold 0 0

/-- The amount a capture takes: what the request names, or the full hold. -/
def captureAmount (hold : Hold) (req : CaptureHoldRequest) : Int := req.amount.getD hold.amount

/-- The money movement of a capture, under the account's lock. -/
def captureFunds [Runtime] (tenantId : String) (hold : Hold) (req : CaptureHoldRequest) :
    Svc (Transaction × Time) := do
  let amount := captureAmount hold req
  accountLock hold.accountId
  let before ← availableBalance tenantId hold.accountId
  match before with
  | none =>
    Svc.raise (.insufficientFunds s!"posted balance cannot cover capture of {amount}")
  | some before =>
    -- what is posted, not what is available: the hold is itself held
    if before.posted < amount then
      Svc.raise (.insufficientFunds s!"posted balance cannot cover capture of {amount}")
    else do
      let effectiveAt ← Svc.now
      let txn ← postTransaction tenantId
        [⟨hold.accountId, negate amount, effectiveAt⟩,
         ⟨req.destinationAccountId, amount, effectiveAt⟩]
        (if req.memo = "" then hold.memo else req.memo)
      return (txn, effectiveAt)

/-- Capture a hold into a real transfer to a destination account. -/
def captureHold [Runtime] (tenantId : String) (holdId : UUID) (req : CaptureHoldRequest) :
    Svc HoldResponse := do
  let hold ← requireHold tenantId holdId
  if hold.state = .CAPTURED then
    -- already resolved: replay, do not post again
    currentResponse tenantId hold
  else if hold.state ≠ .ACTIVE then
    Svc.raise (.holdState s!"hold {hold.id.str} is {hold.state.value}, cannot capture")
  else do
    let src ← requireAccount tenantId hold.accountId
    let dst ← requireAccount tenantId req.destinationAccountId
    if src.currency ≠ dst.currency then
      Svc.raise (.currencyMismatch "cross-currency capture requires a conversion account")
    else if hold.amount < captureAmount hold req then
      Svc.raise (.holdState s!"capture {captureAmount hold req} exceeds held {hold.amount}")
    else do
      let (txn, effectiveAt) ← captureFunds tenantId hold req
      -- the hold's own update stays pending until the commit
      let captured := hold.capture txn.id (captureAmount hold req) effectiveAt
      Svc.add (.captureHold hold.id txn.id (captureAmount hold req) effectiveAt)
      let after ← availableBalance tenantId hold.accountId
      match after with
      | none => Svc.raise .assertionError
      | some after =>
        -- the balances were read before the hold's own update was sent
        Svc.commit
        return toResponse captured after.posted after.available

/-- Void an active hold, freeing its reservation. -/
def releaseHold (tenantId : String) (holdId : UUID) : Svc HoldResponse := do
  let hold ← requireHold tenantId holdId
  match hold.state with
  | .ACTIVE =>
    let t ← Svc.now
    Svc.add (.releaseHold hold.id t)
    Svc.commit
    -- the balances are read in a transaction of their own
    currentResponse tenantId (hold.release t)
  | .CAPTURED =>
    Svc.raise (.holdState s!"hold {hold.id.str} is captured and cannot be released")
  -- already released: nothing is written
  | .RELEASED => currentResponse tenantId hold

end Ledger
