import Ledger.Api.RequestContext
import Ledger.Framework.Atomicity
import Ledger.Services.Reads

/-! # Routes

    The endpoints (`routers/*.py`) behind the middleware that gives a request
    its tenant (`api/backend_setup.py`).

    * **Responses**: `Response`, a status code and a body.
    * **Endpoints**: `endpoint`, a service, the exceptions its route answers
      for and what it makes of the result; one definition a route.
    * **Application**: `HttpRequest.program`, a request of anybody, and
      `Client`, a request or a pass of the background sweep.

    A request that matches no route, or whose body, parameters or headers do
    not validate, reaches no endpoint.
-/

namespace Ledger

open ReadCommitted

/-! ## Responses -/

/-- A non-binding conversion quote plus the rate provenance used. -/
structure QuoteResponse where
  sourceCurrency : Currency
  targetCurrency : Currency
  sourceAmount : Int
  targetAmount : Int
  rate : Decimal
  rateSource : String
  rateId : Option UUID
  effectiveAt : Time
  deriving DecidableEq

/-- Ask for the amount `amount` (source minor units) would convert to. -/
structure QuoteRequest where
  sourceCurrency : Currency
  targetCurrency : Currency
  amount : Int
  asOf : Option Time := none
  amount_pos : 0 < amount

/-- The body of a response. -/
inductive ResponseBody where
  | account (r : AccountResponse)
  | transfer (r : TransferResponse)
  | hold (r : HoldResponse)
  | reversal (r : ReversalResponse)
  | quote (r : QuoteResponse)
  | rate (id : UUID)
  | dispatched (events : List OutboxEventResponse)
  | read (r : ReadResponse)
  | health
  | detail (msg : String)

/-- A response. -/
structure Response where
  statusCode : Nat
  body : ResponseBody

/-- What the server answers for an exception that nobody catches. -/
def serverError : Response := ⟨500, .detail "Internal Server Error"⟩

/-- `str(exc)`, for the exceptions of the services. -/
def Err.detail : Err → String
  | .insufficientFunds msg | .currencyMismatch msg | .idempotencyConflict msg | .holdNotFound msg
  | .holdState msg | .transactionNotFound msg | .alreadyReversed msg | .cannotReverseReversal msg
  | .unbalancedTransaction msg | .conversionAccountMissing msg | .rateUnavailable msg => msg
  -- no route answers for an exception of a library
  | .integrityError | .dataError | .multipleResultsFound | .invalidOperation | .validationError
  | .assertionError | .killed => ""

/-- What a read answers, as a response. -/
def ReadResponse.response : ReadResponse → Response
  | .httpException code detail => ⟨code, .detail detail⟩
  | .error _ => serverError
  | r => ⟨200, .read r⟩

/-! ## Endpoints -/

/-- The program of a request. -/
abbrev Endpoint : Type 1 := Prog Database Write Resource Err Response

/-- The answer for an exception, if it is caught. -/
def raised (caught : Err → Option Nat) (e : Err) : Response :=
  match caught e with
  | some code => ⟨code, .detail e.detail⟩
  | none => serverError

/-- Call a service; answer for what it raises and for what it returns. -/
def endpoint {α : Type} (service : Svc α) (caught : Err → Option Nat)
    (returned : α → Response) : Endpoint :=
  ((service {}) >>= fun p => pure p.1 : Prog Database Write Resource Err α).attempt >>= fun
    | .ok a => pure (returned a)
    | .error e => pure (raised caught e)

/-- No `except`. -/
def uncaught : Err → Option Nat := fun _ => none

variable [Runtime]

/-- `POST /accounts`. -/
def openAccountEndpoint (tenantId : String) (req : OpenAccountRequest) : Endpoint :=
  endpoint (openAccount tenantId req) uncaught fun r => ⟨201, .account r⟩

/-- `POST /transfers`. -/
def createTransfer (tenantId : String) (req : TransferRequest) (idempotencyKey : String) :
    Endpoint :=
  endpoint (executeTransfer tenantId req idempotencyKey)
    (fun
      | .idempotencyConflict _ => some 409
      | .insufficientFunds _ | .currencyMismatch _ => some 422
      | _ => none)
    -- the stored status code is dropped
    fun r => ⟨200, .transfer r.2⟩

/-- `POST /holds`. -/
def placeHoldEndpoint (tenantId : String) (req : PlaceHoldRequest) (idempotencyKey : String) :
    Endpoint :=
  endpoint (placeHold tenantId req idempotencyKey)
    (fun
      | .idempotencyConflict _ => some 409
      | .insufficientFunds _ => some 422
      | _ => none)
    fun r => ⟨200, .hold r.2⟩

/-- `POST /holds/{hold_id}/capture`. -/
def captureHoldEndpoint (tenantId : String) (holdId : UUID) (req : CaptureHoldRequest) :
    Endpoint :=
  endpoint (captureHold tenantId holdId req)
    (fun
      | .holdNotFound _ => some 404
      | .holdState _ | .insufficientFunds _ | .currencyMismatch _ => some 422
      | _ => none)
    fun r => ⟨200, .hold r⟩

/-- `POST /holds/{hold_id}/release`. -/
def releaseHoldEndpoint (tenantId : String) (holdId : UUID) : Endpoint :=
  endpoint (releaseHold tenantId holdId)
    (fun
      | .holdNotFound _ => some 404
      | .holdState _ => some 422
      | _ => none)
    fun r => ⟨200, .hold r⟩

/-- `POST /transactions/{transaction_id}/reverse`. -/
def reverseTransactionEndpoint (tenantId : String) (transactionId : UUID)
    (req : ReverseTransactionRequest) (idempotencyKey : String) : Endpoint :=
  endpoint (reverseTransaction tenantId transactionId req idempotencyKey)
    (fun
      | .idempotencyConflict _ => some 409
      | .transactionNotFound _ => some 404
      | .alreadyReversed _ | .cannotReverseReversal _ => some 422
      | _ => none)
    fun r => ⟨200, .reversal r.2⟩

/-- `POST /fx/rates`. -/
def upsertRateEndpoint (tenantId : String) (req : UpsertRateRequest) : Endpoint :=
  endpoint (upsertRate tenantId req) uncaught fun id => ⟨201, .rate id⟩

/-- `POST /outbox/dispatch`. -/
def dispatchEndpoint (tenantId : String) (limit : Int) : Endpoint :=
  endpoint (dispatchPending tenantId limit) uncaught fun dispatched =>
    -- the payloads are decoded after the commit
    match dispatched.mapM OutboxEventResponse.fromRow with
    | none => serverError
    | some events => ⟨200, .dispatched events⟩

/-- `POST /fx/quote`. -/
def quoteEndpoint (req : QuoteRequest) : Endpoint :=
  endpoint (do
      let asOf ← orNow req.asOf
      let rate ← resolveRate req.sourceCurrency req.targetCurrency asOf
      match convert req.amount req.sourceCurrency req.targetCurrency rate.rate with
      | none => Svc.raise .invalidOperation
      | some target => return (rate, target))
    (fun
      | .rateUnavailable _ => some 422
      | _ => none)
    fun r => ⟨200, .quote
      { sourceCurrency := req.sourceCurrency, targetCurrency := req.targetCurrency,
        sourceAmount := req.amount, targetAmount := r.2, rate := r.1.rate,
        rateSource := r.1.source, rateId := r.1.rateId, effectiveAt := r.1.effectiveAt }⟩

/-- `GET /accounts/{account_id}`. -/
def getAccountEndpoint (tenantId : String) (accountId : UUID) : Endpoint :=
  endpoint (do
      let account ← Svc.select fun d _ => d.accounts.find? accountId
      match account with
      | none => return .httpException 404 "Account not found"
      | some account =>
        if account.tenantId ≠ tenantId then return .httpException 404 "Account not found"
        else do
          let balance ← Svc.getBalance accountId
          return (.account
            { id := account.id, path := account.path, name := account.name,
              normalBalance := account.normalBalance, currency := account.currency,
              balance := (balance.map AccountBalance.balance).getD 0, isOpen := account.isOpen }))
    uncaught ReadResponse.response

/-- `GET /balances/{account_id}`. -/
def getBalanceEndpoint (tenantId : String) (accountId : UUID) : Endpoint :=
  endpoint (do
      let balance ← availableBalance tenantId accountId
      match balance with
      | none => return .httpException 404 "Account not found"
      | some balance =>
        return (.balance
          { accountId := accountId.str, posted := balance.posted, held := balance.held,
            available := balance.available, balance := balance.posted }))
    uncaught ReadResponse.response

/-- `GET /admin/accounts/{account_id}/journal`. -/
def getAccountJournalEndpoint (tenantId : String) (accountId : UUID) (after : Option Time)
    (limit : Nat) : Endpoint :=
  endpoint (do
      let account ← Svc.select fun d _ => d.accounts.find? accountId
      match account with
      | none => return .httpException 404 "Account not found"
      | some account =>
        if account.tenantId ≠ tenantId then return .httpException 404 "Account not found"
        else do
          let entries ← Svc.select fun d _ =>
            (((d.joined (d.postings.rows.filter fun p =>
              p.accountId = accountId && after.all (· < p.effectiveAt))).insertionSort
                journalOrder).take limit).map journalEntry
          return (.journal
            { accountId, entries,
              nextCursor :=
                if entries.length = limit then entries.getLast?.map JournalEntry.effectiveAt
                else none }))
    uncaught ReadResponse.response

/-- `GET /outbox`. -/
def listEventsEndpoint (tenantId : String) (status : Option OutboxStatus) (limit : Int) :
    Endpoint :=
  endpoint (listEvents tenantId status limit) uncaught fun events =>
    match events.mapM OutboxEventResponse.fromRow with
    | none => serverError
    | some events => ⟨200, .read (.events events)⟩

/-- `GET /idempotency/{endpoint}/{key}`. -/
def getIdempotencyKeyEndpoint (tenantId name key : String) : Endpoint :=
  endpoint (Svc.select fun d _ => d.getIdempotencyKeyEndpoint tenantId name key) uncaught
    ReadResponse.response

/-- `GET /statements/{account_id}.csv`. -/
def statementCsv (accountId : UUID) (start stop : Time) : Endpoint :=
  endpoint (Svc.select fun d _ => d.streamStatement accountId start stop) uncaught fun rows =>
    ⟨200, .read (.statement (csv rows))⟩

/-- `GET /reconciliation/imports`. -/
def listImports (tenantId : String) : Endpoint :=
  endpoint (Svc.select fun d _ => d.listImports tenantId) uncaught ReadResponse.response

/-- `GET /reconciliation/exceptions`. -/
def listExceptions (resolved : Bool) : Endpoint :=
  endpoint (Svc.select fun d _ => d.listExceptions resolved) uncaught ReadResponse.response

/-! ## Application -/

/-- A route, with its arguments as they are validated. -/
inductive Route where
  | openAccount (req : OpenAccountRequest)
  | transfer (req : TransferRequest) (idempotencyKey : String)
  | placeHold (req : PlaceHoldRequest) (idempotencyKey : String)
  | captureHold (holdId : UUID) (req : CaptureHoldRequest)
  | releaseHold (holdId : UUID)
  | reverseTransaction (transactionId : UUID) (req : ReverseTransactionRequest)
      (idempotencyKey : String)
  | upsertRate (req : UpsertRateRequest)
  | dispatch (limit : Int)
  | quote (req : QuoteRequest)
  | read (req : ReadRequest)
  | health

/-- The endpoint of a route, for the tenant in the context. -/
def Route.endpoint (tenantId : String) : Route → Endpoint
  | .openAccount req => openAccountEndpoint tenantId req
  | .transfer req key => createTransfer tenantId req key
  | .placeHold req key => placeHoldEndpoint tenantId req key
  | .captureHold holdId req => captureHoldEndpoint tenantId holdId req
  | .releaseHold holdId => releaseHoldEndpoint tenantId holdId
  | .reverseTransaction id req key => reverseTransactionEndpoint tenantId id req key
  | .upsertRate req => upsertRateEndpoint tenantId req
  | .dispatch limit => dispatchEndpoint tenantId limit
  | .quote req => quoteEndpoint req
  | .read (.account id) => getAccountEndpoint tenantId id
  | .read (.balance id) => getBalanceEndpoint tenantId id
  | .read (.journal id after limit _) => getAccountJournalEndpoint tenantId id after limit
  | .read (.events status limit) => listEventsEndpoint tenantId status limit
  | .read (.idempotencyKey name key) => getIdempotencyKeyEndpoint tenantId name key
  | .read (.statement id start stop) => statementCsv id start stop
  | .read .imports => listImports tenantId
  | .read (.exceptions resolved) => listExceptions resolved
  | .health => pure ⟨200, .health⟩

/-- The route asks for no tenant. -/
def Route.isPublic : Route → Bool
  | .health => true
  | _ => false

/-- A request: the header that says whose it is, and its route. -/
structure HttpRequest where
  authorization : Option String
  route : Route

/-- The settings of a deployment that decide whose a request is. -/
structure Auth where
  hmac : Hmac
  authSecret : String

/-- What the application runs for a request. -/
def HttpRequest.program (auth : Auth) (r : HttpRequest) : Endpoint :=
  match answered auth.hmac auth.authSecret r.route.isPublic r.authorization with
  | .serverError _ => pure serverError
  | .httpException code detail => pure ⟨code, .detail detail⟩
  | .handled tenantId => r.route.endpoint (tenantId.getD "")

/-- What runs beside each other: requests, and passes of the sweep. -/
inductive Client where
  | request (r : HttpRequest)
  | sweeper (minAge : Time)

/-- The program of a client; a pass answers nobody. -/
def Client.program (auth : Auth) : Client → Prog Database Write Resource Err (Option Response)
  | .request r => some <$> r.program auth
  | .sweeper minAge => (Request.sweep minAge).program >>= fun _ => pure none

/-- One session for each client, none of them started. -/
def deploy {ι : Type} (auth : Auth) (clients : ι → Client) (d : Database) (clock : Time) :
    Sys ι Database Write Resource Err (Option Response) :=
  { shared := ⟨d, clock, []⟩, sess := fun i => ⟨(clients i).program auth, {}⟩ }

end Ledger
