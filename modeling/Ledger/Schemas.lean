import Ledger.Data.Tables

/-! # Requests and Responses

    The shapes of the API (`schemas/*.py`), with the JSON they dump to and are
    validated from.

    * A bound on a request's field (`gt=0`) is a field of the request.
    * `Runtime` collects what is not in the repository: the hash, the text of
      instants and quoted strings, the order of a query that names none, and
      the setting of a deployment.
-/

namespace Ledger

open ReadCommitted (Time)

/-- The library functions the services call, the order of rows that the database
    chooses, and the setting of the deployment. -/
class Runtime where
  /-- `hashlib.sha256(text.encode()).hexdigest()`. -/
  sha256 : String → String
  /-- `datetime.isoformat()`. -/
  isoformat : Time → String
  /-- An instant in JSON mode, as the schemas dump it. -/
  dumpTime : Time → String
  /-- An instant as the schemas validate it. -/
  loadTime : String → Option Time
  /-- `repr` of a string. -/
  repr : String → String
  /-- `settings.hold_default_ttl_minutes`. -/
  holdDefaultTtlMinutes : Int
  /-- The order in which a query without `ORDER BY` returns the postings. -/
  unordered : List Posting → List Posting
  unordered_perm : ∀ postings, (unordered postings).Perm postings

/-- What a schema dumps as an instant, it validates to the same instant. -/
def Runtime.TimesRoundTrip [Runtime] : Prop :=
  ∀ t : Time, Runtime.loadTime (Runtime.dumpTime t) = some t

/-! ## Fields of JSON Objects -/

end Ledger

namespace Json

open Ledger
open ReadCommitted (Time)

/-- The value of a field. -/
def field? (key : String) : Json → Option Json
  | .obj fs => (fs.find? fun f => f.1 = key).map Prod.snd
  | _ => none

/-- An optional value. -/
def opt {α : Type} (f : α → Json) : Option α → Json
  | some a => f a
  | none => .null

/-- An identifier in JSON mode. -/
def uuid (u : UUID) : Json := .str u.str

/-- An instant in JSON mode. -/
def time [Runtime] (t : Time) : Json := .str (Runtime.dumpTime t)

/-- Validate an integer. -/
def toInt? : Json → Option Int
  | .int i => some i
  | _ => none

/-- Validate a string. -/
def toStr? : Json → Option String
  | .str s => some s
  | _ => none

/-- Validate an identifier. -/
def toUuid? : Json → Option UUID
  | .str s => UUID.parse? s
  | _ => none

theorem toUuid?_uuid (u : UUID) : (uuid u).toUuid? = some u := by
  unfold uuid toUuid?
  exact UUID.parse?_str u

/-- Validate an instant. -/
def toTime? [Runtime] : Json → Option Time
  | .str s => Runtime.loadTime s
  | _ => none

/-- Validate an optional value. -/
def toOpt? {α : Type} (f : Json → Option α) : Json → Option (Option α)
  | .null => some none
  | j => (f j).map some

/-- Validate the state of a hold. -/
def toHoldState? : Json → Option HoldState
  | .str s =>
    if s = HoldState.ACTIVE.value then some .ACTIVE
    else if s = HoldState.CAPTURED.value then some .CAPTURED
    else if s = HoldState.RELEASED.value then some .RELEASED
    else none
  | _ => none

end Json

namespace Ledger

open ReadCommitted (Time)

/-! ## Accounts -/

/-- Open a new account under a dotted path. -/
structure OpenAccountRequest where
  path : String
  name : String
  normalBalance : NormalBalance
  currency : Currency

/-- An account with its materialized balance. -/
structure AccountResponse where
  id : UUID
  path : String
  name : String
  normalBalance : NormalBalance
  currency : Currency
  balance : Int
  isOpen : Bool
  deriving DecidableEq

/-! ## Transfers -/

/-- Move `amount` minor units from one account to another. -/
structure TransferRequest where
  sourceAccountId : UUID
  destinationAccountId : UUID
  amount : Int
  memo : String := ""
  /-- Optional backdating. -/
  effectiveAt : Option Time := none
  amount_pos : 0 < amount

/-- `req.model_dump(mode="json")`. -/
def TransferRequest.modelDump [Runtime] (r : TransferRequest) : Json := .obj
  [("source_account_id", .uuid r.sourceAccountId),
   ("destination_account_id", .uuid r.destinationAccountId),
   ("amount", .int r.amount),
   ("memo", .str r.memo),
   ("effective_at", .opt .time r.effectiveAt)]

/-- The committed transaction id and the resulting balances. -/
structure TransferResponse where
  transactionId : UUID
  sourceBalance : Int
  destinationBalance : Int
  deriving DecidableEq

namespace TransferResponse

/-- `response.model_dump(mode="json")`. -/
def modelDump (r : TransferResponse) : Json := .obj
  [("transaction_id", .uuid r.transactionId),
   ("source_balance", .int r.sourceBalance),
   ("destination_balance", .int r.destinationBalance)]

/-- `TransferResponse.model_validate`. -/
def modelValidate (j : Json) : Option TransferResponse := do
  let transactionId ← (← j.field? "transaction_id").toUuid?
  let sourceBalance ← (← j.field? "source_balance").toInt?
  let destinationBalance ← (← j.field? "destination_balance").toInt?
  return { transactionId, sourceBalance, destinationBalance }

theorem modelValidate_modelDump (r : TransferResponse) : modelValidate r.modelDump = some r := by
  simp [modelValidate, modelDump, Json.field?, Json.uuid, Json.toUuid?, Json.toInt?,
    UUID.parse?_str]

end TransferResponse

/-! ## Holds -/

/-- Reserve `amount` minor units on an account. -/
structure PlaceHoldRequest where
  accountId : UUID
  amount : Int
  memo : String := ""
  /-- Optional expiry. -/
  expiresAt : Option Time := none
  amount_pos : 0 < amount

/-- `req.model_dump(mode="json")`. -/
def PlaceHoldRequest.modelDump [Runtime] (r : PlaceHoldRequest) : Json := .obj
  [("account_id", .uuid r.accountId),
   ("amount", .int r.amount),
   ("memo", .str r.memo),
   ("expires_at", .opt .time r.expiresAt)]

/-- Capture a hold into a transfer to a destination account. -/
structure CaptureHoldRequest where
  destinationAccountId : UUID
  /-- Up to the held amount; the full hold if omitted. -/
  amount : Option Int := none
  memo : String := ""
  amount_pos : ∀ a ∈ amount, 0 < a

/-- A hold's state with the account's resulting balances. -/
structure HoldResponse where
  id : UUID
  accountId : UUID
  amount : Int
  state : HoldState
  expiresAt : Time
  capturedTransactionId : Option UUID := none
  capturedAmount : Option Int := none
  postedBalance : Int
  availableBalance : Int
  deriving DecidableEq

namespace HoldResponse

/-- `response.model_dump(mode="json")`. -/
def modelDump [Runtime] (r : HoldResponse) : Json := .obj
  [("id", .uuid r.id),
   ("account_id", .uuid r.accountId),
   ("amount", .int r.amount),
   ("state", .str r.state.value),
   ("expires_at", .time r.expiresAt),
   ("captured_transaction_id", .opt .uuid r.capturedTransactionId),
   ("captured_amount", .opt .int r.capturedAmount),
   ("posted_balance", .int r.postedBalance),
   ("available_balance", .int r.availableBalance)]

/-- `HoldResponse.model_validate`. -/
def modelValidate [Runtime] (j : Json) : Option HoldResponse := do
  let id ← (← j.field? "id").toUuid?
  let accountId ← (← j.field? "account_id").toUuid?
  let amount ← (← j.field? "amount").toInt?
  let state ← (← j.field? "state").toHoldState?
  let expiresAt ← (← j.field? "expires_at").toTime?
  let capturedTransactionId ← ((j.field? "captured_transaction_id").getD .null).toOpt? Json.toUuid?
  let capturedAmount ← ((j.field? "captured_amount").getD .null).toOpt? Json.toInt?
  let postedBalance ← (← j.field? "posted_balance").toInt?
  let availableBalance ← (← j.field? "available_balance").toInt?
  return { id, accountId, amount, state, expiresAt, capturedTransactionId, capturedAmount,
           postedBalance, availableBalance }

theorem toHoldState?_value (s : HoldState) : (Json.str s.value).toHoldState? = some s := by
  cases s <;> decide

theorem toOpt?_opt_uuid (u : Option UUID) :
    (Json.opt Json.uuid u).toOpt? Json.toUuid? = some u := by
  cases u with
  | none => rfl
  | some u => simp [Json.opt, Json.uuid, Json.toOpt?, Json.toUuid?, UUID.parse?_str]

theorem toOpt?_opt_int (i : Option Int) : (Json.opt Json.int i).toOpt? Json.toInt? = some i := by
  cases i <;> rfl

theorem modelValidate_modelDump [Runtime] (htime : Runtime.TimesRoundTrip) (r : HoldResponse) :
    modelValidate r.modelDump = some r := by
  have hid := UUID.parse?_str r.id
  have hacc := UUID.parse?_str r.accountId
  have hexp := htime r.expiresAt
  simp [modelValidate, modelDump, Json.field?, toOpt?_opt_uuid, toOpt?_opt_int,
    toHoldState?_value, Json.uuid, Json.toUuid?, Json.toInt?, Json.time, Json.toTime?, hid, hacc,
    hexp]

end HoldResponse

/-! ## Reversals -/

/-- Reverse a transaction in full. -/
structure ReverseTransactionRequest where
  memo : String := ""
  deriving DecidableEq

/-- `req.model_dump(mode="json") | {"transaction_id": str(transaction_id)}`. -/
def ReverseTransactionRequest.modelDump (r : ReverseTransactionRequest) (transactionId : UUID) :
    Json := .obj
  [("memo", .str r.memo),
   ("transaction_id", .uuid transactionId)]

/-- The compensating transaction. -/
structure ReversalResponse where
  id : UUID
  correctsId : UUID
  memo : String
  createdAt : Time
  deriving DecidableEq

namespace ReversalResponse

/-- `response.model_dump(mode="json")`. -/
def modelDump [Runtime] (r : ReversalResponse) : Json := .obj
  [("id", .uuid r.id),
   ("corrects_id", .uuid r.correctsId),
   ("memo", .str r.memo),
   ("created_at", .time r.createdAt)]

/-- `ReversalResponse.model_validate`. -/
def modelValidate [Runtime] (j : Json) : Option ReversalResponse := do
  let id ← (← j.field? "id").toUuid?
  let correctsId ← (← j.field? "corrects_id").toUuid?
  let memo ← (← j.field? "memo").toStr?
  let createdAt ← (← j.field? "created_at").toTime?
  return { id, correctsId, memo, createdAt }

theorem modelValidate_modelDump [Runtime] (htime : Runtime.TimesRoundTrip)
    (r : ReversalResponse) : modelValidate r.modelDump = some r := by
  have hid := UUID.parse?_str r.id
  have hcor := UUID.parse?_str r.correctsId
  have ht := htime r.createdAt
  simp [modelValidate, modelDump, Json.field?, Json.uuid, Json.toUuid?, Json.toStr?, Json.time,
    Json.toTime?, hid, hcor, ht]

end ReversalResponse

/-! ## Rates -/

/-- Publish a new effective rate for an ordered pair. -/
structure UpsertRateRequest where
  baseCurrency : Currency
  quoteCurrency : Currency
  rate : Decimal
  source : String := "manual"
  effectiveAt : Option Time := none
  rate_pos : rate.neg = false ∧ 0 < rate.coeff

end Ledger
