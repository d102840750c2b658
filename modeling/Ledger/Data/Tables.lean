import Ledger.Framework.Table
import Ledger.Framework.Prog
import Ledger.Framework.Json
import Ledger.Money.Types

/-! # Rows

    The rows of the database, with every column (`data/tables/*.py`).

    * An instant is a number of microseconds; a naive and an aware datetime
      that denote the same instant are the same.
    * What a column admits by its Python type or by the request schema that
      feeds it is part of the row: a hold reserves a positive amount, a rate
      is a non-negative number of ten-decimal units.
-/

namespace Ledger

open ReadCommitted (Time)

/-! ## Identifiers -/

/-- `uuid.UUID`. -/
abbrev UUID := BitVec 128

instance : LawfulBEq UUID := instLawfulBEq

namespace UUID

/-- The 16-bit units of an identifier, the last one first. -/
def unit (u : UUID) (i : Nat) : Nat := u.toNat / 65536 ^ i % 65536

/-- `str(u)`. -/
def str (u : UUID) : String := String.ofList <|
  Json.hex4 (u.unit 7) ++ Json.hex4 (u.unit 6) ++ '-' :: Json.hex4 (u.unit 5) ++
  '-' :: Json.hex4 (u.unit 4) ++ '-' :: Json.hex4 (u.unit 3) ++
  '-' :: Json.hex4 (u.unit 2) ++ Json.hex4 (u.unit 1) ++ Json.hex4 (u.unit 0)

/-- Read one unit. -/
def readUnit : List Char → Option (Nat × List Char)
  | a :: b :: c :: d :: cs => (Json.unit? a b c d).map (·, cs)
  | _ => none

/-- Read a unit after a dash. -/
def readDashed : List Char → Option (Nat × List Char)
  | '-' :: cs => readUnit cs
  | _ => none

/-- `UUID(s)`, for the text `str` writes. -/
def parse? (s : String) : Option UUID := do
  let (a, cs) ← readUnit s.toList
  let (b, cs) ← readUnit cs
  let (c, cs) ← readDashed cs
  let (d, cs) ← readDashed cs
  let (e, cs) ← readDashed cs
  let (f, cs) ← readDashed cs
  let (g, cs) ← readUnit cs
  let (h, cs) ← readUnit cs
  guard (cs = [])
  return BitVec.ofNat 128
    (((((((a * 65536 + b) * 65536 + c) * 65536 + d) * 65536 + e) * 65536 + f) * 65536 + g)
      * 65536 + h)

theorem readUnit_hex4 {n : Nat} (h : n < 65536) (cs : List Char) :
    readUnit (Json.hex4 n ++ cs) = some (n, cs) := by
  simp [Json.hex4, readUnit, Json.unit?_hex4 h]

theorem unit_lt (u : UUID) (i : Nat) : u.unit i < 65536 := Nat.mod_lt _ (by omega)

/-- The units of an identifier determine it. -/
theorem units (u : UUID) :
    ((((((u.unit 7 * 65536 + u.unit 6) * 65536 + u.unit 5) * 65536 + u.unit 4) * 65536 +
      u.unit 3) * 65536 + u.unit 2) * 65536 + u.unit 1) * 65536 + u.unit 0 = u.toNat := by
  have hu : u.toNat < 2 ^ 128 := u.isLt
  simp only [unit]
  omega

/-- The text of an identifier is read back. -/
theorem parse?_str (u : UUID) : parse? u.str = some u := by
  simp only [parse?, str, String.toList_ofList, List.append_assoc, List.cons_append,
    readUnit_hex4 (u.unit_lt _), readDashed, Option.bind_eq_bind, Option.bind_some]
  have hlast : readUnit (Json.hex4 (u.unit 0)) = some (u.unit 0, []) := by
    simpa using readUnit_hex4 (u.unit_lt 0) []
  simp [hlast, units]

end UUID

/-! ## Accounts and Snapshots -/

/-- Which side increases the account. -/
inductive NormalBalance where
  | DEBIT | CREDIT
  deriving DecidableEq, Repr

/-- A ledger account of one tenant in one currency. -/
structure Account where
  id : UUID
  tenantId : String
  /-- The dotted path in the chart of accounts. -/
  path : String
  name : String
  normalBalance : NormalBalance
  currency : Currency
  isOpen : Bool := true
  createdAt : Time
  deriving DecidableEq

/-- The materialized balance of an account. -/
structure AccountBalance where
  accountId : UUID
  tenantId : String
  balance : Int := 0
  /-- Bumped on every update. -/
  version : Int := 0
  /-- The posting folded last. -/
  asOfPostingId : Option UUID := none
  deriving DecidableEq

/-! ## The Append-Only Core -/

/-- A balanced set of postings. -/
structure Transaction where
  id : UUID
  tenantId : String
  memo : String := ""
  /-- The transaction this one reverses. -/
  correctsId : Option UUID := none
  createdAt : Time
  deriving DecidableEq

/-- One signed leg of a transaction. -/
structure Posting where
  id : UUID
  transactionId : UUID
  accountId : UUID
  amount : Int
  effectiveAt : Time
  createdAt : Time
  deriving DecidableEq

/-- Delivery state of an outbox event. -/
inductive OutboxStatus where
  | PENDING | PUBLISHED
  deriving DecidableEq, Repr

/-- A durable event about a transaction. -/
structure OutboxEvent where
  id : UUID
  tenantId : String
  transactionId : UUID
  eventType : String := "transaction.posted"
  payload : String
  status : OutboxStatus := .PENDING
  createdAt : Time
  publishedAt : Option Time := none
  deriving DecidableEq

/-! ## Holds -/

/-- The lifecycle of a hold. -/
inductive HoldState where
  | ACTIVE | CAPTURED | RELEASED
  deriving DecidableEq, Repr

/-- The value of the enumeration. -/
def HoldState.value : HoldState → String
  | ACTIVE => "active"
  | CAPTURED => "captured"
  | RELEASED => "released"

/-- A reservation of funds on one account. -/
structure Hold where
  id : UUID
  tenantId : String
  accountId : UUID
  amount : Int
  state : HoldState := .ACTIVE
  memo : String := ""
  /-- The reservation lapses here even if the hold is still `ACTIVE`. -/
  expiresAt : Time
  capturedTransactionId : Option UUID := none
  capturedAmount : Option Int := none
  createdAt : Time
  resolvedAt : Option Time := none
  /-- A hold reserves a positive amount. -/
  amount_pos : 0 < amount
  deriving DecidableEq

/-! ## Idempotency Records and Rates -/

/-- The primary key of an idempotency record. -/
structure RecordKey where
  tenantId : String
  endpoint : String
  key : String
  deriving DecidableEq

/-- A stored result for a client's key. -/
structure IdempotencyRecord where
  id : RecordKey
  requestFingerprint : String
  responseJson : String
  statusCode : Nat := 200
  createdAt : Time
  deriving DecidableEq

/-- One quoted rate for an ordered pair of currencies. -/
structure FxRate where
  id : UUID
  tenantId : String := ""
  baseCurrency : Currency
  quoteCurrency : Currency
  /-- Target per source in units of `10^-10`, the scale of the column. -/
  units : Nat
  source : String := "manual"
  effectiveAt : Time
  createdAt : Time
  deriving DecidableEq

/-- The `NUMERIC(20, 10)` value as it is read back. -/
def FxRate.rate (r : FxRate) : Decimal := ⟨false, r.units, -10⟩

/-! ## Reconciliation -/

/-- An imported external statement. -/
structure StatementImport where
  id : UUID
  tenantId : String
  accountId : UUID
  fileHash : String
  importedAt : Time
  deriving DecidableEq

/-- One line of an external statement; the value date counts days. -/
structure StatementLine where
  id : UUID
  importId : UUID
  amount : Int
  valueDate : Int
  externalRef : String := ""
  matchedPostingId : Option UUID := none
  deriving DecidableEq

/-- Why a line could not be matched. -/
inductive ExceptionKind where
  | UNMATCHED | AMBIGUOUS | AMOUNT_MISMATCH
  deriving DecidableEq, Repr

/-- The value of the enumeration. -/
def ExceptionKind.value : ExceptionKind → String
  | UNMATCHED => "unmatched"
  | AMBIGUOUS => "ambiguous"
  | AMOUNT_MISMATCH => "amount_mismatch"

/-- An unmatched line awaiting a human. -/
structure ReconciliationException where
  id : UUID
  lineId : UUID
  kind : ExceptionKind
  resolved : Bool := false
  deriving DecidableEq

/-! ## Primary Keys -/

instance : Keyed Account UUID := ⟨Account.id⟩
instance : Keyed AccountBalance UUID := ⟨AccountBalance.accountId⟩
instance : Keyed Transaction UUID := ⟨Transaction.id⟩
instance : Keyed Posting UUID := ⟨Posting.id⟩
instance : Keyed OutboxEvent UUID := ⟨OutboxEvent.id⟩
instance : Keyed Hold UUID := ⟨Hold.id⟩
instance : Keyed IdempotencyRecord RecordKey := ⟨IdempotencyRecord.id⟩
instance : Keyed FxRate UUID := ⟨FxRate.id⟩
instance : Keyed StatementImport UUID := ⟨StatementImport.id⟩
instance : Keyed StatementLine UUID := ⟨StatementLine.id⟩
instance : Keyed ReconciliationException UUID := ⟨ReconciliationException.id⟩

@[simp] theorem key_account (r : Account) : Keyed.key r = r.id := rfl
@[simp] theorem key_balance (r : AccountBalance) : Keyed.key r = r.accountId := rfl
@[simp] theorem key_transaction (r : Transaction) : Keyed.key r = r.id := rfl
@[simp] theorem key_posting (r : Posting) : Keyed.key r = r.id := rfl
@[simp] theorem key_outbox (r : OutboxEvent) : Keyed.key r = r.id := rfl
@[simp] theorem key_hold (r : Hold) : Keyed.key r = r.id := rfl
@[simp] theorem key_rate (r : FxRate) : Keyed.key r = r.id := rfl
@[simp] theorem key_import (r : StatementImport) : Keyed.key r = r.id := rfl
@[simp] theorem key_line (r : StatementLine) : Keyed.key r = r.id := rfl
@[simp] theorem key_record (r : IdempotencyRecord) : Keyed.key r = r.id := rfl

end Ledger
