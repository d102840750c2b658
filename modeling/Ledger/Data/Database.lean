import Ledger.Data.Tables

/-! # The Database

    * **State**: `Database`, one table for each model.
    * **Writes**: `Write`, what the statements of the services do to rows,
      with the constraints that can reject them (`constrain`), their effect
      (`apply`) and the row locks they keep (`locks`).
    * **Frame lemmas**: a write changes one table only.
-/

namespace Ledger

open ReadCommitted

/-- What a request can raise.  The message is that of the source where the
    source gives one. -/
inductive Err where
  | insufficientFunds (msg : String)
  | currencyMismatch (msg : String)
  | idempotencyConflict (msg : String)
  | holdNotFound (msg : String)
  | holdState (msg : String)
  | transactionNotFound (msg : String)
  | alreadyReversed (msg : String)
  | cannotReverseReversal (msg : String)
  | unbalancedTransaction (msg : String)
  | conversionAccountMissing (msg : String)
  | rateUnavailable (msg : String)
  /-- A unique or foreign key rejects a row. -/
  | integrityError
  /-- A number does not fit its column. -/
  | dataError
  /-- `scalar_one_or_none` found several rows. -/
  | multipleResultsFound
  /-- The decimal context signals. -/
  | invalidOperation
  /-- A stored response does not parse. -/
  | validationError
  | assertionError
  /-- The process dies. -/
  | killed
  deriving DecidableEq, Repr

/-- The tables. -/
structure Database where
  accounts : Table Account
  balances : Table AccountBalance
  transactions : Table Transaction
  postings : Table Posting
  outbox : Table OutboxEvent
  holds : Table Hold
  records : Table IdempotencyRecord
  rates : Table FxRate
  imports : Table StatementImport
  lines : Table StatementLine
  exceptions : Table ReconciliationException

/-- The database after the migrations. -/
def Database.empty : Database :=
  ⟨.empty, .empty, .empty, .empty, .empty, .empty, .empty, .empty, .empty, .empty, .empty⟩

/-- The names of the tables that are written. -/
inductive TableName where
  | accounts | balances | transactions | postings | outbox | holds | records | rates | imports
  | lines
  deriving DecidableEq

/-- What a transaction waits for and keeps. -/
inductive Resource where
  /-- `pg_advisory_xact_lock`. -/
  | advisory (key : Nat)
  /-- A row, by its table and primary key. -/
  | row (table : TableName) (id : UUID)
  /-- A row of the idempotency records. -/
  | record (key : RecordKey)
  deriving DecidableEq

/-! ## Writes -/

/-- The effect of one data-changing statement. -/
inductive Write where
  | insAccount (r : Account)
  | insBalance (r : AccountBalance)
  | insTransaction (r : Transaction)
  | insPosting (r : Posting)
  | insOutbox (r : OutboxEvent)
  | insHold (r : Hold)
  | insRecord (r : IdempotencyRecord)
  | insRate (r : FxRate)
  | insImport (r : StatementImport)
  | insLine (r : StatementLine)
  /-- Fold a posting into a snapshot. -/
  | bump (account : UUID) (amount : Int) (posting : UUID)
  | captureHold (id transaction : UUID) (amount : Int) (time : Time)
  | releaseHold (id : UUID) (time : Time)
  | publish (id : UUID) (time : Time)
  | deleteRecords (keys : List RecordKey)
  deriving DecidableEq

namespace Write

/-- The table a write changes. -/
def table : Write → TableName
  | insAccount _ => .accounts
  | insBalance _ => .balances
  | insTransaction _ => .transactions
  | insPosting _ => .postings
  | insOutbox _ => .outbox
  | insHold _ => .holds
  | insRecord _ => .records
  | insRate _ => .rates
  | insImport _ => .imports
  | insLine _ => .lines
  | bump .. => .balances
  | captureHold .. => .holds
  | releaseHold .. => .holds
  | publish .. => .outbox
  | deleteRecords _ => .records

/-- The row locks of the statement. -/
def locks : Write → List Resource
  | insAccount r => [.row .accounts r.id]
  | insBalance r => [.row .balances r.accountId]
  | insTransaction r => [.row .transactions r.id]
  | insPosting r => [.row .postings r.id]
  | insOutbox r => [.row .outbox r.id]
  | insHold r => [.row .holds r.id]
  | insRecord r => [.record r.id]
  | insRate r => [.row .rates r.id]
  | insImport r => [.row .imports r.id]
  | insLine r => [.row .lines r.id]
  | bump a _ _ => [.row .balances a]
  | captureHold id _ _ _ => [.row .holds id]
  | releaseHold id _ => [.row .holds id]
  | publish id _ => [.row .outbox id]
  | deleteRecords ks => ks.map .record

end Write

/-- The row of a snapshot after one posting. -/
def AccountBalance.fold (b : AccountBalance) (amount : Int) (posting : UUID) : AccountBalance :=
  { b with balance := b.balance + amount, version := b.version + 1, asOfPostingId := some posting }

/-- The row of a hold after its capture. -/
def Hold.capture (h : Hold) (transaction : UUID) (amount : Int) (time : Time) : Hold :=
  { h with
    state := .CAPTURED, capturedTransactionId := some transaction, capturedAmount := some amount,
    resolvedAt := some time }

/-- The row of a hold after its release. -/
def Hold.release (h : Hold) (time : Time) : Hold :=
  { h with state := .RELEASED, resolvedAt := some time }

/-- The row of an event after its dispatch. -/
def OutboxEvent.publish (e : OutboxEvent) (time : Time) : OutboxEvent :=
  { e with status := .PUBLISHED, publishedAt := some time }

theorem AccountBalance.key_fold (amount : Int) (posting : UUID) (b : AccountBalance) :
    Keyed.key (b.fold amount posting) = Keyed.key b := rfl

theorem Hold.key_capture (transaction : UUID) (amount : Int) (time : Time) (h : Hold) :
    Keyed.key (h.capture transaction amount time) = Keyed.key h := rfl

theorem Hold.key_release (time : Time) (h : Hold) : Keyed.key (h.release time) = Keyed.key h := rfl

theorem OutboxEvent.key_publish (time : Time) (e : OutboxEvent) :
    Keyed.key (e.publish time) = Keyed.key e := rfl

namespace Database

/-- The database after one write. -/
def apply (d : Database) : Write → Database
  | .insAccount r => { d with accounts := d.accounts.insert r }
  | .insBalance r => { d with balances := d.balances.insert r }
  | .insTransaction r => { d with transactions := d.transactions.insert r }
  | .insPosting r => { d with postings := d.postings.insert r }
  | .insOutbox r => { d with outbox := d.outbox.insert r }
  | .insHold r => { d with holds := d.holds.insert r }
  | .insRecord r => { d with records := d.records.insert r }
  | .insRate r => { d with rates := d.rates.insert r }
  | .insImport r => { d with imports := d.imports.insert r }
  | .insLine r => { d with lines := d.lines.insert r }
  | .bump a amount p =>
    { d with
      balances :=
        d.balances.modify a (fun b => b.fold amount p) (AccountBalance.key_fold amount p) }
  | .captureHold id t amount time =>
    { d with
      holds :=
        d.holds.modify id (fun h => h.capture t amount time) (Hold.key_capture t amount time) }
  | .releaseHold id time =>
    { d with holds := d.holds.modify id (fun h => h.release time) (Hold.key_release time) }
  | .publish id time =>
    { d with outbox := d.outbox.modify id (fun e => e.publish time) (OutboxEvent.key_publish time) }
  | .deleteRecords ks => { d with records := d.records.erase ks }

/-- The range of a `BIGINT` column. -/
def bigint (i : Int) : Bool := -2 ^ 63 ≤ i && i < 2 ^ 63

/-- The range of an `INTEGER` column. -/
def integer (i : Int) : Bool := -2 ^ 31 ≤ i && i < 2 ^ 31

/-- A check of a column. -/
def require (b : Bool) (e : Err) : Except Err Unit := if b then .ok () else .error e

/-- The constraints a statement is checked against: the ranges of its
    numbers, its foreign keys and its primary key. -/
def constrain (d : Database) : Write → Except Err Unit
  | .insAccount r => require (d.accounts.find? r.id).isNone .integrityError
  | .insBalance r => do
    require (bigint r.balance && integer r.version) .dataError
    require (d.accounts.find? r.accountId).isSome .integrityError
    require (d.balances.find? r.accountId).isNone .integrityError
  | .insTransaction r => do
    require (r.correctsId.all fun t => (d.transactions.find? t).isSome) .integrityError
    require (d.transactions.find? r.id).isNone .integrityError
  | .insPosting r => do
    require (bigint r.amount) .dataError
    require (d.transactions.find? r.transactionId).isSome .integrityError
    require (d.accounts.find? r.accountId).isSome .integrityError
    require (d.postings.find? r.id).isNone .integrityError
  | .insOutbox r => do
    require (d.transactions.find? r.transactionId).isSome .integrityError
    require (d.outbox.find? r.id).isNone .integrityError
  | .insHold r => do
    require (bigint r.amount) .dataError
    require (d.accounts.find? r.accountId).isSome .integrityError
    require (d.holds.find? r.id).isNone .integrityError
  | .insRecord r => require (d.records.find? r.id).isNone .integrityError
  | .insRate r => do
    require (r.units < 10 ^ 20) .dataError
    require (d.rates.find? r.id).isNone .integrityError
  | .insImport r => do
    require (d.accounts.find? r.accountId).isSome .integrityError
    require (d.imports.find? r.id).isNone .integrityError
  | .insLine r => do
    require (bigint r.amount) .dataError
    require (d.imports.find? r.importId).isSome .integrityError
    require (d.lines.find? r.id).isNone .integrityError
  | .bump a amount _ =>
    require ((d.balances.find? a).all fun b =>
      bigint amount && bigint (b.balance + amount) && integer (b.version + 1)) .dataError
  | .captureHold _ t amount _ => do
    require (bigint amount) .dataError
    require (d.transactions.find? t).isSome .integrityError
  | .releaseHold .. => .ok ()
  | .publish .. => .ok ()
  | .deleteRecords _ => .ok ()

instance : Dbms Database Write Resource where
  apply := apply
  locks := Write.locks
  admits d w := d.constrain w = .ok ()

theorem dbms_apply (d : Database) (w : Write) : Dbms.apply d w = d.apply w := rfl
theorem dbms_locks (w : Write) : Dbms.locks Database w = w.locks := rfl
theorem dbms_admits (d : Database) (w : Write) : Dbms.admits d w ↔ d.constrain w = .ok () := Iff.rfl

@[simp] theorem require_eq_ok {b : Bool} {e : Err} : require b e = .ok () ↔ b = true := by
  cases b <;> simp [require]

theorem bind_eq_ok {x y : Except Err Unit} :
    (do x; y) = .ok () ↔ x = .ok () ∧ y = .ok () := by
  cases x <;> simp [bind, Except.bind]

/-! ## Fresh Rows

    An insert that was let through is of a new row. -/

section fresh

variable {d : Database}

theorem fresh_account {r : Account} (h : d.constrain (.insAccount r) = .ok ()) :
    d.accounts.find? r.id = none := by
  simpa [constrain] using h

theorem fresh_balance {r : AccountBalance} (h : d.constrain (.insBalance r) = .ok ()) :
    d.balances.find? r.accountId = none := by
  simp only [constrain, bind_eq_ok, require_eq_ok, Option.isNone_iff_eq_none] at h
  exact h.2.2

theorem fresh_transaction {r : Transaction} (h : d.constrain (.insTransaction r) = .ok ()) :
    d.transactions.find? r.id = none := by
  simp only [constrain, bind_eq_ok, require_eq_ok, Option.isNone_iff_eq_none] at h
  exact h.2

theorem fresh_posting {r : Posting} (h : d.constrain (.insPosting r) = .ok ()) :
    d.postings.find? r.id = none := by
  simp only [constrain, bind_eq_ok, require_eq_ok, Option.isNone_iff_eq_none] at h
  exact h.2.2.2

theorem fresh_outbox {r : OutboxEvent} (h : d.constrain (.insOutbox r) = .ok ()) :
    d.outbox.find? r.id = none := by
  simp only [constrain, bind_eq_ok, require_eq_ok, Option.isNone_iff_eq_none] at h
  exact h.2

theorem fresh_hold {r : Hold} (h : d.constrain (.insHold r) = .ok ()) :
    d.holds.find? r.id = none := by
  simp only [constrain, bind_eq_ok, require_eq_ok, Option.isNone_iff_eq_none] at h
  exact h.2.2

theorem fresh_rate {r : FxRate} (h : d.constrain (.insRate r) = .ok ()) :
    d.rates.find? r.id = none := by
  simp only [constrain, bind_eq_ok, require_eq_ok, Option.isNone_iff_eq_none] at h
  exact h.2

theorem fresh_import {r : StatementImport} (h : d.constrain (.insImport r) = .ok ()) :
    d.imports.find? r.id = none := by
  simp only [constrain, bind_eq_ok, require_eq_ok, Option.isNone_iff_eq_none] at h
  exact h.2

theorem fresh_line {r : StatementLine} (h : d.constrain (.insLine r) = .ok ()) :
    d.lines.find? r.id = none := by
  simp only [constrain, bind_eq_ok, require_eq_ok, Option.isNone_iff_eq_none] at h
  exact h.2.2

end fresh

/-! ## Frame Lemmas -/

section frame

variable {d : Database} {w : Write} {ws : List Write}

theorem apply_accounts (h : w.table ≠ .accounts) : (d.apply w).accounts = d.accounts := by
  cases w <;> first | rfl | exact absurd rfl h

theorem apply_balances (h : w.table ≠ .balances) : (d.apply w).balances = d.balances := by
  cases w <;> first | rfl | exact absurd rfl h

theorem apply_transactions (h : w.table ≠ .transactions) :
    (d.apply w).transactions = d.transactions := by
  cases w <;> first | rfl | exact absurd rfl h

theorem apply_postings (h : w.table ≠ .postings) : (d.apply w).postings = d.postings := by
  cases w <;> first | rfl | exact absurd rfl h

theorem apply_outbox (h : w.table ≠ .outbox) : (d.apply w).outbox = d.outbox := by
  cases w <;> first | rfl | exact absurd rfl h

theorem apply_holds (h : w.table ≠ .holds) : (d.apply w).holds = d.holds := by
  cases w <;> first | rfl | exact absurd rfl h

theorem apply_records (h : w.table ≠ .records) : (d.apply w).records = d.records := by
  cases w <;> first | rfl | exact absurd rfl h

theorem apply_rates (h : w.table ≠ .rates) : (d.apply w).rates = d.rates := by
  cases w <;> first | rfl | exact absurd rfl h

theorem replay_accounts (h : ∀ w ∈ ws, w.table ≠ .accounts) :
    (replay d ws).accounts = d.accounts :=
  replay_induction (P := fun d' => d'.accounts = d.accounts) d rfl
    fun _ w hw hd => (apply_accounts (h w hw)).trans hd

theorem replay_balances (h : ∀ w ∈ ws, w.table ≠ .balances) :
    (replay d ws).balances = d.balances :=
  replay_induction (P := fun d' => d'.balances = d.balances) d rfl
    fun _ w hw hd => (apply_balances (h w hw)).trans hd

theorem replay_transactions (h : ∀ w ∈ ws, w.table ≠ .transactions) :
    (replay d ws).transactions = d.transactions :=
  replay_induction (P := fun d' => d'.transactions = d.transactions) d rfl
    fun _ w hw hd => (apply_transactions (h w hw)).trans hd

theorem replay_postings (h : ∀ w ∈ ws, w.table ≠ .postings) :
    (replay d ws).postings = d.postings :=
  replay_induction (P := fun d' => d'.postings = d.postings) d rfl
    fun _ w hw hd => (apply_postings (h w hw)).trans hd

theorem replay_outbox (h : ∀ w ∈ ws, w.table ≠ .outbox) : (replay d ws).outbox = d.outbox :=
  replay_induction (P := fun d' => d'.outbox = d.outbox) d rfl
    fun _ w hw hd => (apply_outbox (h w hw)).trans hd

theorem replay_holds (h : ∀ w ∈ ws, w.table ≠ .holds) : (replay d ws).holds = d.holds :=
  replay_induction (P := fun d' => d'.holds = d.holds) d rfl
    fun _ w hw hd => (apply_holds (h w hw)).trans hd

theorem replay_records (h : ∀ w ∈ ws, w.table ≠ .records) :
    (replay d ws).records = d.records :=
  replay_induction (P := fun d' => d'.records = d.records) d rfl
    fun _ w hw hd => (apply_records (h w hw)).trans hd

theorem replay_rates (h : ∀ w ∈ ws, w.table ≠ .rates) : (replay d ws).rates = d.rates :=
  replay_induction (P := fun d' => d'.rates = d.rates) d rfl
    fun _ w hw hd => (apply_rates (h w hw)).trans hd

end frame

end Database

end Ledger
