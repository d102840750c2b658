import Ledger.Services.Requests

/-! # Read Surfaces

    The endpoints that only read, each as a function of the acting tenant and
    the committed rows (`routers/*.py` and the services behind them).

    * A query with an `ORDER BY` that leaves ties, or without one, answers in
      the order the rows were inserted.
    * `now` is the `now()` of the request's transaction.
-/

namespace Ledger

open ReadCommitted

/-! ## Accounts and Balances -/

/-- Fetch an account with its current balance, or `none` if not this tenant's. -/
def Database.getAccount (d : Database) (tenantId : String) (accountId : UUID) :
    Option AccountResponse :=
  match d.accounts.find? accountId with
  | none => none
  | some account =>
    if account.tenantId ≠ tenantId then none
    else
      let balance := d.balances.find? accountId
      some
        { id := account.id, path := account.path, name := account.name,
          normalBalance := account.normalBalance, currency := account.currency,
          balance := (balance.map AccountBalance.balance).getD 0, isOpen := account.isOpen }

/-- The posted, held and available balances of an account. -/
structure BalanceResponse where
  accountId : String
  posted : Int
  held : Int
  available : Int
  /-- Retained for callers that predate the split. -/
  balance : Int
  deriving DecidableEq

/-! ## Journal -/

/-- `DEFAULT_PAGE_SIZE`. -/
def DEFAULT_PAGE_SIZE : Nat := 50

/-- One posting against an account, with its parent transaction's context. -/
structure JournalEntry where
  postingId : UUID
  transactionId : UUID
  amount : Int
  effectiveAt : Time
  createdAt : Time
  memo : String
  correctsId : Option UUID
  deriving DecidableEq

/-- A page of an account's posting history, oldest first. -/
structure AccountJournalResponse where
  accountId : UUID
  entries : List JournalEntry
  nextCursor : Option Time
  deriving DecidableEq

/-- The entry of a posting joined with its transaction. -/
def journalEntry (row : Posting × Transaction) : JournalEntry :=
  { postingId := row.1.id, transactionId := row.2.id, amount := row.1.amount,
    effectiveAt := row.1.effectiveAt, createdAt := row.1.createdAt, memo := row.2.memo,
    correctsId := row.2.correctsId }

/-- `ORDER BY effective_at, id`. -/
def journalOrder (a b : Posting × Transaction) : Prop :=
  a.1.effectiveAt < b.1.effectiveAt ∨
    (a.1.effectiveAt = b.1.effectiveAt ∧ a.1.id.toNat ≤ b.1.id.toNat)

instance : DecidableRel journalOrder := fun a b => by unfold journalOrder; infer_instance

namespace Database

/-- Postings joined with their transactions. -/
def joined (d : Database) (postings : List Posting) : List (Posting × Transaction) :=
  postings.filterMap fun p => (d.transactions.find? p.transactionId).map fun t => (p, t)

/-- Up to `limit` postings of an account, oldest first; `none` if it is not
    this tenant's.  `after` is an exclusive cursor on `effective_at`. -/
def accountJournal (d : Database) (tenantId : String) (accountId : UUID) (after : Option Time)
    (limit : Nat := DEFAULT_PAGE_SIZE) : Option (List JournalEntry) :=
  match d.accounts.find? accountId with
  | none => none
  | some account =>
    if account.tenantId ≠ tenantId then none
    else
      let postings := d.postings.rows.filter fun p =>
        p.accountId = accountId && after.all (· < p.effectiveAt)
      some ((((d.joined postings).insertionSort journalOrder).take limit).map journalEntry)

end Database

/-! ## Outbox and Idempotency Keys -/

/-- A durable event, its delivery status, and its decoded payload. -/
structure OutboxEventResponse where
  id : UUID
  transactionId : UUID
  eventType : String
  payload : List (String × Json)
  status : OutboxStatus
  createdAt : Time
  publishedAt : Option Time

/-- Build a response from the stored row, decoding its JSON payload. -/
def OutboxEventResponse.fromRow (event : OutboxEvent) : Option OutboxEventResponse :=
  match Json.loads event.payload with
  | some (.obj payload) =>
    some { id := event.id, transactionId := event.transactionId, eventType := event.eventType,
           payload, status := event.status, createdAt := event.createdAt,
           publishedAt := event.publishedAt }
  | _ => none

/-- Status of a single stored idempotency key. -/
structure IdempotencyKeyResponse where
  endpoint : String
  key : String
  statusCode : Nat
  createdAt : Time
  sweptAt : Time
  deriving DecidableEq

/-- Project when the sweeper will reclaim the record. -/
def IdempotencyKeyResponse.fromRow (record : IdempotencyRecord) (minAge : Time) :
    IdempotencyKeyResponse :=
  { endpoint := record.id.endpoint, key := record.id.key, statusCode := record.statusCode,
    createdAt := record.createdAt, sweptAt := record.createdAt + minAge }

/-! ## Statements -/

/-- One line in a rendered statement, with a running balance. -/
structure StatementRow where
  postingId : UUID
  effectiveAt : Time
  amount : Int
  runningBalance : Int
  deriving DecidableEq

/-- `ORDER BY effective_at, created_at`. -/
def statementOrder (a b : Posting) : Prop :=
  a.effectiveAt < b.effectiveAt ∨ (a.effectiveAt = b.effectiveAt ∧ a.createdAt ≤ b.createdAt)

instance : DecidableRel statementOrder := fun a b => by unfold statementOrder; infer_instance

/-- The rows of a list of postings, carrying a running balance. -/
def statementRows (running : Int) : List Posting → List StatementRow
  | [] => []
  | p :: ps => ⟨p.id, p.effectiveAt, p.amount, running + p.amount⟩ ::
      statementRows (running + p.amount) ps

/-- The postings of an account in the window `[start, stop)`. -/
def Database.windowOf (d : Database) (accountId : UUID) (start stop : Time) : List Posting :=
  d.postings.rows.filter fun p =>
    p.accountId = accountId && start ≤ p.effectiveAt && p.effectiveAt < stop

/-- Statement rows in effective-time order, carrying a running balance. -/
def Database.streamStatement (d : Database) (accountId : UUID) (start stop : Time)
    (openingBalance : Int := 0) : List StatementRow :=
  statementRows openingBalance ((d.windowOf accountId start stop).insertionSort statementOrder)

/-- The chunks of the CSV. -/
def csv [Runtime] (rows : List StatementRow) : List String :=
  "effective_at,amount,running_balance\n" :: rows.map fun r =>
    s!"{Runtime.isoformat r.effectiveAt},{r.amount},{r.runningBalance}\n"

/-! ## Endpoints -/

/-- A read, with its arguments as the router validates them. -/
inductive ReadRequest where
  | account (accountId : UUID)
  | balance (accountId : UUID)
  | journal (accountId : UUID) (after : Option Time) (limit : Nat)
      (bounds : 1 ≤ limit ∧ limit ≤ 200)
  | events (status : Option OutboxStatus) (limit : Int)
  | idempotencyKey (endpoint key : String)
  | statement (accountId : UUID) (start stop : Time)
  | imports
  | exceptions (resolved : Bool)

/-- What a read answers. -/
inductive ReadResponse where
  | account (r : AccountResponse)
  | balance (r : BalanceResponse)
  | journal (r : AccountJournalResponse)
  | events (rs : List OutboxEventResponse)
  | idempotencyKey (r : IdempotencyKeyResponse)
  | statement (chunks : List String)
  /-- The id, account and file hash of each import. -/
  | imports (rs : List (String × String × String))
  /-- The id, kind and line of each exception. -/
  | exceptions (rs : List (String × String × String))
  | httpException (statusCode : Nat) (detail : String)
  /-- A server error. -/
  | error (e : Err)

namespace Database

variable [Runtime]

/-- `GET /balances/{account_id}`. -/
def getBalanceEndpoint (d : Database) (tenantId : String) (accountId : UUID) (now : Time) :
    ReadResponse :=
  match d.availableBalance tenantId accountId now with
  | none => .httpException 404 "Account not found"
  | some balance => .balance
      { accountId := accountId.str, posted := balance.posted, held := balance.held,
        available := balance.available, balance := balance.posted }

/-- `GET /admin/accounts/{account_id}/journal`. -/
def getAccountJournalEndpoint (d : Database) (tenantId : String) (accountId : UUID)
    (after : Option Time) (limit : Nat) : ReadResponse :=
  match d.accountJournal tenantId accountId after limit with
  | none => .httpException 404 "Account not found"
  | some entries => .journal
      { accountId, entries,
        nextCursor :=
          if entries.length = limit then entries.getLast?.map JournalEntry.effectiveAt else none }

/-- `GET /outbox`. -/
def listEventsEndpoint (d : Database) (tenantId : String) (status : Option OutboxStatus)
    (limit : Int) : ReadResponse :=
  if limit < 0 then .error .dataError
  else match (d.events tenantId status limit.toNat).mapM OutboxEventResponse.fromRow with
    | none => .error .validationError
    | some events => .events events

/-- `GET /idempotency/{endpoint}/{key}`. -/
def getIdempotencyKeyEndpoint (d : Database) (tenantId endpoint key : String) : ReadResponse :=
  match d.records.find? ⟨tenantId, endpoint, key⟩ with
  | none => .httpException 404 "No idempotency record for this key (never seen, or already swept)"
  | some record => .idempotencyKey (.fromRow record DEFAULT_MIN_AGE)

/-- `GET /reconciliation/imports`. -/
def listImports (d : Database) (tenantId : String) : ReadResponse :=
  .imports ((d.imports.rows.filter fun i => i.tenantId = tenantId).map fun i =>
    (i.id.str, i.accountId.str, i.fileHash))

/-- `GET /reconciliation/exceptions`: the query does not mention the tenant. -/
def listExceptions (d : Database) (resolved : Bool) : ReadResponse :=
  .exceptions ((d.exceptions.rows.filter fun e => e.resolved = resolved).map fun e =>
    (e.id.str, e.kind.value, e.lineId.str))

/-- What a read answers to the acting tenant. -/
def read (d : Database) (tenantId : String) (now : Time) : ReadRequest → ReadResponse
  | .account accountId =>
    match d.getAccount tenantId accountId with
    | none => .httpException 404 "Account not found"
    | some account => .account account
  | .balance accountId => d.getBalanceEndpoint tenantId accountId now
  | .journal accountId after limit _ => d.getAccountJournalEndpoint tenantId accountId after limit
  | .events status limit => d.listEventsEndpoint tenantId status limit
  | .idempotencyKey endpoint key => d.getIdempotencyKeyEndpoint tenantId endpoint key
  -- the route does not look at the account's tenant
  | .statement accountId start stop => .statement (csv (d.streamStatement accountId start stop))
  | .imports => d.listImports tenantId
  | .exceptions resolved => d.listExceptions resolved

end Database

end Ledger
