import Ledger.Data.Session
import Ledger.Schemas

/-! # Accounts, Balances and the Posting Engine

    * `services/balances_service.py`: the posted figure from the snapshot, the
      held figure summed live, `available = posted - held`.
    * `services/postings_engine.py`: `postTransaction` writes a transaction,
      its postings and their snapshots in the caller's transaction, and leaves
      one outbox event pending.
    * `services/accounts_service.py`: `openAccount`.
-/

namespace Ledger

open ReadCommitted

/-! ## Balances -/

/-- An account's posted balance and what its holds reserve. -/
structure Balance where
  posted : Int
  held : Int
  deriving DecidableEq

/-- Posted minus funds reserved by active, unexpired holds. -/
def Balance.available (b : Balance) : Int := b.posted - b.held

/-- The hold counts against the account's available balance at `now`. -/
def Hold.reserves (h : Hold) (tenantId : String) (account : UUID) (now : Time) : Bool :=
  h.accountId = account && h.tenantId = tenantId && h.state = .ACTIVE && now < h.expiresAt

namespace Database

/-- `SELECT coalesce(sum(amount), 0)` over the holds that count. -/
def heldTotal (d : Database) (tenantId : String) (account : UUID) (now : Time) : Int :=
  d.holds.total (fun h => h.reserves tenantId account now) Hold.amount

/-- `SELECT coalesce(sum(amount), 0)` over the account's postings. -/
def recompute (d : Database) (account : UUID) : Int :=
  d.postings.total (fun p => p.accountId = account) Posting.amount

/-- The balance figures of a committed state at `now`. -/
def availableBalance (d : Database) (tenantId : String) (account : UUID) (now : Time) :
    Option Balance :=
  match d.balances.find? account with
  | some b =>
    if b.tenantId = tenantId then some ⟨b.balance, d.heldTotal tenantId account now⟩ else none
  | none => none

end Database

/-- The snapshot balance, or `none` if unknown. -/
def currentBalance (tenantId : String) (account : UUID) : Svc (Option Int) := do
  let snapshot ← Svc.getBalance account
  match snapshot with
  | none => return none
  -- another tenant's snapshot is reported like a missing one
  | some b => return if b.tenantId ≠ tenantId then none else some b.balance

/-- The posted and held balances, or `none` if the account is unknown. -/
def availableBalance (tenantId : String) (account : UUID) : Svc (Option Balance) := do
  let posted ← currentBalance tenantId account
  match posted with
  | none => return none
  | some posted =>
    let held ← Svc.select fun d now => d.heldTotal tenantId account now
    return some { posted, held }

/-! ## Posting Engine -/

/-- A requested leg: a signed amount against one account. -/
structure PostingSpec where
  accountId : UUID
  amount : Minor
  effectiveAt : Time
  deriving DecidableEq

/-- Write the legs one by one, folding each into its snapshot. -/
def postLegs (tenantId : String) (txn : UUID) : List PostingSpec → Svc Unit
  | [] => return ()
  | spec :: specs => do
    let id ← Svc.uuid4
    let createdAt ← Svc.now
    Svc.add (.insPosting
      { id, transactionId := txn, accountId := spec.accountId, amount := spec.amount,
        effectiveAt := spec.effectiveAt, createdAt })
    -- the row goes to the database before its snapshot is updated
    Svc.flush
    Svc.updateBalance tenantId spec.accountId spec.amount id
    postLegs tenantId txn specs

/-- The self-contained summary of a transaction. -/
def outboxPayload [Runtime] (tenantId : String) (txn : Transaction) (specs : List PostingSpec) :
    Json := .obj
  [("transaction_id", .uuid txn.id),
   ("tenant_id", .str tenantId),
   ("memo", .str txn.memo),
   ("corrects_id", .opt .uuid txn.correctsId),
   ("postings", .arr (specs.map fun spec => .obj
     [("account_id", .uuid spec.accountId),
      ("amount", .int spec.amount),
      ("effective_at", .str (Runtime.isoformat spec.effectiveAt))]))]

/-- Leave the durable event of a transaction pending. -/
def enqueueOutboxEvent [Runtime] (tenantId : String) (txn : Transaction)
    (specs : List PostingSpec) : Svc Unit := do
  let id ← Svc.uuid4
  let createdAt ← Svc.now
  Svc.add (.insOutbox
    { id, tenantId, transactionId := txn.id, eventType := "transaction.posted",
      payload := (outboxPayload tenantId txn specs).dumps .spaced, createdAt })

/-- Validate, write, and fold a balanced transaction into the snapshots. -/
def postTransaction [Runtime] (tenantId : String) (specs : List PostingSpec) (memo : String := "")
    (correctsId : Option UUID := none) : Svc Transaction :=
  if specs.length < 2 then
    Svc.raise (.unbalancedTransaction "a transaction needs at least two postings")
  else if (specs.map PostingSpec.amount).sum ≠ 0 then
    Svc.raise (.unbalancedTransaction
      s!"postings sum to {(specs.map PostingSpec.amount).sum}, must be 0")
  else do
    let id ← Svc.uuid4
    let createdAt ← Svc.now
    let txn : Transaction := { id, tenantId, memo, correctsId, createdAt }
    Svc.add (.insTransaction txn)
    -- the legs refer to this row
    Svc.flush
    postLegs tenantId txn.id specs
    -- the event waits in the session for the caller's commit
    enqueueOutboxEvent tenantId txn specs
    return txn

/-! ## Accounts -/

/-- An account of the acting tenant that is open, or the service's error. -/
def requireAccount (tenantId : String) (account : UUID) : Svc Account := do
  let found ← Svc.select fun d _ => d.accounts.find? account
  match found with
  | some a =>
    -- a foreign or closed account is reported like a missing one
    if a.tenantId ≠ tenantId ∨ a.isOpen = false then
      Svc.raise (.insufficientFunds s!"account {account.str} not found or closed")
    else return a
  | none => Svc.raise (.insufficientFunds s!"account {account.str} not found or closed")

/-- Create an account and its zero balance snapshot atomically. -/
def openAccount (tenantId : String) (req : OpenAccountRequest) : Svc AccountResponse := do
  let id ← Svc.uuid4
  let createdAt ← Svc.now
  let account : Account :=
    { id, tenantId, path := req.path, name := req.name, normalBalance := req.normalBalance,
      currency := req.currency, createdAt }
  Svc.add (.insAccount account)
  Svc.flush
  Svc.add (.insBalance { accountId := account.id, tenantId, balance := 0 })
  Svc.commit
  return { id := account.id, path := account.path, name := account.name,
           normalBalance := account.normalBalance, currency := account.currency, balance := 0,
           isOpen := account.isOpen }

end Ledger
