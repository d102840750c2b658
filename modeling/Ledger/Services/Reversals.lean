import Ledger.Services.Transfers

/-! # Reversals

    A reversal is a new transaction whose legs negate an earlier one's
    (`services/reversals_service.py`).
-/

namespace Ledger

open ReadCommitted

/-- The endpoint of the reversals' idempotency keys. -/
def REVERSE_ENDPOINT : String := "reversals.create"

/-- A transaction of the acting tenant, or the service's error. -/
def requireTransaction (tenantId : String) (transactionId : UUID) : Svc Transaction := do
  let found ← Svc.select fun d _ => d.transactions.find? transactionId
  match found with
  | some t =>
    if t.tenantId ≠ tenantId then
      Svc.raise (.transactionNotFound s!"transaction {transactionId.str} not found")
    else return t
  | none => Svc.raise (.transactionNotFound s!"transaction {transactionId.str} not found")

namespace Database

/-- The tenant's transactions that correct the given one. -/
def reversalsOf (d : Database) (tenantId : String) (transactionId : UUID) : List Transaction :=
  d.transactions.rows.filter fun t => t.tenantId = tenantId && t.correctsId = some transactionId

/-- The postings of a transaction. -/
def postingsOf (d : Database) (transactionId : UUID) : List Posting :=
  d.postings.rows.filter fun p => p.transactionId = transactionId

/-- They come in no particular order: the query has no `ORDER BY`. -/
def selectPostings [Runtime] (d : Database) (transactionId : UUID) : List Posting :=
  Runtime.unordered (d.postingsOf transactionId)

theorem selectPostings_perm [Runtime] (d : Database) (transactionId : UUID) :
    (d.selectPostings transactionId).Perm (d.postingsOf transactionId) :=
  Runtime.unordered_perm _

@[simp] theorem mem_selectPostings [Runtime] {d : Database} {transactionId : UUID} {p : Posting} :
    p ∈ d.selectPostings transactionId ↔ p ∈ d.postingsOf transactionId :=
  (d.selectPostings_perm transactionId).mem_iff

end Database

/-- The negated legs of a list of postings. -/
def reversed (postings : List Posting) (effectiveAt : Time) : List PostingSpec :=
  postings.map fun p => ⟨p.accountId, negate p.amount, effectiveAt⟩

/-- Post a compensating transaction that negates every leg of a transaction. -/
def reverseTransaction [Runtime] (tenantId : String) (transactionId : UUID)
    (req : ReverseTransactionRequest) (idempotencyKey : String) : Svc (Nat × ReversalResponse) := do
  let body := req.modelDump transactionId
  let replay ← lookup tenantId REVERSE_ENDPOINT idempotencyKey body
  match replay with
  | some replay => replayed ReversalResponse.modelValidate replay
  | none =>
    let original ← requireTransaction tenantId transactionId
    if original.correctsId ≠ none then
      Svc.raise (.cannotReverseReversal
        s!"transaction {transactionId.str} is itself a reversal and cannot be reversed")
    else do
      -- nothing is locked between this look and the commit
      let existing ← Svc.select fun d _ => d.reversalsOf tenantId transactionId
      if existing ≠ [] then
        Svc.raise (.alreadyReversed s!"transaction {transactionId.str} already has a reversal")
      else do
        let postings ← Svc.select fun d _ => d.selectPostings transactionId
        if postings = [] then
          Svc.raise (.transactionNotFound s!"transaction {transactionId.str} has no postings")
        else do
          let effectiveAt ← Svc.now
          let reversal ← postTransaction tenantId (reversed postings effectiveAt)
            (if req.memo = "" then s!"reversal of {transactionId.str}" else req.memo)
            (some transactionId)
          let response : ReversalResponse :=
            { id := reversal.id, correctsId := transactionId, memo := reversal.memo,
              createdAt := reversal.createdAt }
          -- the record and the reversal are one commit
          record tenantId REVERSE_ENDPOINT idempotencyKey body response.modelDump
          Svc.commit
          return (200, response)

end Ledger
