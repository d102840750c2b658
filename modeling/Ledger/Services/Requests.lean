import Ledger.Services.Holds
import Ledger.Services.Reversals
import Ledger.Services.Outbox

/-! # Requests

    What the application is asked to do, each request as the program of its
    own session.  The acting tenant is part of the request: it comes from the
    authenticated context, never from a body.
-/

namespace Ledger

open ReadCommitted

/-- A request that may change the database. -/
inductive Request where
  | openAccount (tenantId : String) (req : OpenAccountRequest)
  /-- A direct use of the posting engine, committed by its caller. -/
  | post (tenantId : String) (specs : List PostingSpec) (memo : String)
  | transfer (tenantId : String) (req : TransferRequest) (key : String)
  | placeHold (tenantId : String) (req : PlaceHoldRequest) (key : String)
  | captureHold (tenantId : String) (hold : UUID) (req : CaptureHoldRequest)
  | releaseHold (tenantId : String) (hold : UUID)
  | reverse (tenantId : String) (transaction : UUID) (req : ReverseTransactionRequest)
      (key : String)
  | upsertRate (tenantId : String) (req : UpsertRateRequest)
  | dispatch (tenantId : String) (limit : Int)
  | importStatement (tenantId : String) (account : UUID) (raw : String) (lines : List ParsedLine)
  /-- A pass of the background sweep. -/
  | sweep (minAge : Time)

/-- What a request returns. -/
inductive Reply where
  | account (r : AccountResponse)
  | posted (txn : Transaction)
  | transfer (status : Nat) (r : TransferResponse)
  | placed (status : Nat) (r : HoldResponse)
  | hold (r : HoldResponse)
  | reversal (status : Nat) (r : ReversalResponse)
  | rate (id : UUID)
  | dispatched (events : List OutboxEvent)
  | imported (r : ImportResult)
  | swept (r : SweepResult)
  deriving DecidableEq

/-- Post and commit. -/
def postAndCommit [Runtime] (tenantId : String) (specs : List PostingSpec) (memo : String) :
    Svc Transaction := do
  let txn ← postTransaction tenantId specs memo
  Svc.commit
  return txn

/-- The service function a request calls. -/
def Request.service [Runtime] : Request → Svc Reply
  | openAccount t req => Reply.account <$> Ledger.openAccount t req
  | post t specs memo => Reply.posted <$> postAndCommit t specs memo
  | transfer t req key => (fun r => Reply.transfer r.1 r.2) <$> executeTransfer t req key
  | placeHold t req key => (fun r => Reply.placed r.1 r.2) <$> Ledger.placeHold t req key
  | captureHold t hold req => Reply.hold <$> Ledger.captureHold t hold req
  | releaseHold t hold => Reply.hold <$> Ledger.releaseHold t hold
  | reverse t txn req key => (fun r => Reply.reversal r.1 r.2) <$> reverseTransaction t txn req key
  | upsertRate t req => Reply.rate <$> Ledger.upsertRate t req
  | dispatch t limit => Reply.dispatched <$> dispatchPending t limit
  | importStatement t account raw lines =>
    Reply.imported <$> Ledger.importStatement t account raw lines
  | sweep minAge => Reply.swept <$> sweepOnce minAge

/-- The program of the session that serves a request. -/
def Request.program [Runtime] (r : Request) : Prog Database Write Resource Err Reply :=
  (r.service {}) >>= fun p => pure p.1

end Ledger
