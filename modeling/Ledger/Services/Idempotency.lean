import Ledger.Data.Session
import Ledger.Schemas

/-! # Idempotency Records

    * `services/idempotency_store.py`: `lookup` before a keyed request
      executes, `record` in the transaction that executes it.
    * `services/idempotency_sweeper.py`: `sweepOnce` deletes old records.
-/

namespace Ledger

open ReadCommitted

/-- A stored result to return instead of re-executing. -/
structure Replay where
  statusCode : Nat
  body : Json

/-- SHA-256 over the canonicalized request body. -/
def fingerprint [Runtime] (body : Json) : String :=
  Runtime.sha256 (body.sortKeys.dumps .compact)

/-- What a stored record answers a request with this body. -/
def replayOf [Runtime] (key : String) (body : Json) (r : IdempotencyRecord) :
    Except Err Replay :=
  if r.requestFingerprint ≠ fingerprint body then
    .error (.idempotencyConflict s!"key {Runtime.repr key} reused with a different body")
  else
    match Json.loads r.responseJson with
    | some j => .ok ⟨r.statusCode, j⟩
    | none => .error .validationError

/-- Return a replay if this key was already completed; raise on a body mismatch. -/
def lookup [Runtime] (tenantId endpoint key : String) (body : Json) : Svc (Option Replay) := do
  let existing ← Svc.select fun d _ => d.records.find? ⟨tenantId, endpoint, key⟩
  match existing with
  | none => return none
  -- a record with another body is a conflict, not a replay
  | some r =>
    match replayOf key body r with
    | .ok replay => return some replay
    | .error e => Svc.raise e

/-- Persist the result in the caller's transaction. -/
def record [Runtime] (tenantId endpoint key : String) (body response : Json)
    (statusCode : Nat := 200) : Svc Unit := do
  let createdAt ← Svc.now
  Svc.add (.insRecord
    { id := ⟨tenantId, endpoint, key⟩, requestFingerprint := fingerprint body,
      responseJson := response.dumps .spaced, statusCode, createdAt })

/-- Return the validated replay, or fail as validation does. -/
def replayed {α : Type} (validate : Json → Option α) (replay : Replay) : Svc (Nat × α) :=
  match validate replay.body with
  | some response => return (replay.statusCode, response)
  | none => Svc.raise .validationError

/-! ## Sweeper -/

/-- `timedelta(hours=24)`. -/
def DEFAULT_MIN_AGE : Time := 24 * 3600 * 1000000

/-- Counts from a single sweep pass. -/
structure SweepResult where
  reclaimed : Nat
  retained : Nat
  deriving DecidableEq

/-- The keys of the records created before `cutoff`. -/
def Database.swept (d : Database) (cutoff : Time) : List RecordKey :=
  (d.records.rows.filter fun r => r.createdAt < cutoff).map IdempotencyRecord.id

/-- `DELETE ... WHERE created_at < cutoff RETURNING key`. -/
def deleteBefore (cutoff : Time) : Svc Nat := fun o =>
  .stmt (fun d _ => .ok ((d.swept cutoff).length, [.deleteRecords (d.swept cutoff)]))
    fun n => .ret (n, o)

/-- Delete the records older than `minAge` and report the tally. -/
def sweepOnce (minAge : Time) : Svc SweepResult := do
  let t ← Svc.now
  let reclaimed ← deleteBefore (t - minAge)
  -- what is left is counted after the deletion
  let retained ← Svc.select fun d _ => d.records.rows.length
  Svc.commit
  return { reclaimed, retained }

end Ledger
