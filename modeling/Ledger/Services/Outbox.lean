import Ledger.Data.Session
import Ledger.Schemas

/-! # Outbox and Statement Imports

    * `services/outbox_service.py`: list a tenant's events and mark the
      pending ones as published.
    * `services/reconciliation_importer.py`: import an external statement once.
-/

namespace Ledger

open ReadCommitted

/-- The order of events: creation time, then id. -/
def OutboxEvent.before (a b : OutboxEvent) : Prop :=
  a.createdAt < b.createdAt ∨ (a.createdAt = b.createdAt ∧ a.id.toNat ≤ b.id.toNat)

instance : DecidableRel OutboxEvent.before := fun a b => by
  unfold OutboxEvent.before; infer_instance

/-- The tenant's events, oldest first, optionally filtered by status. -/
def Database.events (d : Database) (tenantId : String) (status : Option OutboxStatus)
    (limit : Nat) : List OutboxEvent :=
  ((d.outbox.rows.filter fun e => e.tenantId = tenantId && status.all (e.status = ·)).insertionSort
    OutboxEvent.before).take limit

theorem mem_events {d : Database} {tenantId : String} {status : Option OutboxStatus} {limit : Nat}
    {e : OutboxEvent} (h : e ∈ d.events tenantId status limit) :
    e ∈ d.outbox.rows ∧ e.tenantId = tenantId ∧ ∀ s ∈ status, e.status = s := by
  have hmem := List.mem_of_mem_take h
  rw [List.mem_insertionSort, List.mem_filter] at hmem
  obtain ⟨hrow, hselected⟩ := hmem
  simp only [Bool.and_eq_true, decide_eq_true_eq] at hselected
  refine ⟨hrow, hselected.1, ?_⟩
  rintro s hs
  have hall := hselected.2
  rw [Option.mem_def.mp hs] at hall
  simpa using hall

/-- Return this tenant's events; a negative `LIMIT` is rejected by the database. -/
def listEvents (tenantId : String) (status : Option OutboxStatus) (limit : Int) :
    Svc (List OutboxEvent) :=
  if limit < 0 then Svc.raise .dataError
  else Svc.select fun d _ => d.events tenantId status limit.toNat

/-- Leave the updates of the dispatched events pending. -/
def markPublished (time : Time) : List OutboxEvent → Svc Unit
  | [] => return ()
  | e :: es => do
    Svc.add (.publish e.id time)
    markPublished time es

/-- Mark up to `limit` pending events as published, oldest first. -/
def dispatchPending (tenantId : String) (limit : Int) : Svc (List OutboxEvent) := do
  let pending ← listEvents tenantId (some .PENDING) limit
  let t ← Svc.now
  markPublished t pending
  -- with nothing to mark, nothing is committed
  if pending = [] then return []
  else do
    Svc.commit
    return pending.map fun e => e.publish t

/-! ## Statement Imports -/

/-- One normalized statement line prior to persistence. -/
structure ParsedLine where
  amount : Int
  valueDate : Int
  externalRef : String := ""

/-- Outcome of an import attempt. -/
structure ImportResult where
  importId : UUID
  created : Bool
  lineCount : Nat
  deriving DecidableEq

/-- Add the lines of an import. -/
def addLines (importId : UUID) : List ParsedLine → Svc Unit
  | [] => return ()
  | line :: lines => do
    let id ← Svc.uuid4
    Svc.add (.insLine
      { id, importId, amount := line.amount, valueDate := line.valueDate,
        externalRef := line.externalRef })
    addLines importId lines

/-- The tenant's imports of a file. -/
def Database.importsOf (d : Database) (tenantId fileHash : String) : List StatementImport :=
  d.imports.rows.filter fun i => i.tenantId = tenantId && i.fileHash = fileHash

/-- Persist a statement's lines once, keyed by content hash. -/
def importStatement [Runtime] (tenantId : String) (account : UUID) (raw : String)
    (lines : List ParsedLine) : Svc ImportResult := do
  let digest := Runtime.sha256 raw
  -- neither a lock nor a constraint keeps the answer true
  let existing ← Svc.select fun d _ => d.importsOf tenantId digest
  match existing with
  | found :: _ => return { importId := found.id, created := false, lineCount := 0 }
  | [] =>
    let id ← Svc.uuid4
    let importedAt ← Svc.now
    Svc.add (.insImport { id, tenantId, accountId := account, fileHash := digest, importedAt })
    -- the lines refer to this row
    Svc.flush
    addLines id lines
    Svc.commit
    return { importId := id, created := true, lineCount := lines.length }

end Ledger
