import Ledger.Framework.Calendar
import Ledger.Framework.Text
import Ledger.Schemas

/-! # Partition Routing

    `data/database/partitioning.py`: the routing key of a row, the name and
    the bounds of its child table, and the statements that create it.

    * **Reading**: `readBound`, the instant a bound is the text of, as the
      database reads it.
-/

namespace Ledger

open Calendar
open ReadCommitted (Time)

/-- Both tables share the routing key. -/
def PARTITIONED_TABLES : List String := ["transactions", "postings"]

/-- Identifies the child partition a row belongs to. -/
structure PartitionKey where
  tenantId : String
  year : Nat
  month : Nat
  deriving DecidableEq

/-- The tenant in a table name. -/
def PartitionKey.safeTenant (key : PartitionKey) : String :=
  let safe := Text.replace key.tenantId '-' '_'
  if safe = "" then "default" else safe

/-- Table-name suffix, e.g. `acme_2026_07`. -/
def PartitionKey.suffix (key : PartitionKey) : String :=
  key.safeTenant ++ "_" ++ Text.zfill 4 key.year ++ "_" ++ Text.zfill 2 key.month

/-- Resolve the partition a row is written to. -/
def route (tenantId : String) (effectiveAt : DateTime) : PartitionKey :=
  { tenantId, year := effectiveAt.year, month := effectiveAt.month }

/-- `ValueError`. -/
structure ValueError where
  msg : String
  deriving DecidableEq

/-- Physical child-partition name for a parent table and routing key. -/
def childTableName [Runtime] (table : String) (key : PartitionKey) : Except ValueError String :=
  if table ∉ PARTITIONED_TABLES then
    .error ⟨Runtime.repr table ++ " is not a partitioned table"⟩
  else .ok (table ++ "_p_" ++ key.suffix)

/-- The first of a month as a bound has it. -/
def boundText (year month : Nat) : String :=
  Text.zfill 4 year ++ "-" ++ (Text.zfill 2 month ++ "-" ++ "01T00:00:00+00:00")

/-- Half-open `[start, end)` bounds for a month partition. -/
def monthBounds (key : PartitionKey) : String × String :=
  let start := boundText key.year key.month
  let (endYear, endMonth) :=
    if key.month = 12 then (key.year + 1, 1) else (key.year, key.month + 1)
  (start, boundText endYear endMonth)

/-- A child table, as its statement declares it. -/
structure Child where
  name : String
  parent : String
  start : String
  stop : String

/-- The statement that creates a child. -/
def Child.create (c : Child) : String :=
  "CREATE TABLE IF NOT EXISTS " ++ c.name ++ " PARTITION OF " ++ c.parent ++
    " FOR VALUES FROM ('" ++ c.start ++ "') TO ('" ++ c.stop ++ "');"

/-- One child for every partitioned table. -/
def children [Runtime] (key : PartitionKey) : Except ValueError (List Child) :=
  PARTITIONED_TABLES.mapM fun table => do
    let child ← childTableName table key
    return { name := child, parent := table, start := (monthBounds key).1,
             stop := (monthBounds key).2 }

/-- SQL that creates one tenant/month child for every partitioned table. -/
def partitionDdl [Runtime] (key : PartitionKey) : Except ValueError String := do
  let cs ← children key
  let postingsChild ← childTableName "postings" key
  let trigger :=
    "CREATE CONSTRAINT TRIGGER " ++ postingsChild ++ "_balance_check " ++
    "AFTER INSERT ON " ++ postingsChild ++ " " ++
    "DEFERRABLE INITIALLY DEFERRED " ++
    "FOR EACH ROW EXECUTE FUNCTION assert_transaction_balances();"
  return "\n".intercalate (cs.map Child.create ++ [trigger])

/-! ## Bounds -/

/-- The instant of a bound: a year, a month, and the start of its first day in UTC. -/
def readBound (s : String) : Option Time :=
  let year := Text.partition s '-'
  let month := Text.partition year.2.2 '-'
  if month.2.2 = "01T00:00:00+00:00" then
    some (monthStart (Text.readNat year.1) (Text.readNat month.1))
  else none

/-- The instant is within the bounds. -/
def within (bounds : String × String) (effectiveAt : Time) : Prop :=
  ∃ start ∈ readBound bounds.1, ∃ stop ∈ readBound bounds.2,
    start ≤ effectiveAt ∧ effectiveAt < stop

/-- The bounds of a child admit a row: they are on the instant alone. -/
def Child.Admits (c : Child) (_tenantId : String) (effectiveAt : Time) : Prop :=
  within (c.start, c.stop) effectiveAt

end Ledger
