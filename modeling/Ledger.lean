import Ledger.Framework.Table
import Ledger.Framework.Prog
import Ledger.Framework.Interleaving
import Ledger.Framework.RelyGuarantee
import Ledger.Framework.Trace
import Ledger.Framework.Paging
import Ledger.Framework.Sorting
import Ledger.Framework.Json
import Ledger.Framework.Decimal
import Ledger.Money.Types
import Ledger.Data.Tables
import Ledger.Data.Database
import Ledger.Data.Session
import Ledger.Schemas
import Ledger.Services.Idempotency
import Ledger.Services.Postings
import Ledger.Services.Transfers
import Ledger.Services.Holds
import Ledger.Services.Reversals
import Ledger.Services.Outbox
import Ledger.Services.Requests
import Ledger.Services.Reads
import Ledger.Runs.Engine
import Ledger.Runs.Transfer
import Ledger.Runs.Hold
import Ledger.Runs.Reversal
import Ledger.Runs.Effects
import Ledger.Runs.Sessions
import Ledger.Runs.Replays
import Ledger.Runs.Steps
import Ledger.Properties.NoOverdraft
import Ledger.Properties.ExactlyOnce
import Ledger.Properties.HoldResolution
import Ledger.Properties.Representation
import Ledger.Properties.SingleReversal
import Ledger.Properties.Reservations
import Ledger.Properties.Undo
import Ledger.Properties.Currencies
import Ledger.Properties.TenantIsolation
import Ledger.Properties.Journal
import Ledger.Properties.Statements
import Ledger.Properties.Rates
import Ledger.Runs.Outcomes
import Ledger.Properties.TenantWrites
import Ledger.Properties.OutboxLedger
import Ledger.Properties.HoldLifecycle
import Ledger.Properties.ClosedPeriods
import Ledger.Framework.Histories
import Ledger.Framework.Stability
import Ledger.Framework.Atomicity
import Ledger.Runs.Dispatches
import Ledger.Runs.Checks
import Ledger.Properties.Delivery
import Ledger.Properties.DeliveryOrder
import Ledger.Framework.Deadlock
import Ledger.Framework.Completion
import Ledger.Runs.Inserts
import Ledger.Runs.Movements
import Ledger.Runs.LockOrder
import Ledger.Properties.Deadlocks
import Ledger.Properties.Completion
import Ledger.Framework.DecimalRounding
import Ledger.Money.Conversion
import Ledger.Properties.Conversions
import Ledger.Properties.PositiveRates
import Ledger.Runs.IdentityMap
import Ledger.Properties.NetEffect
import Ledger.Properties.HoldBalances
import Ledger.Framework.Solo
import Ledger.Runs.Alone
import Ledger.Properties.EngineFolds
import Ledger.Runs.Admission
import Ledger.Runs.TransferAlone
import Ledger.Properties.CleanFailures
import Ledger.Properties.StatementImports
import Ledger.Properties.Batches
import Ledger.Api.RequestContext
import Ledger.Api.Routes
import Ledger.Properties.Tokens
import Ledger.Properties.Fingerprints
import Ledger.Properties.Matching
import Ledger.Data.Partitioning
import Ledger.Properties.Partitions
import Ledger.Api.Lifespan
import Ledger.Properties.Sweeping
import Ledger.Framework.DoubleEntry
import Ledger.Properties.Commits
import Ledger.Properties.Interleavings
import Ledger.Properties.Integrity
import Ledger.Properties.Durability
import Ledger.Properties.Provenance
import Ledger.Properties.Confluence
import Ledger.Properties.Endpoints
import Ledger.Properties.Reading
import Ledger.Properties.Quotes
import Ledger.Properties.Drift
