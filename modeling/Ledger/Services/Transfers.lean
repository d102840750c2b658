import Ledger.Services.Postings
import Ledger.Services.Idempotency

/-! # Transfers

    * `services/transfers_locking.py`: the advisory lock of an account.
    * `services/fx_rates.py`, `routers/fx_routes.py`: the effective rate of a
      pair, and publishing one.
    * `services/fx_service.py`: a cross-currency movement as two transactions
      through a pair of conversion accounts.
    * `services/transfers_service.py`: `executeTransfer`.
-/

namespace Ledger

open ReadCommitted

/-! ## Locking -/

/-- `int.from_bytes(account_id.bytes[:8], "big") & 0x7FFF_FFFF_FFFF_FFFF`. -/
def lockKey (account : UUID) : Nat := account.toNat / 2 ^ 64 % 2 ^ 63

/-- Hold a transaction-scoped advisory lock on the account. -/
def accountLock (account : UUID) : Svc Unit := Svc.lock (.advisory (lockKey account))

/-! ## Rates -/

/-- A rate plus its provenance. -/
structure ResolvedRate where
  rate : Decimal
  source : String
  rateId : Option UUID
  effectiveAt : Time

/-- `Decimal(1)`. -/
def ONE : Decimal := ⟨false, 1, 0⟩

namespace Database

/-- The most recent effective row for an ordered pair at or before `asOf`;
    of rows with the same instant, the one inserted first. -/
def latest (d : Database) (base quote : Currency) (asOf : Time) : Option FxRate :=
  (d.rates.rows.filter fun r =>
    r.baseCurrency = base && r.quoteCurrency = quote && r.effectiveAt ≤ asOf).foldl
    (fun best r => match best with
      | some b => if b.effectiveAt < r.effectiveAt then some r else some b
      | none => some r) none

/-- The direct row as a resolved rate. -/
def directRate (r : FxRate) : ResolvedRate := ⟨r.rate, r.source, some r.id, r.effectiveAt⟩

/-- The reciprocal of the inverse row; `none` if its rate is zero. -/
def inverseRate (r : FxRate) : Option ResolvedRate :=
  (ONE.div r.rate).map fun q => ⟨q, s!"{r.source} (reciprocal)", some r.id, r.effectiveAt⟩

end Database

/-- Resolve the effective `base` to `quote` rate at `asOf`. -/
def resolveRate [Runtime] (base quote : Currency) (asOf : Time) : Svc ResolvedRate :=
  if base = quote then return ⟨ONE, "identity", none, asOf⟩
  else do
    let direct ← Svc.select fun d _ => d.latest base quote asOf
    match direct with
    | some r => return Database.directRate r
    | none =>
      -- no direct row: the reciprocal of the opposite pair's
      let inverse ← Svc.select fun d _ => d.latest quote base asOf
      match inverse.bind Database.inverseRate with
      | some r => return r
      | none =>
        Svc.raise
          (.rateUnavailable s!"no effective rate for {base.value}->{quote.value} at {Runtime.isoformat asOf}")

/-- A rate in units of the column's scale, rounded half away from zero. -/
def numeric (rate : Decimal) : Nat :=
  let e := rate.exp + 10
  -- nothing is lost on this side
  if 0 ≤ e then rate.coeff * 10 ^ e.toNat
  else (2 * rate.coeff + 10 ^ (-e).toNat) / (2 * 10 ^ (-e).toNat)

/-- An optional instant of a request, or the current time. -/
def orNow : Option Time → Svc Time
  | some t => return t
  | none => Svc.now

/-- Publish a new effective rate; a prior row is never updated. -/
def upsertRate (tenantId : String) (req : UpsertRateRequest) : Svc UUID := do
  let effectiveAt ← orNow req.effectiveAt
  let id ← Svc.uuid4
  let createdAt ← Svc.now
  Svc.add (.insRate
    { id, tenantId, baseCurrency := req.baseCurrency, quoteCurrency := req.quoteCurrency,
      units := numeric req.rate, source := req.source, effectiveAt, createdAt })
  Svc.commit
  return id

/-! ## Routing a Conversion -/

/-- The reserved prefix of conversion accounts. -/
def CONVERSION_PATH_PREFIX : String := "platform.fx.conversion"

/-- The path of the conversion account of a currency. -/
def conversionPath (currency : Currency) : String :=
  s!"{CONVERSION_PATH_PREFIX}.{currency.lower}"

/-- The tenant's open accounts on a path. -/
def Database.openAt (d : Database) (tenantId path : String) : List Account :=
  d.accounts.rows.filter fun a => a.tenantId = tenantId && a.path = path && a.isOpen

/-- Resolve the platform conversion account for one currency. -/
def conversionAccount (tenantId : String) (currency : Currency) : Svc Account := do
  let found ← Svc.select fun d _ => d.openAt tenantId (conversionPath currency)
  match found with
  | [] => Svc.raise (.conversionAccountMissing
      s!"no open conversion account at '{conversionPath currency}' for {currency.value}")
  | [a] => return a
  -- `scalar_one_or_none` refuses a second row
  | _ => Svc.raise .multipleResultsFound

/-- Annotate a leg's memo with the rate provenance. -/
def legMemo (memo leg : String) (rate : ResolvedRate) : String :=
  let stamp := s!"fx {leg} @ {rate.rate.str} [{rate.source}]"
  if memo = "" then stamp else s!"{memo} — {stamp}"

/-- The two posted legs of a conversion. -/
structure ConversionResult where
  debitTransactionId : UUID
  creditTransactionId : UUID
  sourceAmount : Minor
  targetAmount : Minor
  rate : ResolvedRate

/-- Post the two single-currency legs of a cross-currency movement. -/
def routeConversion [Runtime] (tenantId : String) (source destination : Account) (amount : Minor)
    (effectiveAt : Time) (memo : String) : Svc ConversionResult := do
  let rate ← resolveRate source.currency destination.currency effectiveAt
  match convert amount source.currency destination.currency rate.rate with
  | none => Svc.raise .invalidOperation
  | some targetAmount =>
    let srcConv ← conversionAccount tenantId source.currency
    let dstConv ← conversionAccount tenantId destination.currency
    -- debit the source, credit the source-currency conversion account
    let debitTxn ← postTransaction tenantId
      [⟨source.id, negate amount, effectiveAt⟩, ⟨srcConv.id, amount, effectiveAt⟩]
      (legMemo memo "debit" rate)
    -- debit the destination-currency conversion account, credit the destination
    let creditTxn ← postTransaction tenantId
      [⟨dstConv.id, negate targetAmount, effectiveAt⟩, ⟨destination.id, targetAmount, effectiveAt⟩]
      (legMemo memo "credit" rate)
    return { debitTransactionId := debitTxn.id, creditTransactionId := creditTxn.id,
             sourceAmount := amount, targetAmount, rate }

/-! ## Transfers -/

/-- The endpoint of the transfers' idempotency keys. -/
def ENDPOINT : String := "transfers.create"

/-- The snapshot of the tenant's account, or the service's error. -/
def balanceOf (tenantId : String) (account : UUID) : Svc AccountBalance := do
  let snapshot ← Svc.getBalance account
  match snapshot with
  | some b =>
    if b.tenantId ≠ tenantId then
      Svc.raise (.insufficientFunds s!"no balance snapshot for {account.str}")
    else return b
  | none => Svc.raise (.insufficientFunds s!"no balance snapshot for {account.str}")

/-- The funds check of transfers and placements: the account's lock, then its
    available balance against the amount. -/
def requireFunds (tenantId : String) (account : UUID) (amount : Int) : Svc Unit := do
  accountLock account
  -- the balance is read under the lock
  let balance ← availableBalance tenantId account
  match balance with
  | none => Svc.raise (.insufficientFunds s!"no balance snapshot for {account.str}")
  | some b =>
    if b.available < amount then
      Svc.raise (.insufficientFunds s!"available {b.available} < requested {amount}")
    else return ()

/-- The money movement of a transfer: the id of the transaction to report. -/
def moveFunds [Runtime] (tenantId : String) (src dst : Account) (req : TransferRequest)
    (effectiveAt : Time) : Svc UUID :=
  if src.currency ≠ dst.currency then do
    let conversion ←
      routeConversion tenantId src dst req.amount effectiveAt req.memo
    -- the debit stands for both transactions
    return conversion.debitTransactionId
  else do
    let txn ← postTransaction tenantId
      [⟨req.sourceAccountId, negate req.amount, effectiveAt⟩,
       ⟨req.destinationAccountId, req.amount, effectiveAt⟩]
      req.memo
    return txn.id

/-- Run a transfer idempotently. -/
def executeTransfer [Runtime] (tenantId : String) (req : TransferRequest)
    (idempotencyKey : String) : Svc (Nat × TransferResponse) := do
  let body := req.modelDump
  let replay ← lookup tenantId ENDPOINT idempotencyKey body
  match replay with
  -- a completed key is answered before anything is checked
  | some replay => replayed TransferResponse.modelValidate replay
  | none =>
    let src ← requireAccount tenantId req.sourceAccountId
    let dst ← requireAccount tenantId req.destinationAccountId
    requireFunds tenantId req.sourceAccountId req.amount
    let effectiveAt ← orNow req.effectiveAt
    let txnId ← moveFunds tenantId src dst req effectiveAt
    let srcAfter ← balanceOf tenantId req.sourceAccountId
    let dstAfter ← balanceOf tenantId req.destinationAccountId
    let response : TransferResponse :=
      { transactionId := txnId, sourceBalance := srcAfter.balance,
        destinationBalance := dstAfter.balance }
    -- the record and the money are one commit
    record tenantId ENDPOINT idempotencyKey body response.modelDump
    Svc.commit
    return (200, response)

end Ledger
