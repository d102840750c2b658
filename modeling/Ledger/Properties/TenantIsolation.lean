import Ledger.Properties.Representation
import Ledger.Services.Reads

/-! # Tenant Read Isolation

    Which reads answer a tenant from the tenant's own rows alone.

    * **Owned rows**: `Database.ownedBy`, through the row's own column or
      through its parents.
    * **Coherence**: a row has the tenant of its parent.  The books of every
      reachable state are coherent.
    * **Result**: `isolated_iff`.  The listing of exceptions and the statement
      of an account do not look at the tenant.
-/

namespace Ledger

open ReadCommitted

namespace Database

/-- The transaction belongs to the tenant. -/
def ownsTransaction (d : Database) (tenantId : String) (id : UUID) : Bool :=
  (d.transactions.find? id).any fun t => t.tenantId = tenantId

/-- The import belongs to the tenant. -/
def ownsImport (d : Database) (tenantId : String) (id : UUID) : Bool :=
  (d.imports.find? id).any fun i => i.tenantId = tenantId

/-- The line is of an import of the tenant. -/
def ownsLine (d : Database) (tenantId : String) (id : UUID) : Bool :=
  (d.lines.find? id).any fun l => d.ownsImport tenantId l.importId

end Database

/-- The rows of one tenant, in insertion order. -/
structure Owned where
  accounts : List Account
  balances : List AccountBalance
  holds : List Hold
  transactions : List Transaction
  postings : List Posting
  outbox : List OutboxEvent
  records : List IdempotencyRecord
  imports : List StatementImport
  lines : List StatementLine
  exceptions : List ReconciliationException
  deriving DecidableEq

/-- The rows a tenant owns. -/
def Database.ownedBy (d : Database) (tenantId : String) : Owned where
  accounts := d.accounts.rows.filter fun a => a.tenantId = tenantId
  balances := d.balances.rows.filter fun b => b.tenantId = tenantId
  holds := d.holds.rows.filter fun h => h.tenantId = tenantId
  transactions := d.transactions.rows.filter fun t => t.tenantId = tenantId
  postings := d.postings.rows.filter fun p => d.ownsTransaction tenantId p.transactionId
  outbox := d.outbox.rows.filter fun e => e.tenantId = tenantId
  records := d.records.rows.filter fun r => r.id.tenantId = tenantId
  imports := d.imports.rows.filter fun i => i.tenantId = tenantId
  lines := d.lines.rows.filter fun l => d.ownsImport tenantId l.importId
  exceptions := d.exceptions.rows.filter fun e => d.ownsLine tenantId e.lineId

/-- A row has the tenant of its parent. -/
structure Coherent (d : Database) : Prop where
  snapshot : ∀ b ∈ d.balances.rows, ∀ a, d.accounts.find? b.accountId = some a →
    b.tenantId = a.tenantId
  posting : ∀ p ∈ d.postings.rows, ∃ t, d.transactions.find? p.transactionId = some t ∧
    d.Owns t.tenantId p.accountId

/-- The books of every reachable state are coherent. -/
theorem Books.coherent {d : Database} (h : Books d) : Coherent d where
  snapshot b hb a ha := by
    obtain ⟨b', hrows, htenant, -⟩ := h.snapshot a (Table.mem_of_find? ha)
    have hkey : a.id = b.accountId := Table.key_of_find? ha
    have hmem : b ∈ d.balances.rows.filter fun b => b.accountId = a.id := by simp [hb, hkey]
    rw [hrows, List.mem_singleton] at hmem
    rw [hmem, htenant]
  posting p hp := by
    obtain ⟨t, ht, hid⟩ := h.attached p hp
    have hown := h.owned t ht p (by simp [Database.postingsOf, hp, hid])
    exact ⟨t, hid ▸ Table.find?_of_mem ht, hown⟩

/-- The response does not depend on the rows of other tenants. -/
def Isolated [Runtime] (tenantId : String) (req : ReadRequest) : Prop :=
  ∀ d₁ d₂ : Database, Coherent d₁ → Coherent d₂ → d₁.ownedBy tenantId = d₂.ownedBy tenantId →
    ∀ now, d₁.read tenantId now req = d₂.read tenantId now req

/-! ## Reads of Owned Rows -/

/-- Filtering by a narrower property sees only the rows of the wider one. -/
theorem filter_of_imp {α : Type} {l : List α} {p q : α → Bool}
    (h : ∀ a ∈ l, p a = true → q a = true) : l.filter p = (l.filter q).filter p := by
  rw [List.filter_filter]
  refine List.filter_congr fun a ha => ?_
  cases hp : p a
  · simp
  · simp [h a ha hp]

section owned

variable {d d₁ d₂ : Database} {tenantId : String}

/-- The acting tenant's account. -/
def Database.accountOf (d : Database) (tenantId : String) (id : UUID) : Option Account :=
  (d.accounts.find? id).filter fun a => a.tenantId = tenantId

theorem accountOf_congr (h : d₁.ownedBy tenantId = d₂.ownedBy tenantId) (id : UUID) :
    d₁.accountOf tenantId id = d₂.accountOf tenantId id :=
  Table.find?_congr_filter (congrArg Owned.accounts h) id

/-- The acting tenant's snapshot. -/
def Database.balanceOf (d : Database) (tenantId : String) (id : UUID) : Option AccountBalance :=
  (d.balances.find? id).filter fun b => b.tenantId = tenantId

theorem balanceOf_congr (h : d₁.ownedBy tenantId = d₂.ownedBy tenantId) (id : UUID) :
    d₁.balanceOf tenantId id = d₂.balanceOf tenantId id :=
  Table.find?_congr_filter (congrArg Owned.balances h) id

/-- The snapshot of the tenant's account is the tenant's. -/
theorem getAccount_eq (hc : Coherent d) (id : UUID) :
    d.getAccount tenantId id = (d.accountOf tenantId id).map fun account =>
      { id := account.id, path := account.path, name := account.name,
        normalBalance := account.normalBalance, currency := account.currency,
        balance := ((d.balanceOf tenantId id).map AccountBalance.balance).getD 0,
        isOpen := account.isOpen } := by
  unfold Database.getAccount Database.accountOf Database.balanceOf
  cases ha : d.accounts.find? id with
  | none => rfl
  | some a =>
    by_cases ht : a.tenantId = tenantId
    · have hb : (d.balances.find? id).filter (fun b => b.tenantId = tenantId) =
          d.balances.find? id := by
        cases hb : d.balances.find? id with
        | none => rfl
        | some b =>
          have hkey : b.accountId = id := Table.key_of_find? hb
          have := hc.snapshot b (Table.mem_of_find? hb) a (hkey ▸ ha)
          simp [this, ht]
      simp [ht, hb]
    · simp [ht]

theorem heldTotal_congr (h : d₁.ownedBy tenantId = d₂.ownedBy tenantId) (id : UUID) (now : Time) :
    d₁.heldTotal tenantId id now = d₂.heldTotal tenantId id now := by
  have hfilter : ∀ d : Database, d.holds.rows.filter (fun h => h.reserves tenantId id now) =
      (d.ownedBy tenantId).holds.filter (fun h => h.reserves tenantId id now) := fun d =>
    filter_of_imp fun h _ hr => by
      simp only [Hold.reserves, Bool.and_eq_true, decide_eq_true_eq] at hr ⊢
      exact hr.1.1.2
  rw [Database.heldTotal, Database.heldTotal, Table.total, Table.total, hfilter, hfilter, h]

theorem availableBalance_congr (h : d₁.ownedBy tenantId = d₂.ownedBy tenantId) (id : UUID)
    (now : Time) : d₁.availableBalance tenantId id now = d₂.availableBalance tenantId id now := by
  have heq : ∀ d : Database, d.availableBalance tenantId id now =
      (d.balanceOf tenantId id).map fun b => ⟨b.balance, d.heldTotal tenantId id now⟩ := by
    intro d
    unfold Database.availableBalance Database.balanceOf
    cases d.balances.find? id with
    | none => rfl
    | some b => by_cases ht : b.tenantId = tenantId <;> simp [ht]
  rw [heq, heq, balanceOf_congr h, heldTotal_congr h]

/-- The postings on an account of the tenant are of transactions of the tenant. -/
theorem owned_of_account (hc : Coherent d) {id : UUID} (hown : d.Owns tenantId id) {p : Posting}
    (hp : p ∈ d.postings.rows) (ha : p.accountId = id) :
    d.ownsTransaction tenantId p.transactionId = true := by
  obtain ⟨t, ht, a, haccount, hat⟩ := hc.posting p hp
  obtain ⟨a', ha', hat'⟩ := hown
  rw [ha, ha'] at haccount
  cases haccount
  simp [Database.ownsTransaction, ht, ← hat, hat']

/-- So are all that a query on the account selects. -/
theorem postings_congr (h : d₁.ownedBy tenantId = d₂.ownedBy tenantId) (h₁ : Coherent d₁)
    (h₂ : Coherent d₂) {id : UUID} (hown₁ : d₁.Owns tenantId id) (hown₂ : d₂.Owns tenantId id)
    {q : Posting → Bool} (hq : ∀ p, q p = true → p.accountId = id) :
    d₁.postings.rows.filter q = d₂.postings.rows.filter q := by
  have hfilter : ∀ d : Database, Coherent d → d.Owns tenantId id →
      d.postings.rows.filter q = (d.ownedBy tenantId).postings.filter q := fun d hc hown =>
    filter_of_imp fun p hp hqp => owned_of_account hc hown hp (hq p hqp)
  rw [hfilter d₁ h₁ hown₁, hfilter d₂ h₂ hown₂, h]

theorem joined_congr (h : d₁.ownedBy tenantId = d₂.ownedBy tenantId) {ps : List Posting}
    (hown₁ : ∀ p ∈ ps, d₁.ownsTransaction tenantId p.transactionId = true)
    (hown₂ : ∀ p ∈ ps, d₂.ownsTransaction tenantId p.transactionId = true) :
    d₁.joined ps = d₂.joined ps := by
  refine List.filterMap_congr fun p hp => ?_
  have hfilter : ∀ d : Database, d.ownsTransaction tenantId p.transactionId = true →
      d.transactions.find? p.transactionId =
        (d.transactions.find? p.transactionId).filter fun t => t.tenantId = tenantId := by
    intro d hd
    cases ht : d.transactions.find? p.transactionId with
    | none => rfl
    | some t =>
      have htenant : t.tenantId = tenantId := by
        simpa [Database.ownsTransaction, ht] using hd
      simp [Option.filter, htenant]
  rw [hfilter d₁ (hown₁ p hp), hfilter d₂ (hown₂ p hp),
    Table.find?_congr_filter (congrArg Owned.transactions h)]

theorem owns_iff {id : UUID} : d.Owns tenantId id ↔ (d.accountOf tenantId id).isSome := by
  unfold Database.Owns Database.accountOf
  cases d.accounts.find? id <;> simp

theorem accountJournal_congr (h : d₁.ownedBy tenantId = d₂.ownedBy tenantId) (h₁ : Coherent d₁)
    (h₂ : Coherent d₂) (id : UUID) (after : Option Time) (limit : Nat) :
    d₁.accountJournal tenantId id after limit = d₂.accountJournal tenantId id after limit := by
  have heq : ∀ d : Database, d.accountJournal tenantId id after limit =
      (d.accountOf tenantId id).map fun _ =>
        (((d.joined (d.postings.rows.filter fun p =>
          p.accountId = id && after.all (· < p.effectiveAt))).insertionSort journalOrder).take
            limit).map journalEntry := by
    intro d
    unfold Database.accountJournal Database.accountOf
    cases d.accounts.find? id with
    | none => rfl
    | some a => by_cases ht : a.tenantId = tenantId <;> simp [ht]
  rw [heq, heq, accountOf_congr h]
  cases ha : d₂.accountOf tenantId id with
  | none => rfl
  | some a =>
    have hown₂ : d₂.Owns tenantId id := owns_iff.mpr (by simp [ha])
    have hown₁ : d₁.Owns tenantId id := owns_iff.mpr (by simp [accountOf_congr h, ha])
    have hacct : ∀ p : Posting, (p.accountId = id && after.all (· < p.effectiveAt)) = true →
        p.accountId = id := by
      intro p hp
      simp only [Bool.and_eq_true, decide_eq_true_eq] at hp
      exact hp.1
    have hrows := postings_congr h h₁ h₂ hown₁ hown₂ hacct
    rw [hrows, joined_congr h]
    · intro p hp
      rw [← hrows] at hp
      exact owned_of_account h₁ hown₁ (List.mem_filter.mp hp).1 (hacct p (List.mem_filter.mp hp).2)
    · intro p hp
      exact owned_of_account h₂ hown₂ (List.mem_filter.mp hp).1 (hacct p (List.mem_filter.mp hp).2)

theorem events_congr (h : d₁.ownedBy tenantId = d₂.ownedBy tenantId) (status : Option OutboxStatus)
    (limit : Nat) : d₁.events tenantId status limit = d₂.events tenantId status limit := by
  have hfilter : ∀ d : Database,
      d.outbox.rows.filter (fun e => e.tenantId = tenantId && status.all (e.status = ·)) =
        (d.ownedBy tenantId).outbox.filter
          (fun e => e.tenantId = tenantId && status.all (e.status = ·)) := fun d =>
    filter_of_imp fun e _ he => by
      simp only [Bool.and_eq_true] at he
      exact he.1
  rw [Database.events, Database.events, hfilter, hfilter, h]

theorem record_congr (h : d₁.ownedBy tenantId = d₂.ownedBy tenantId) (endpoint key : String) :
    d₁.records.find? ⟨tenantId, endpoint, key⟩ = d₂.records.find? ⟨tenantId, endpoint, key⟩ := by
  have hfilter : ∀ d : Database, d.records.find? ⟨tenantId, endpoint, key⟩ =
      (d.records.find? ⟨tenantId, endpoint, key⟩).filter fun r => r.id.tenantId = tenantId := by
    intro d
    cases hr : d.records.find? ⟨tenantId, endpoint, key⟩ with
    | none => rfl
    | some r =>
      have hkey : r.id = ⟨tenantId, endpoint, key⟩ := Table.key_of_find? hr
      simp [Option.filter, hkey]
  rw [hfilter d₁, hfilter d₂, Table.find?_congr_filter (congrArg Owned.records h)]

/-- The statement of the tenant's own account. -/
theorem streamStatement_congr (h : d₁.ownedBy tenantId = d₂.ownedBy tenantId) (h₁ : Coherent d₁)
    (h₂ : Coherent d₂) {id : UUID} (hown : d₁.Owns tenantId id) (start stop : Time) :
    d₁.streamStatement id start stop = d₂.streamStatement id start stop := by
  have hown₂ : d₂.Owns tenantId id := by
    rw [owns_iff, ← accountOf_congr h, ← owns_iff]
    exact hown
  have hrows : d₁.windowOf id start stop = d₂.windowOf id start stop :=
    postings_congr h h₁ h₂ hown hown₂ fun p hp => by
      simp only [Bool.and_eq_true, decide_eq_true_eq] at hp
      exact hp.1.1
  rw [Database.streamStatement, Database.streamStatement, hrows]

end owned

/-! ## Result -/

/-- The read looks at the tenant, or at nothing. -/
def ReadRequest.Scoped : ReadRequest → Prop
  | .exceptions _ => False
  | .statement _ start stop => stop ≤ start
  | _ => True

/-- A scoped read is isolated. -/
theorem isolated_of_scoped [Runtime] {tenantId : String} {req : ReadRequest} (hs : req.Scoped) :
    Isolated tenantId req := by
  intro d₁ d₂ h₁ h₂ h now
  cases req with
  | account id => simp only [Database.read, getAccount_eq h₁, getAccount_eq h₂, accountOf_congr h,
      balanceOf_congr h]
  | balance id => simp only [Database.read, Database.getBalanceEndpoint, availableBalance_congr h]
  | journal id after limit =>
    simp only [Database.read, Database.getAccountJournalEndpoint, accountJournal_congr h h₁ h₂]
  | events status limit => simp only [Database.read, Database.listEventsEndpoint, events_congr h]
  | idempotencyKey endpoint key =>
    simp only [Database.read, Database.getIdempotencyKeyEndpoint, record_congr h]
  | statement id start stop =>
    -- the window is empty
    have hnone : ∀ d : Database, d.windowOf id start stop = [] := fun d => by
      refine List.filter_eq_nil_iff.mpr fun p _ hp => ?_
      simp only [Bool.and_eq_true, decide_eq_true_eq] at hp
      exact absurd (hp.1.2.trans_lt hp.2) (not_lt.mpr hs)
    simp only [Database.read, Database.streamStatement, hnone]
  | imports =>
    have hrows : d₁.imports.rows.filter (fun i => i.tenantId = tenantId) =
        d₂.imports.rows.filter fun i => i.tenantId = tenantId := congrArg Owned.imports h
    simp only [Database.read, Database.listImports, hrows]
  | exceptions resolved => exact hs.elim

/-! ## The Reads That Are Not Scoped -/

/-- A tenant other than the given one. -/
def another (tenantId : String) : String := tenantId ++ "'"

theorem another_ne (tenantId : String) : another tenantId ≠ tenantId := by
  intro h
  have := congrArg String.length h
  simp [another] at this

/-- One exception, on a line of an import of the tenant. -/
def withException (tenantId : String) (resolved : Bool) : Database :=
  { Database.empty with
    imports := .single ⟨0, tenantId, 0, "", 0⟩
    lines := .single ⟨0, 0, 0, 0, "", none⟩
    exceptions := .single ⟨0, 0, .UNMATCHED, resolved⟩ }

/-- One posting, on an account of the tenant. -/
def withPosting (tenantId : String) (account : UUID) (effectiveAt : Time) : Database :=
  { Database.empty with
    accounts := .single ⟨account, tenantId, "", "", .DEBIT, .USD, true, 0⟩
    balances := .single ⟨account, tenantId, 0, 1, some 0⟩
    transactions := .single ⟨0, tenantId, "", none, 0⟩
    postings := .single ⟨0, 0, account, 0, effectiveAt, 0⟩ }

theorem coherent_withException (tenantId : String) (resolved : Bool) :
    Coherent (withException tenantId resolved) := by
  constructor <;> simp [withException, Database.empty, Table.find?]

theorem coherent_withPosting (tenantId : String) (account : UUID) (effectiveAt : Time) :
    Coherent (withPosting tenantId account effectiveAt) := by
  constructor <;> simp [withPosting, Database.empty, Table.find?, Database.Owns]

theorem coherent_empty : Coherent .empty := by
  constructor <;> simp [Database.empty]

/-- The owner of the exception is another tenant. -/
theorem ownedBy_withException {tenantId owner : String} (h : owner ≠ tenantId) (resolved : Bool) :
    (withException owner resolved).ownedBy tenantId = Database.empty.ownedBy tenantId := by
  simp [Database.ownedBy, withException, Database.empty, Database.ownsImport,
    Database.ownsLine, Table.find?, h]

theorem ownedBy_withPosting {tenantId owner : String} (h : owner ≠ tenantId) (account : UUID)
    (effectiveAt : Time) :
    (withPosting owner account effectiveAt).ownedBy tenantId = Database.empty.ownedBy tenantId := by
  simp [Database.ownedBy, withPosting, Database.empty, Database.ownsTransaction,
    Table.find?, h]

/-- **Tenant read isolation** holds of the scoped reads and of no other; the
    statement of the tenant's own account is isolated too. -/
theorem isolated_iff [Runtime] (tenantId : String) (req : ReadRequest) :
    (Isolated tenantId req ↔ req.Scoped) ∧
      ∀ account start stop, req = .statement account start stop →
        ∀ d₁ d₂ : Database, Coherent d₁ → Coherent d₂ →
          d₁.ownedBy tenantId = d₂.ownedBy tenantId → d₁.Owns tenantId account →
          ∀ now, d₁.read tenantId now req = d₂.read tenantId now req := by
  refine ⟨⟨fun h => ?_, isolated_of_scoped⟩, ?_⟩
  · cases req with
    | exceptions resolved =>
      have hread := h .empty (withException (another tenantId) resolved) coherent_empty
        (coherent_withException _ _) (ownedBy_withException (another_ne tenantId) resolved).symm 0
      simp [Database.read, Database.listExceptions, withException,
        Database.empty] at hread
    | statement account start stop =>
      by_contra hwindow
      have hread := h .empty (withPosting (another tenantId) account start) coherent_empty
        (coherent_withPosting _ _ _)
        (ownedBy_withPosting (another_ne tenantId) account start).symm 0
      have hlt : start < stop := not_le.mp hwindow
      simp [Database.read, Database.streamStatement, Database.windowOf, withPosting,
        Database.empty, hlt, statementRows, csv] at hread
    | _ => trivial
  · rintro account start stop rfl d₁ d₂ h₁ h₂ h hown now
    simp only [Database.read, streamStatement_congr h h₁ h₂ hown]

open Sample

/-- Another tenant reads the statement of Alice's account. -/
theorem statement_discloses : Reached (fun d r => r.Proper d) funded ∧
    Database.empty.ownedBy "globex" = funded.ownedBy "globex" ∧
    Database.empty.read "globex" 0 (.statement alice 0 1) ≠
      funded.read "globex" 0 (.statement alice 0 1) := by
  have hempty : (csv (Database.empty.streamStatement alice 0 1)).length = 1 := by decide +kernel
  have hfunded : (csv (funded.streamStatement alice 0 1)).length = 2 := by decide +kernel
  refine ⟨Reached.empty.script (by decide +kernel), by decide +kernel, fun h => ?_⟩
  simp only [Database.read, ReadResponse.statement.injEq] at h
  rw [h, hfunded] at hempty
  cases hempty

end Ledger
