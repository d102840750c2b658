import Ledger.Properties.Interleavings

/-! # Integrity in Every Interleaving

    A foreign key or the range of a column is checked when a row is written,
    against rows that others may have written since the request began, and a
    commit checks nothing.  All the same no committed row ever refers to a row
    that is not there, and no committed number is out of its range.

    * **Invariant**: `Integrity`, the references and the numbers of every table.
    * **Step**: `References.apply`, a write that is let through adds no row
      that breaks it, and no write takes a row away that others refer to.
    * **Result**: `integrity_of_reachable`.
-/

namespace Ledger

open ReadCommitted

/-! ## Invariant -/

/-- The references of the rows are within `E`, and their numbers within the
    ranges of the columns.  A matched posting is no foreign key. -/
structure References (E : UUID → TableName → Prop) (d : Database) : Prop where
  balances : ∀ b ∈ d.balances.rows, E b.accountId .accounts ∧ Database.bigint b.balance = true ∧
    Database.integer b.version = true
  transactions : ∀ t ∈ d.transactions.rows, ∀ id, t.correctsId = some id → E id .transactions
  postings : ∀ p ∈ d.postings.rows, E p.transactionId .transactions ∧ E p.accountId .accounts ∧
    Database.bigint p.amount = true
  outbox : ∀ e ∈ d.outbox.rows, E e.transactionId .transactions
  holds : ∀ h ∈ d.holds.rows, E h.accountId .accounts ∧ Database.bigint h.amount = true ∧
    (∀ id, h.capturedTransactionId = some id → E id .transactions) ∧
    ∀ amount, h.capturedAmount = some amount → Database.bigint amount = true
  rates : ∀ r ∈ d.rates.rows, r.units < 10 ^ 20
  imports : ∀ i ∈ d.imports.rows, E i.accountId .accounts
  lines : ∀ l ∈ d.lines.rows, E l.importId .imports ∧ Database.bigint l.amount = true
  exceptions : ∀ e ∈ d.exceptions.rows, E e.lineId .lines

/-- Every reference is to a row that is there. -/
abbrev Integrity (d : Database) : Prop := References (fun id t => d.has id t = true) d

theorem Integrity.empty : Integrity .empty := by
  constructor <;> simp [Database.empty]

section steps

variable {E E' : UUID → TableName → Prop} {d : Database} {w : Write} {ws : List Write}

theorem References.mono (h : References E d) (hE : ∀ id t, E id t → E' id t) : References E' d where
  balances b hb := ⟨hE _ _ (h.balances b hb).1, (h.balances b hb).2⟩
  transactions t ht id hid := hE _ _ (h.transactions t ht id hid)
  postings p hp := ⟨hE _ _ (h.postings p hp).1, hE _ _ (h.postings p hp).2.1, (h.postings p hp).2.2⟩
  outbox e he := hE _ _ (h.outbox e he)
  holds x hx := ⟨hE _ _ (h.holds x hx).1, (h.holds x hx).2.1,
    fun id hid => hE _ _ ((h.holds x hx).2.2.1 id hid), (h.holds x hx).2.2.2⟩
  rates := h.rates
  imports i hi := hE _ _ (h.imports i hi)
  lines l hl := ⟨hE _ _ (h.lines l hl).1, (h.lines l hl).2⟩
  exceptions e he := hE _ _ (h.exceptions e he)

/-- What holds of the rows and of a new one holds of the rows after its insert. -/
theorem forall_mem_insert {ρ κ : Type} [Keyed ρ κ] [DecidableEq κ] {t : Table ρ} {r : ρ}
    {P : ρ → Prop} (h : ∀ s ∈ t.rows, P s) (hr : P r) : ∀ s ∈ (t.insert r).rows, P s := by
  intro s hs
  rcases Table.mem_insert.mp hs with hs | ⟨rfl, -⟩
  · exact h s hs
  · exact hr

/-- What holds of the rows, and of a row an update makes of one of them. -/
theorem forall_mem_modify {ρ κ : Type} [Keyed ρ κ] [DecidableEq κ] {t : Table ρ} {k : κ}
    {f : ρ → ρ} {P : ρ → Prop} (hf : ∀ r, Keyed.key (f r) = Keyed.key r) (h : ∀ s ∈ t.rows, P s)
    (hr : ∀ r, t.find? k = some r → P (f r)) : ∀ s ∈ (t.modify k f hf).rows, P s := by
  intro s hs
  obtain ⟨r, hmem, rfl⟩ := Table.mem_modify.mp hs
  by_cases hk : Keyed.key r = k
  · rw [if_pos hk]
    exact hr r (hk ▸ Table.find?_of_mem hmem)
  · rw [if_neg hk]
    exact h r hmem

/-- **A write that is let through** refers to rows that are there. -/
theorem References.apply (h : References E d) (hE : ∀ id t, d.has id t = true → E id t)
    (hok : d.constrain w = .ok ())
    (hopens : ∀ r, w = .insHold r → r.capturedTransactionId = none ∧ r.capturedAmount = none) :
    References E (d.apply w) := by
  -- the checks of the references, in the words of `E`
  have haccount : ∀ {id}, (d.accounts.find? id).isSome = true → E id .accounts :=
    fun hid => hE _ .accounts hid
  have htransaction : ∀ {id}, (d.transactions.find? id).isSome = true → E id .transactions :=
    fun hid => hE _ .transactions hid
  have himport : ∀ {id}, (d.imports.find? id).isSome = true → E id .imports :=
    fun hid => hE _ .imports hid
  unfold Database.constrain at hok
  cases w <;> simp only [Database.bind_eq_ok, Database.require_eq_ok, Bool.and_eq_true] at hok
  case insAccount r => exact { h with }
  case insBalance r =>
    exact { h with balances := forall_mem_insert h.balances ⟨haccount hok.2.1, hok.1⟩ }
  case insTransaction r =>
    refine { h with transactions := forall_mem_insert h.transactions fun id hid => ?_ }
    have hcorrects := hok.1
    rw [hid] at hcorrects
    exact htransaction hcorrects
  case insPosting r =>
    exact { h with
      postings := forall_mem_insert h.postings
        ⟨htransaction hok.2.1, haccount hok.2.2.1, hok.1⟩ }
  case insOutbox r =>
    exact { h with outbox := forall_mem_insert h.outbox (htransaction hok.1) }
  case insHold r =>
    obtain ⟨hcaptured, hamount⟩ := hopens r rfl
    exact { h with
      holds := forall_mem_insert h.holds
        ⟨haccount hok.2.1, hok.1, by simp [hcaptured], by simp [hamount]⟩ }
  case insRecord r => exact { h with }
  case insRate r => exact { h with rates := forall_mem_insert h.rates (by simpa using hok.1) }
  case insImport r => exact { h with imports := forall_mem_insert h.imports (haccount hok.1) }
  case insLine r =>
    exact { h with lines := forall_mem_insert h.lines ⟨himport hok.2.1, hok.1⟩ }
  case bump account amount posting =>
    refine { h with
      balances := forall_mem_modify (AccountBalance.key_fold amount posting) h.balances
        fun b hb => ?_ }
    rw [hb] at hok
    simp only [Option.all_some, Bool.and_eq_true] at hok
    exact ⟨(h.balances b (Table.mem_of_find? hb)).1, hok.1.2, hok.2⟩
  case captureHold id txn amount time =>
    refine { h with
      holds := forall_mem_modify (Hold.key_capture txn amount time) h.holds fun x hx => ?_ }
    obtain ⟨hacc, hamount, -, -⟩ := h.holds x (Table.mem_of_find? hx)
    refine ⟨hacc, hamount, fun id hid => ?_, fun m hm => ?_⟩
    · cases hid
      exact htransaction hok.2
    · cases hm
      exact hok.1
  case releaseHold id time =>
    exact { h with
      holds := forall_mem_modify (Hold.key_release time) h.holds
        fun x hx => h.holds x (Table.mem_of_find? hx) }
  case publish id time =>
    exact { h with
      outbox := forall_mem_modify (OutboxEvent.key_publish time) h.outbox
        fun e he => h.outbox e (Table.mem_of_find? he) }
  case deleteRecords ks => exact { h with }

/-- A write keeps the rows it refers to and those that are referred to. -/
theorem Integrity.apply (h : Integrity d) (hok : d.constrain w = .ok ())
    (hopens : ∀ r, w = .insHold r → r.capturedTransactionId = none ∧ r.capturedAmount = none) :
    Integrity (d.apply w) := by
  have hgrows : ∀ id t, d.has id t = true → (d.apply w).has id t = true := by
    intro id t hrow
    rw [has_apply, hrow, Bool.true_or]
  exact (h.mono hgrows).apply hgrows hok hopens

/-- A hold is inserted open. -/
theorem Bookkeeping.opens [Runtime] {tenant : Option String} (h : Bookkeeping tenant d ws)
    {r : Hold} (hr : .insHold r ∈ ws) :
    r.capturedTransactionId = none ∧ r.capturedAmount = none := by
  induction h with
  | nil => cases hr
  | quiet hquiet _ _ ih =>
    rcases List.mem_cons.mp hr with heq | hr
    · exact hquiet.opens r heq.symm
    · exact ih hr
  | published _ _ ih => exact ih (by simpa using hr)
  | opened _ _ _ _ ih => exact ih (by simpa using hr)
  | emitted _ _ _ _ _ ih =>
    rcases List.mem_append.mp hr with hr | hr
    · have htable := table_emission hr
      simp [Write.table] at htable
    · exact ih hr

/-- **Step lemma**: what a commit publishes keeps the references. -/
theorem Integrity.replay (h : Integrity d) (hadm : Admitted d ws)
    (hopens : ∀ r, .insHold r ∈ ws → r.capturedTransactionId = none ∧ r.capturedAmount = none) :
    Integrity (replay d ws) := by
  induction ws generalizing d with
  | nil => exact h
  | cons w ws ih =>
    have hw := h.apply hadm.head fun r hr => hopens r (by simp [hr])
    exact ih hw hadm.tail fun r hr => hopens r (by simp [hr])

end steps

/-! ## Result -/

/-- **Integrity** in every state of every interleaving. -/
theorem integrity_of_reachable [Runtime] {ι : Type} [DecidableEq ι] {requests : ι → Request}
    {d : Database} {clock : Time} {s : Sys ι Database Write Resource Err Reply} (h : Integrity d)
    (hbooks : Books d) (hproper : ∀ i, (requests i).Proper d)
    (hr : Sys.Reachable Sys.all (serve requests d clock) s) : Integrity s.shared.db :=
  invariant_of_reachable (verified_bookkeeping hbooks hproper) h
    (fun _ _ _ hkept hI => hI.replay hkept.2 fun _ hhold => hkept.1.opens hhold) hr

open Sample

theorem integrity_funded : Integrity funded where
  balances := by decide +kernel
  transactions t ht id hid := by
    have hplain : ∀ t ∈ funded.transactions.rows, t.correctsId = none := by decide +kernel
    rw [hplain t ht] at hid
    cases hid
  postings := by decide +kernel
  outbox := by decide +kernel
  holds x hx := by
    have hnone : funded.holds.rows = [] := by decide +kernel
    rw [hnone] at hx
    cases hx
  rates := by decide +kernel
  imports := by decide +kernel
  lines := by decide +kernel
  exceptions := by decide +kernel

/-- The three requests of the sample interleaving. -/
theorem integrity_of_reachable_crossing : ∃ s,
    Sys.Reachable Sys.all (serve crossing funded 0) s ∧
      s.shared.wal.map Entry.who = [1, 2, 0] ∧ Integrity s.shared.db := by
  obtain ⟨s, hr, hwho⟩ := crossing_run
  exact ⟨s, hr, hwho, integrity_of_reachable integrity_funded books_funded crossing_proper hr⟩

end Ledger
