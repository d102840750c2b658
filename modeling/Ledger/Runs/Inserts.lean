import Ledger.Framework.Histories
import Ledger.Data.Session

/-! # The Rows a Commit Inserts

    * **Inserts**: `Write.inserts`, the row a write inserts, and what that
      means for the rows a database `has`.
    * **Fresh rows**: `fresh_of_progress`, the rows a transaction inserts are new
      when it commits, and no two of them are one row.
    * **Tables**: the transactions and the postings after a list of writes.
-/

namespace Ledger

open ReadCommitted

/-! ## Inserts -/

/-- The row a write inserts; the idempotency records, which are deleted
    again, do not count. -/
def Write.inserts : Write → Option (TableName × UUID)
  | .insAccount r => some (.accounts, r.id)
  | .insBalance r => some (.balances, r.accountId)
  | .insTransaction r => some (.transactions, r.id)
  | .insPosting r => some (.postings, r.id)
  | .insOutbox r => some (.outbox, r.id)
  | .insHold r => some (.holds, r.id)
  | .insRate r => some (.rates, r.id)
  | .insImport r => some (.imports, r.id)
  | .insLine r => some (.lines, r.id)
  | _ => none

/-- The table has a row with the identifier. -/
def Database.has (d : Database) (id : UUID) : TableName → Bool
  | .accounts => (d.accounts.find? id).isSome
  | .balances => (d.balances.find? id).isSome
  | .transactions => (d.transactions.find? id).isSome
  | .postings => (d.postings.find? id).isSome
  | .outbox => (d.outbox.find? id).isSome
  | .holds => (d.holds.find? id).isSome
  | .rates => (d.rates.find? id).isSome
  | .imports => (d.imports.find? id).isSome
  | .lines => (d.lines.find? id).isSome
  | .records => false

section inserts

variable {d : Database} {w : Write} {ws : List Write} {t : TableName} {id : UUID}

/-- An insert locks its row. -/
theorem locks_of_inserts (h : w.inserts = some (t, id)) : .row t id ∈ w.locks := by
  cases w <;> cases h <;> exact List.mem_singleton.mpr rfl

/-- An insert that was let through is of a new row. -/
theorem not_has_of_constrain (ha : d.constrain w = .ok ()) (h : w.inserts = some (t, id)) :
    d.has id t = false := by
  unfold Database.has
  cases w <;> cases h
  · simp [Database.fresh_account ha]
  · simp [Database.fresh_balance ha]
  · simp [Database.fresh_transaction ha]
  · simp [Database.fresh_posting ha]
  · simp [Database.fresh_outbox ha]
  · simp [Database.fresh_hold ha]
  · simp [Database.fresh_rate ha]
  · simp [Database.fresh_import ha]
  · simp [Database.fresh_line ha]

/-- The rows after a write. -/
theorem has_apply (d : Database) (w : Write) (t : TableName) (id : UUID) :
    (d.apply w).has id t = (d.has id t || decide (w.inserts = some (t, id))) := by
  cases w <;> cases t <;>
    simp [Database.has, Database.apply, Write.inserts, Table.isSome_insert, Table.find?_modify]

/-- The rows after a list of writes. -/
theorem has_replay (d : Database) (ws : List Write) (t : TableName) (id : UUID) :
    (replay d ws).has id t = (d.has id t || ws.any fun w => w.inserts = some (t, id)) := by
  induction ws generalizing d with
  | nil => simp
  | cons w ws ih =>
    rw [replay_cons, ih, Database.dbms_apply, has_apply, List.any_cons, Bool.or_assoc]

/-- There is no row after a list of writes if there was none and none is inserted. -/
theorem not_has_replay : (replay d ws).has id t = false ↔
    d.has id t = false ∧ ∀ w ∈ ws, w.inserts ≠ some (t, id) := by
  simp [has_replay]

end inserts

/-! ## Fresh Rows -/

/-- The writes insert rows the database does not have, each of them once. -/
structure Fresh (d : Database) (ws : List Write) : Prop where
  new : ∀ w ∈ ws, ∀ t id, w.inserts = some (t, id) → d.has id t = false
  once : ws.Pairwise fun v w => ∀ t id, v.inserts = some (t, id) → w.inserts ≠ some (t, id)

section fresh

variable {ι : Type} {allow P : OfCommit ι Database Write Resource}
  {g g' : Shared ι Database Write} {tx' : Tx Write Resource} {ws : List Write}

/-- **The rows a transaction inserts** are new when it commits: the insert was
    let through, and its lock has kept the others away since. -/
theorem fresh_of_progress (h : Progress (.logging allow P) ws g {} g' tx') : Fresh g'.db ws := by
  have hins : ∀ pre w post, ws = pre ++ w :: post → ∀ t id, w.inserts = some (t, id) →
      g'.db.has id t = false ∧ ∀ v ∈ pre, v.inserts ≠ some (t, id) := by
    intro pre w post heq t id hw
    obtain ⟨gs, cs, hlogged, hspares, hadm⟩ := h.spared heq
    obtain ⟨hnone, hpre⟩ := not_has_replay.mp (not_has_of_constrain hadm hw)
    refine ⟨?_, hpre⟩
    rw [hlogged.db, afterCommits, not_has_replay]
    refine ⟨hnone, fun v hv hvid => ?_⟩
    -- a commit that inserted the row would have had to wait
    obtain ⟨c, hc, hv⟩ := List.mem_flatMap.mp hv
    obtain ⟨c', hc', rfl⟩ := List.mem_map.mp hc
    exact hspares c' hc' v hv _ (locks_of_inserts hvid) (locks_of_inserts hw)
  constructor
  · intro w hw t id hid
    obtain ⟨pre, post, heq⟩ := List.append_of_mem hw
    exact (hins pre w post heq t id hid).1
  · rw [List.pairwise_iff_getElem]
    intro i j hi hj hij t id hid hjd
    have heq : ws = ws.take j ++ ws[j] :: ws.drop (j + 1) := by simp
    have hmem : ws[i] ∈ ws.take j := List.mem_take_iff_getElem.mpr ⟨i, by omega, rfl⟩
    exact (hins _ _ _ heq t id hjd).2 _ hmem hid

/-- The same of the rows of one table. -/
theorem Fresh.rows {ρ : Type} [Keyed ρ UUID] {d : Database} (h : Fresh d ws) {t : TableName}
    {f : Write → Option ρ} (hf : ∀ w r, f w = some r → w.inserts = some (t, Keyed.key r)) :
    (∀ r ∈ ws.filterMap f, d.has (Keyed.key r) t = false) ∧
      (ws.filterMap f).Pairwise fun r s => Keyed.key r ≠ Keyed.key s := by
  constructor
  · intro r hr
    obtain ⟨w, hw, hwr⟩ := List.mem_filterMap.mp hr
    exact h.new w hw t _ (hf w r hwr)
  · rw [List.pairwise_filterMap]
    refine h.once.imp fun hvw r hr s hs heq => ?_
    exact hvw t _ (hf _ r hr) (heq ▸ hf _ s hs)

end fresh

/-! ## Tables -/

/-- The transaction a write inserts. -/
def Write.transaction? : Write → Option Transaction
  | .insTransaction t => some t
  | _ => none

/-- The posting a write inserts. -/
def Write.posting? : Write → Option Posting
  | .insPosting p => some p
  | _ => none

/-- The transactions a list of writes inserts. -/
def insertedTransactions (ws : List Write) : List Transaction := ws.filterMap Write.transaction?

/-- The postings a list of writes inserts. -/
def insertedPostings (ws : List Write) : List Posting := ws.filterMap Write.posting?

section tables

variable {d : Database} {ws vs : List Write}

@[simp] theorem insertedTransactions_append :
    insertedTransactions (ws ++ vs) = insertedTransactions ws ++ insertedTransactions vs := by
  simp [insertedTransactions]

@[simp] theorem insertedPostings_append :
    insertedPostings (ws ++ vs) = insertedPostings ws ++ insertedPostings vs := by
  simp [insertedPostings]

/-- The transactions of two parts are different. -/
theorem Fresh.distinct (h : Fresh d (ws ++ vs)) :
    ∀ t ∈ insertedTransactions ws, ∀ u ∈ insertedTransactions vs, t.id ≠ u.id := by
  have honce := (h.rows (f := Write.transaction?) (t := .transactions)
    fun w r hr => by cases w <;> cases hr; rfl).2
  rw [List.filterMap_append, List.pairwise_append] at honce
  exact honce.2.2

theorem transactions_apply (d : Database) (w : Write) :
    (d.apply w).transactions = w.transaction?.elim d.transactions d.transactions.insert := by
  cases w <;> rfl

theorem postings_apply (d : Database) (w : Write) :
    (d.apply w).postings = w.posting?.elim d.postings d.postings.insert := by
  cases w <;> rfl

section append

variable {ρ : Type} [Keyed ρ UUID] {get : Database → Table ρ} {f : Write → Option ρ}

/-- A table that rows are only inserted into keeps its rows. -/
theorem rows_grow (happly : ∀ d w, get (Database.apply d w) = (f w).elim (get d) (get d).insert)
    (d : Database) (ws : List Write) : (get d).rows <+: (get (replay d ws)).rows := by
  refine replay_induction (P := fun d' => (get d).rows <+: (get d').rows) d (List.prefix_refl _)
    fun d' w _ h => h.trans ?_
  show _ <+: (get (d'.apply w)).rows
  rw [happly]
  cases f w with
  | none => exact List.prefix_refl _
  | some r => exact Table.rows_insert_grow _ r

/-- Fresh writes append their rows to it. -/
theorem Fresh.append (h : Fresh d ws)
    (happly : ∀ d w, get (Database.apply d w) = (f w).elim (get d) (get d).insert) {t : TableName}
    (hhas : ∀ k, d.has k t = ((get d).find? k).isSome)
    (hf : ∀ w r, f w = some r → w.inserts = some (t, Keyed.key r)) :
    (get (replay d ws)).rows = (get d).rows ++ ws.filterMap f := by
  have hfold : get (replay d ws) = (ws.filterMap f).foldl Table.insert (get d) := by
    clear h hhas
    induction ws generalizing d with
    | nil => rfl
    | cons w ws ih =>
      rw [replay_cons, ih]
      show List.foldl _ (get (d.apply w)) _ = _
      rw [happly, List.filterMap_cons]
      cases f w <;> rfl
  obtain ⟨hnew, honce⟩ := h.rows hf
  have hfree : ∀ r ∈ ws.filterMap f, (get d).find? (Keyed.key r) = none := by
    intro r hr
    have hno := hnew r hr
    rwa [hhas, Option.isSome_eq_false_iff, Option.isNone_iff_eq_none] at hno
  rw [hfold]
  exact Table.rows_foldl_insert _ _ hfree honce

end append

/-- The transactions after fresh writes. -/
theorem Fresh.transactions (h : Fresh d ws) :
    (replay d ws).transactions.rows = d.transactions.rows ++ insertedTransactions ws :=
  h.append transactions_apply (t := .transactions) (fun _ => rfl)
    fun w r hr => by cases w <;> cases hr; rfl

/-- The postings after fresh writes. -/
theorem Fresh.postings (h : Fresh d ws) :
    (replay d ws).postings.rows = d.postings.rows ++ insertedPostings ws :=
  h.append postings_apply (t := .postings) (fun _ => rfl)
    fun w r hr => by cases w <;> cases hr; rfl

end tables

end Ledger
