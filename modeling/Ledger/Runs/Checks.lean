import Ledger.Framework.Stability
import Ledger.Runs.Dispatches

/-! # The Constraints of the Database, at the Commit

    A primary key, a foreign key or the range of a column is checked by the
    statement that writes the row, and nothing is checked again at the commit.

    * **Rows**: `balances_spared` and `records_spared`, a row whose lock is
      spared stays what it is; `has_replay` speaks of the rows of the others.
    * **Stability**: `stable`, the locks of a write protect its constraints.
    * **Requests**: `keeps_logging`, what every commit has that publishes what
      its transaction has written, every request keeps.
-/

namespace Ledger

open ReadCommitted

/-! ## Rows -/

section rows

variable {d d' : Database} {ws : List Write} {a : UUID} {k : RecordKey}

/-- A snapshot whose lock is spared stays what it is. -/
theorem balances_spared (h : ∀ w ∈ ws, ∀ r ∈ w.locks, r ≠ .row .balances a) :
    (replay d ws).balances.find? a = d.balances.find? a := by
  induction ws generalizing d with
  | nil => rfl
  | cons w ws ih =>
    have hw := h w (by simp)
    rw [replay_cons, ih fun v hv => h v (by simp [hv]), Database.dbms_apply]
    cases w with
    | insBalance r =>
      have hne : Keyed.key r ≠ a := by simpa [Write.locks] using hw
      exact Table.find?_insert_of_ne hne
    | bump account amount posting =>
      have hne : a ≠ account := by simpa [Write.locks, eq_comm] using hw
      exact Table.find?_modify_of_ne _ _ (AccountBalance.key_fold amount posting) hne
    | _ => rfl

/-- What a transaction sees of a snapshot after its own writes depends on what
    it saw of it before. -/
theorem balances_congr (h : d.balances.find? a = d'.balances.find? a) (ws : List Write) :
    (replay d ws).balances.find? a = (replay d' ws).balances.find? a := by
  induction ws generalizing d d' with
  | nil => exact h
  | cons w ws ih =>
    rw [replay_cons, replay_cons]
    apply ih
    cases w with
    | insBalance r =>
      show (d.balances.insert r).find? a = (d'.balances.insert r).find? a
      by_cases hr : Keyed.key r = a
      · subst hr
        cases hfind : d.balances.find? (Keyed.key r) with
        | none =>
          rw [Table.find?_insert_self hfind, Table.find?_insert_self (h ▸ hfind)]
        | some b =>
          rw [Table.find?_insert_of_some hfind, Table.find?_insert_of_some (h ▸ hfind)]
      · rw [Table.find?_insert_of_ne hr, Table.find?_insert_of_ne hr, h]
    | bump account amount posting =>
      simp only [Database.dbms_apply, Database.apply, Table.find?_modify, h]
    | _ => exact h

/-- A record whose lock is spared stays what it is. -/
theorem records_spared (h : ∀ w ∈ ws, ∀ r ∈ w.locks, r ≠ .record k) :
    (replay d ws).records.find? k = d.records.find? k := by
  induction ws generalizing d with
  | nil => rfl
  | cons w ws ih =>
    have hw := h w (by simp)
    rw [replay_cons, ih fun v hv => h v (by simp [hv]), Database.dbms_apply]
    cases w with
    | insRecord r =>
      have hne : Keyed.key r ≠ k := by simpa [Write.locks] using hw
      exact Table.find?_insert_of_ne hne
    | deleteRecords ks =>
      have hne : k ∉ ks := fun hk => hw (.record k) (List.mem_map_of_mem hk) rfl
      exact Table.find?_erase_of_not_mem hne
    | _ => rfl

/-- The same of a record. -/
theorem records_congr (h : d.records.find? k = d'.records.find? k) (ws : List Write) :
    (replay d ws).records.find? k = (replay d' ws).records.find? k := by
  induction ws generalizing d d' with
  | nil => exact h
  | cons w ws ih =>
    rw [replay_cons, replay_cons]
    apply ih
    cases w with
    | insRecord r =>
      show (d.records.insert r).find? k = (d'.records.insert r).find? k
      by_cases hr : Keyed.key r = k
      · subst hr
        cases hfind : d.records.find? (Keyed.key r) with
        | none =>
          rw [Table.find?_insert_self hfind, Table.find?_insert_self (h ▸ hfind)]
        | some b =>
          rw [Table.find?_insert_of_some hfind, Table.find?_insert_of_some (h ▸ hfind)]
      · rw [Table.find?_insert_of_ne hr, Table.find?_insert_of_ne hr, h]
    | deleteRecords ks =>
      show (d.records.erase ks).find? k = (d'.records.erase ks).find? k
      by_cases hk : k ∈ ks
      · rw [Table.find?_erase_of_mem hk, Table.find?_erase_of_mem hk]
      · rw [Table.find?_erase_of_not_mem hk, Table.find?_erase_of_not_mem hk, h]
    | _ => exact h

end rows

/-! ## Stability -/

section stability

variable {d d' : Database} {w : Write}

/-- What the check of a write looks at, in two states: referenced rows stay,
    the row to be inserted stays away, and a snapshot or a record that is
    locked is the same. -/
structure Protected (d d' : Database) (w : Write) : Prop where
  rows : ∀ t id, d.has id t = true → d'.has id t = true
  fresh : ∀ t id, w.inserts = some (t, id) → d.has id t = false → d'.has id t = false
  balance : ∀ a, .row .balances a ∈ w.locks → d'.balances.find? a = d.balances.find? a
  record : ∀ k, .record k ∈ w.locks → d'.records.find? k = d.records.find? k

/-- **The check of a write** passes in every state that protects it. -/
theorem Protected.constrain (h : Protected d d' w) (hok : d.constrain w = .ok ()) :
    d'.constrain w = .ok () := by
  -- the tables by name
  have haccount : ∀ {id}, (d.accounts.find? id).isSome = true →
      (d'.accounts.find? id).isSome = true := fun hid => h.rows .accounts _ hid
  have htransaction : ∀ {id}, (d.transactions.find? id).isSome = true →
      (d'.transactions.find? id).isSome = true := fun hid => h.rows .transactions _ hid
  have himport : ∀ {id}, (d.imports.find? id).isSome = true →
      (d'.imports.find? id).isSome = true := fun hid => h.rows .imports _ hid
  have hnew : ∀ {t id}, w.inserts = some (t, id) → d'.has id t = false :=
    fun hw => h.fresh _ _ hw (not_has_of_constrain hok hw)
  unfold Database.constrain at hok ⊢
  cases w <;>
    simp only [Database.bind_eq_ok, Database.require_eq_ok, Option.isNone_iff_eq_none] at hok ⊢
  case insAccount r => simpa [Database.has] using hnew (t := .accounts) rfl
  case insBalance r =>
    exact ⟨hok.1, haccount hok.2.1, by simpa [Database.has] using hnew (t := .balances) rfl⟩
  case insTransaction r =>
    refine ⟨?_, by simpa [Database.has] using hnew (t := .transactions) rfl⟩
    cases hc : r.correctsId with
    | none => rfl
    | some t =>
      rw [hc] at hok
      exact htransaction hok.1
  case insPosting r =>
    exact ⟨hok.1, htransaction hok.2.1, haccount hok.2.2.1,
      by simpa [Database.has] using hnew (t := .postings) rfl⟩
  case insOutbox r =>
    exact ⟨htransaction hok.1, by simpa [Database.has] using hnew (t := .outbox) rfl⟩
  case insHold r =>
    exact ⟨hok.1, haccount hok.2.1, by simpa [Database.has] using hnew (t := .holds) rfl⟩
  case insRecord r =>
    rw [h.record r.id (by simp [Write.locks])]
    exact hok
  case insRate r => exact ⟨hok.1, by simpa [Database.has] using hnew (t := .rates) rfl⟩
  case insImport r =>
    exact ⟨haccount hok.1, by simpa [Database.has] using hnew (t := .imports) rfl⟩
  case insLine r =>
    exact ⟨hok.1, himport hok.2.1, by simpa [Database.has] using hnew (t := .lines) rfl⟩
  case bump account amount posting =>
    rw [h.balance account (by simp [Write.locks])]
    exact hok
  case captureHold id t amount time => exact ⟨hok.1, htransaction hok.2⟩

end stability

/-- **The locks of a write protect its constraints**: no row is ever deleted
    that another refers to, and the row a write inserts or changes is locked. -/
theorem stable : Stable Database := by
  intro d vs pre w hspares hok
  have hspares : ∀ v ∈ vs, ∀ r ∈ v.locks, r ∉ w.locks := hspares
  refine Protected.constrain ⟨fun t id hrow => ?_, fun t id hw hnone => ?_, fun a ha => ?_,
    fun k hk => ?_⟩ hok
  · rw [has_replay, has_replay]
    rw [has_replay] at hrow
    rcases Bool.or_eq_true_iff.mp hrow with hrow | hrow <;> simp [hrow]
  · rw [not_has_replay] at hnone ⊢
    refine ⟨not_has_replay.mpr ⟨hnone.1, fun v hv hid => ?_⟩, hnone.2⟩
    exact hspares v hv _ (locks_of_inserts hid) (locks_of_inserts hw)
  · exact balances_congr (balances_spared fun v hv r hr heq => hspares v hv r hr (heq ▸ ha)) pre
  · exact records_congr (records_spared fun v hv r hr heq => hspares v hv r hr (heq ▸ hk)) pre

/-! ## Requests -/

section requests

variable {ι : Type} {allow P : OfCommit ι Database Write Resource}

/-- **Every request** keeps a property that all commits have which publish what
    their transaction has written. -/
theorem keeps_logging [Runtime] {me : ι} {g : Shared ι Database Write} (r : Request)
    (hP : ∀ ws g' tx', Progress (.logging allow P) ws g {} g' tx' → P me tx' g') :
    Keeps (.logging allow P) me r g := by
  have hcommit : ∀ {ws g' tx'}, Progress (.logging allow P) ws g {} g' tx' →
      P me tx' g' ∧ ∀ w ∈ tx'.log, Dbms.locks Database w ⊆ tx'.held :=
    fun hp => ⟨hP _ _ _ hp, hp.locked⟩
  unfold Keeps
  by_cases hr : ∃ t l, r = .dispatch t l
  · obtain ⟨t, l, rfl⟩ := hr
    rw [Request.service, swp_map]
    exact swp_dispatchPending (mayRaise_trivial _ _) (fun _ _ _ _ => trivial)
      fun g₁ tx₁ time g' tx' hselect _ hfinish _ =>
        ⟨hcommit (hselect.trans hfinish), fun _ => trivial⟩
  · exact swp_request (fun t l heq => hr ⟨t, l, heq⟩) (mayRaise_trivial _ _)
      (fun _ _ _ _ _ _ => trivial)
      fun ws g' tx' hp _ _ _ => ⟨hcommit hp, fun _ _ _ _ _ _ => trivial⟩

end requests

end Ledger
