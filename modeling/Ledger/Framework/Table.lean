import Mathlib.Algebra.BigOperators.Group.List.Basic
import Mathlib.Algebra.Ring.Int.Defs
import Mathlib.Data.List.Nodup

/-! # Keyed Tables

    A relational table as the list of its rows in insertion order, together
    with the proof that no two rows share a primary key.

    * **Reading**: `find?` by primary key, `total` for `SUM(f) WHERE p`.
    * **Writing**: `insert`, `modify` (an `UPDATE ... WHERE key = k`) and
      `erase` (a `DELETE`).

    The write operations are total.  A statement that inserts a row checks
    the key first; `insert` on a key that is present leaves the table alone.
-/

/-- A row type with its primary key. -/
class Keyed (ρ : Type) (κ : outParam Type) where
  /-- The primary key of a row. -/
  key : ρ → κ

/-- Rows in insertion order, no two with the same primary key. -/
structure Table (ρ : Type) {κ : Type} [Keyed ρ κ] where
  rows : List ρ
  nodup : (rows.map Keyed.key).Nodup

namespace Table

variable {ρ κ : Type} [Keyed ρ κ]

open Keyed (key)

theorem ext {t u : Table ρ} (h : t.rows = u.rows) : t = u := by
  cases t; cases u; subst h; rfl

/-- The empty table. -/
def empty : Table ρ := ⟨[], by simp⟩

@[simp] theorem empty_rows : (empty : Table ρ).rows = [] := rfl

/-- The table of one row. -/
def single (r : ρ) : Table ρ := ⟨[r], by simp⟩

@[simp] theorem single_rows (r : ρ) : (single r).rows = [r] := rfl

/-- Two rows of a table with the same key are the same row. -/
theorem eq_of_key_eq (t : Table ρ) {r s : ρ} (hr : r ∈ t.rows) (hs : s ∈ t.rows)
    (h : key r = key s) : r = s :=
  List.inj_on_of_nodup_map t.nodup hr hs h

/-! ## Aggregates -/

/-- `SUM(f) WHERE p` over the rows. -/
def total (t : Table ρ) (p : ρ → Bool) (f : ρ → Int) : Int :=
  ((t.rows.filter p).map f).sum

@[simp] theorem total_empty (p : ρ → Bool) (f : ρ → Int) :
    (empty : Table ρ).total p f = 0 := rfl

/-- A sum over fewer rows of nonnegative amounts is smaller. -/
theorem total_le_total (t : Table ρ) {p q : ρ → Bool} {f : ρ → Int}
    (hf : ∀ r ∈ t.rows, 0 ≤ f r) (h : ∀ r ∈ t.rows, p r = true → q r = true) :
    t.total p f ≤ t.total q f := by
  unfold total
  generalize t.rows = rows at hf h
  induction rows with
  | nil => simp
  | cons r rs ih =>
    have hr : 0 ≤ f r := hf r (by simp)
    have ih' := ih (fun s hs => hf s (by simp [hs])) (fun s hs => h s (by simp [hs]))
    have hpq := h r (by simp)
    cases hp : p r <;> cases hq : q r <;> simp_all
    omega

variable [DecidableEq κ]

/-! ## Lookup by primary key -/

/-- `SELECT ... WHERE key = k`. -/
def find? (t : Table ρ) (k : κ) : Option ρ := t.rows.find? (fun r => decide (key r = k))

@[simp] theorem find?_empty (k : κ) : (empty : Table ρ).find? k = none := rfl

theorem find?_eq_some_iff {t : Table ρ} {k : κ} {r : ρ} :
    t.find? k = some r ↔ r ∈ t.rows ∧ key r = k := by
  constructor
  · intro h
    exact ⟨List.mem_of_find?_eq_some h, by simpa using List.find?_some h⟩
  · rintro ⟨hmem, hkey⟩
    cases hfind : t.find? k with
    | none =>
      have := List.find?_eq_none.mp hfind r hmem
      simp [hkey] at this
    | some s =>
      have hs : s ∈ t.rows := List.mem_of_find?_eq_some hfind
      have hsk : key s = k := by simpa using List.find?_some hfind
      rw [t.eq_of_key_eq hs hmem (hsk.trans hkey.symm)]

theorem find?_eq_none_iff {t : Table ρ} {k : κ} :
    t.find? k = none ↔ ∀ r ∈ t.rows, key r ≠ k := by
  simp [find?, List.find?_eq_none]

theorem mem_of_find? {t : Table ρ} {k : κ} {r : ρ} (h : t.find? k = some r) : r ∈ t.rows :=
  (find?_eq_some_iff.mp h).1

theorem key_of_find? {t : Table ρ} {k : κ} {r : ρ} (h : t.find? k = some r) : key r = k :=
  (find?_eq_some_iff.mp h).2

theorem find?_of_mem {t : Table ρ} {r : ρ} (h : r ∈ t.rows) : t.find? (key r) = some r :=
  find?_eq_some_iff.mpr ⟨h, rfl⟩

/-- Tables with the same rows of one kind answer alike when only rows of that
    kind are looked for. -/
theorem find?_congr_filter {t u : Table ρ} {p : ρ → Bool} (h : t.rows.filter p = u.rows.filter p)
    (k : κ) : (t.find? k).filter p = (u.find? k).filter p := by
  have hiff : ∀ (v : Table ρ) r,
      (v.find? k).filter p = some r ↔ r ∈ v.rows.filter p ∧ key r = k := by
    intro v r
    rw [Option.filter_eq_some_iff, find?_eq_some_iff, List.mem_filter, and_right_comm]
  exact Option.ext fun r => by rw [hiff, hiff, h]

/-- The row under a key is the only one. -/
theorem filter_key_of_find? {t : Table ρ} {k : κ} {r : ρ} (h : t.find? k = some r) :
    (t.rows.filter fun s => decide (key s = k)) = [r] := by
  obtain ⟨hr, rfl⟩ := find?_eq_some_iff.mp h
  have hnodup := t.nodup
  generalize t.rows = rows at hr hnodup
  induction rows with
  | nil => cases hr
  | cons s rows ih =>
    rw [List.map_cons, List.nodup_cons] at hnodup
    by_cases hs : key s = key r
    · -- no later row has the key
      have hrest : (rows.filter fun s => decide (key s = key r)) = [] := by
        simp only [List.filter_eq_nil_iff, decide_eq_true_eq]
        exact fun u hu he => hnodup.1 (List.mem_map.mpr ⟨u, hu, he.trans hs.symm⟩)
      have hsr : s = r := by
        rcases List.mem_cons.mp hr with rfl | hr
        · rfl
        · exact absurd (List.mem_map.mpr ⟨r, hr, hs.symm⟩) hnodup.1
      simp [hrest, hsr]
    · have hr' : r ∈ rows := by
        rcases List.mem_cons.mp hr with rfl | hr
        · exact absurd rfl hs
        · exact hr
      simp [hs, ih hr' hnodup.2]

theorem find?_of_filter_key {t : Table ρ} {k : κ} {r : ρ}
    (h : (t.rows.filter fun s => decide (key s = k)) = [r]) : t.find? k = some r := by
  have hmem : r ∈ t.rows.filter fun s => decide (key s = k) := by simp [h]
  simpa [find?_eq_some_iff] using hmem

/-- A sum over rows of another kind, grouped by the row of the table each refers to. -/
theorem sum_by_key {π : Type} (t : Table ρ) (ps : List π) (ref : π → κ) (f : π → Int)
    (h : ∀ p ∈ ps, ∃ r ∈ t.rows, key r = ref p) :
    (ps.map f).sum =
      (t.rows.map fun r => ((ps.filter fun p => ref p = key r).map f).sum).sum := by
  induction ps with
  | nil => simp
  | cons p ps ih =>
    obtain ⟨r, hr, hkey⟩ := h p (by simp)
    -- `p` counts in the group of its row, and in no other
    have hone : (t.rows.map fun s => if ref p = key s then f p else 0).sum = f p := by
      have hfilter := filter_key_of_find? (find?_of_mem hr)
      have hsum : ∀ rows : List ρ, (rows.map fun s => if ref p = key s then f p else 0).sum =
          ((rows.filter fun s => decide (key s = key r)).map fun _ => f p).sum := by
        intro rows
        induction rows with
        | nil => rfl
        | cons s rows ih =>
          by_cases hs : key s = key r
          · simp [hs, hkey, ih]
          · have : ref p ≠ key s := fun e => hs (e.symm.trans hkey.symm)
            simp [hs, this, ih]
      rw [hsum, hfilter]
      simp
    rw [List.map_cons, List.sum_cons, ih fun q hq => h q (by simp [hq]), ← hone,
      ← List.sum_map_add]
    congr 1
    refine List.map_congr_left fun s _ => ?_
    by_cases hs : ref p = key s
    · simp [hs]
    · simp [hs]

/-! ## Insert -/

/-- `INSERT`: append the row unless its key is taken. -/
def insert (t : Table ρ) (r : ρ) : Table ρ :=
  if h : t.find? (key r) = none then
    ⟨t.rows ++ [r], by
      have hne := find?_eq_none_iff.mp h
      rw [List.map_append, List.nodup_append]
      refine ⟨t.nodup, by simp, ?_⟩
      rintro k hk k' hk' rfl
      obtain ⟨s, hs, rfl⟩ := List.mem_map.mp hk
      simp only [List.map_cons, List.map_nil, List.mem_singleton] at hk'
      exact hne s hs hk'⟩
  else t

theorem insert_of_fresh {t : Table ρ} {r : ρ} (h : t.find? (key r) = none) :
    (t.insert r).rows = t.rows ++ [r] := by
  simp [insert, h]

theorem insert_of_taken {t : Table ρ} {r s : ρ} (h : t.find? (key r) = some s) :
    t.insert r = t := by
  simp [insert, h]

/-- An insert leaves the rows where they are. -/
theorem rows_insert_grow (t : Table ρ) (r : ρ) : t.rows <+: (t.insert r).rows := by
  by_cases h : t.find? (key r) = none
  · rw [insert_of_fresh h]
    exact List.prefix_append _ _
  · simp [insert, h]

theorem mem_insert {t : Table ρ} {r s : ρ} :
    s ∈ (t.insert r).rows ↔ s ∈ t.rows ∨ (s = r ∧ t.find? (key r) = none) := by
  by_cases h : t.find? (key r) = none
  · simp [insert_of_fresh h, h]
  · simp [insert, h]

theorem subset_insert (t : Table ρ) (r : ρ) : t.rows ⊆ (t.insert r).rows :=
  fun _ h => mem_insert.mpr (Or.inl h)

theorem find?_insert_of_ne {t : Table ρ} {r : ρ} {k : κ} (h : key r ≠ k) :
    (t.insert r).find? k = t.find? k := by
  by_cases hf : t.find? (key r) = none
  · simp [find?, insert_of_fresh hf, List.find?_append, h]
  · simp [insert, hf]

theorem find?_insert_self {t : Table ρ} {r : ρ} (h : t.find? (key r) = none) :
    (t.insert r).find? (key r) = some r :=
  find?_eq_some_iff.mpr ⟨mem_insert.mpr (Or.inr ⟨rfl, h⟩), rfl⟩

/-- A row that is found stays found. -/
theorem find?_insert_of_some {t : Table ρ} {r s : ρ} {k : κ} (h : t.find? k = some s) :
    (t.insert r).find? k = some s := by
  obtain ⟨hmem, hkey⟩ := find?_eq_some_iff.mp h
  exact find?_eq_some_iff.mpr ⟨subset_insert t r hmem, hkey⟩

/-- What holds of no inserted row holds of the same keys as before. -/
theorem any_insert {t : Table ρ} {r : ρ} {p : ρ → Bool} (h : p r = false) (k : κ) :
    ((t.insert r).find? k).any p = (t.find? k).any p := by
  cases hfind : t.find? (key r) with
  | some s => rw [insert_of_taken hfind]
  | none =>
    by_cases hk : key r = k
    · subst hk
      rw [find?_insert_self hfind, hfind]
      simpa using h
    · rw [find?_insert_of_ne hk]

/-- After an insert, the row is there and nothing else is new. -/
theorem isSome_insert {t : Table ρ} (r : ρ) (k : κ) :
    ((t.insert r).find? k).isSome = ((t.find? k).isSome || decide (key r = k)) := by
  by_cases h : key r = k
  · subst h
    cases hf : t.find? (key r) with
    | none => simp [find?_insert_self hf]
    | some s => simp [find?_insert_of_some hf]
  · simp [find?_insert_of_ne h, h]

/-- New rows with different keys are appended in order. -/
theorem rows_foldl_insert (t : Table ρ) (rs : List ρ) (hfresh : ∀ r ∈ rs, t.find? (key r) = none)
    (hdistinct : rs.Pairwise fun r s => key r ≠ key s) :
    (rs.foldl insert t).rows = t.rows ++ rs := by
  induction rs generalizing t with
  | nil => simp
  | cons r rs ih =>
    obtain ⟨hne, hrest⟩ := List.pairwise_cons.mp hdistinct
    have hr := hfresh r (by simp)
    rw [List.foldl_cons, ih (t.insert r) (fun s hs => ?_) hrest, insert_of_fresh hr]
    · simp
    · rw [find?_insert_of_ne (hne s hs)]
      exact hfresh s (by simp [hs])

/-- Keys that rows can be inserted under, one after another. -/
def Unused (t : Table ρ) (ks : List κ) : Prop := ks.Nodup ∧ ∀ k ∈ ks, t.find? k = none

theorem unused_nil (t : Table ρ) : t.Unused [] := ⟨by simp, by simp⟩

theorem unused_cons {t : Table ρ} {r : ρ} {ks : List κ} :
    t.Unused (key r :: ks) ↔ t.find? (key r) = none ∧ (t.insert r).Unused ks := by
  have hiff : t.find? (key r) = none → ((key r ∉ ks ∧ ∀ k ∈ ks, t.find? k = none) ↔
      ∀ k ∈ ks, (t.insert r).find? k = none) := by
    intro hfresh
    constructor
    · rintro ⟨hnew, h⟩ k hk
      rw [find?_insert_of_ne (fun heq => hnew (heq ▸ hk))]
      exact h k hk
    · intro h
      have hnew : key r ∉ ks := by
        intro hmem
        have hself := h _ hmem
        rw [find?_insert_self hfresh] at hself
        cases hself
      refine ⟨hnew, fun k hk => ?_⟩
      have hother := h k hk
      rwa [find?_insert_of_ne (fun heq => hnew (heq ▸ hk))] at hother
  unfold Unused
  rw [List.nodup_cons, List.forall_mem_cons]
  constructor
  · rintro ⟨⟨hnew, hnodup⟩, hfresh, h⟩
    exact ⟨hfresh, hnodup, (hiff hfresh).mp ⟨hnew, h⟩⟩
  · rintro ⟨hfresh, hnodup, h⟩
    obtain ⟨hnew, hold⟩ := (hiff hfresh).mpr h
    exact ⟨⟨hnew, hnodup⟩, hfresh, hold⟩

/-- A query that does not select the new row answers as before. -/
theorem filter_insert {t : Table ρ} {r : ρ} {p : ρ → Bool} (h : p r = false) :
    (t.insert r).rows.filter p = t.rows.filter p := by
  cases hf : t.find? (key r) with
  | none => rw [insert_of_fresh hf, List.filter_append, List.filter_cons, h]; simp
  | some s => rw [insert_of_taken hf]

theorem total_insert_of_fresh {t : Table ρ} {r : ρ} (h : t.find? (key r) = none)
    (p : ρ → Bool) (f : ρ → Int) :
    (t.insert r).total p f = t.total p f + if p r then f r else 0 := by
  unfold total
  rw [insert_of_fresh h]
  cases hp : p r <;> simp [List.filter_append, hp]

/-- Whether or not the key was free, an insert adds at most the row's own amount. -/
theorem total_insert_le {t : Table ρ} {r : ρ} {p : ρ → Bool} {f : ρ → Int} (hf : 0 ≤ f r) :
    (t.insert r).total p f ≤ t.total p f + if p r then f r else 0 := by
  by_cases h : t.find? (key r) = none
  · exact Int.le_of_eq (total_insert_of_fresh h p f)
  · have : t.insert r = t := by simp [insert, h]
    rw [this]
    split <;> omega

/-! ## Update -/

/-- `UPDATE ... WHERE key = k`; the update may not touch the key. -/
def modify (t : Table ρ) (k : κ) (f : ρ → ρ) (hf : ∀ r, key (f r) = key r) : Table ρ :=
  ⟨t.rows.map (fun r => if key r = k then f r else r), by
    have : (t.rows.map (fun r => if key r = k then f r else r)).map key = t.rows.map key := by
      rw [List.map_map]
      apply List.map_congr_left
      intro r _
      by_cases h : key r = k <;> simp [h, hf]
    rw [this]
    exact t.nodup⟩

theorem modify_rows (t : Table ρ) (k : κ) (f : ρ → ρ) (hf : ∀ r, key (f r) = key r) :
    (t.modify k f hf).rows = t.rows.map (fun r => if key r = k then f r else r) := rfl

theorem mem_modify {t : Table ρ} {k : κ} {f : ρ → ρ} {hf : ∀ r, key (f r) = key r} {s : ρ} :
    s ∈ (t.modify k f hf).rows ↔ ∃ r ∈ t.rows, s = if key r = k then f r else r := by
  simp only [modify_rows, List.mem_map, eq_comm]

/-- A row after an update is the updated one, or one with another key. -/
theorem mem_modify_of_find? {t : Table ρ} {k : κ} {r s : ρ} (h : t.find? k = some r) (f : ρ → ρ)
    (hf : ∀ r, key (f r) = key r) (hs : s ∈ (t.modify k f hf).rows) :
    s = f r ∨ (s ∈ t.rows ∧ key s ≠ k) := by
  obtain ⟨x, hx, rfl⟩ := mem_modify.mp hs
  by_cases hk : key x = k
  · have hxr : t.find? k = some x := hk ▸ find?_of_mem hx
    rw [h] at hxr
    cases hxr
    exact .inl (if_pos hk)
  · rw [if_neg hk]
    exact .inr ⟨hx, hk⟩

theorem find?_modify (t : Table ρ) (k k' : κ) (f : ρ → ρ) (hf : ∀ r, key (f r) = key r) :
    (t.modify k f hf).find? k' = (t.find? k').map (fun r => if k' = k then f r else r) := by
  cases hfind : t.find? k' with
  | none =>
    simp only [Option.map_none]
    rw [find?_eq_none_iff] at hfind ⊢
    intro s hs
    obtain ⟨r, hr, rfl⟩ := mem_modify.mp hs
    by_cases h : key r = k
    · simpa [h, hf] using hfind r hr
    · simpa [h] using hfind r hr
  | some r =>
    obtain ⟨hr, hrk⟩ := find?_eq_some_iff.mp hfind
    refine find?_eq_some_iff.mpr ⟨mem_modify.mpr ⟨r, hr, ?_⟩, ?_⟩
    · simp [hrk]
    · by_cases h : k' = k <;> simp [h, hf, hrk]

@[simp] theorem find?_modify_self (t : Table ρ) (k : κ) (f : ρ → ρ)
    (hf : ∀ r, key (f r) = key r) : (t.modify k f hf).find? k = (t.find? k).map f := by
  simp [find?_modify]

theorem find?_modify_of_ne (t : Table ρ) {k k' : κ} (f : ρ → ρ)
    (hf : ∀ r, key (f r) = key r) (h : k' ≠ k) : (t.modify k f hf).find? k' = t.find? k' := by
  simp [find?_modify, h]

/-- Updating a key no row has changes nothing. -/
theorem modify_of_none {t : Table ρ} {k : κ} (f : ρ → ρ) (hf : ∀ r, key (f r) = key r)
    (h : t.find? k = none) : t.modify k f hf = t := by
  apply ext
  rw [modify_rows]
  conv_rhs => rw [← List.map_id t.rows]
  apply List.map_congr_left
  intro r hr
  simp [find?_eq_none_iff.mp h r hr]

/-- A query that selects the row neither before nor after an update answers as before. -/
theorem filter_modify {t : Table ρ} {k : κ} {f : ρ → ρ} {hf : ∀ r, key (f r) = key r} {p : ρ → Bool}
    (h : ∀ r, t.find? k = some r → p r = false ∧ p (f r) = false) :
    (t.modify k f hf).rows.filter p = t.rows.filter p := by
  have hrow : ∀ r ∈ t.rows, key r = k → p r = false ∧ p (f r) = false := by
    intro r hr hk
    exact h r (hk ▸ find?_of_mem hr)
  rw [modify_rows]
  generalize t.rows = rows at hrow
  induction rows with
  | nil => rfl
  | cons s rows ih =>
    have ih' := ih fun r hr => hrow r (by simp [hr])
    rw [List.map_cons, List.filter_cons, List.filter_cons, ih']
    by_cases hs : key s = k
    · obtain ⟨hbefore, hafter⟩ := hrow s (by simp) hs
      rw [if_pos hs, hbefore, hafter]
      rfl
    · rw [if_neg hs]

/-- What one updated row adds to a sum: its new amount instead of its old one. -/
theorem total_modify {t : Table ρ} {k : κ} {r : ρ} (h : t.find? k = some r) (f : ρ → ρ)
    (hf : ∀ r, key (f r) = key r) (p : ρ → Bool) (g : ρ → Int) :
    (t.modify k f hf).total p g =
      t.total p g - (if p r then g r else 0) + (if p (f r) then g (f r) else 0) := by
  obtain ⟨hmem, hkey⟩ := find?_eq_some_iff.mp h
  subst hkey
  unfold total
  rw [modify_rows]
  have hnd := t.nodup
  generalize t.rows = rows at hmem hnd
  induction rows with
  | nil => simp at hmem
  | cons s rs ih =>
    simp only [List.map_cons, List.nodup_cons] at hnd
    by_cases hs : key s = key r
    · -- `s` is the updated row; no later row has its key
      have hsr : s = r := by
        rcases List.mem_cons.mp hmem with rfl | hrs
        · rfl
        · exact absurd (List.mem_map_of_mem (f := key) hrs) (hs ▸ hnd.1)
      subst hsr
      have htail : rs.map (fun x => if key x = key s then f x else x) = rs := by
        conv_rhs => rw [← List.map_id rs]
        apply List.map_congr_left
        intro x hx
        have : key x ≠ key s := fun e => hnd.1 (e ▸ List.mem_map_of_mem (f := key) hx)
        simp [this]
      simp only [List.map_cons, if_true, htail]
      cases hp : p s <;> cases hq : p (f s) <;> simp [hp, hq] <;> omega
    · have hrs : r ∈ rs := by
        rcases List.mem_cons.mp hmem with rfl | hrs
        · exact absurd rfl hs
        · exact hrs
      have ih' := ih hrs hnd.2
      simp only [List.map_cons, hs, if_false]
      cases hp : p s
      · simpa [hp] using ih'
      · simp only [List.filter_cons, hp, if_true, List.map_cons, List.sum_cons, ih']
        omega

/-! ## Delete -/

/-- `DELETE ... WHERE key IN ks`. -/
def erase (t : Table ρ) (ks : List κ) : Table ρ :=
  ⟨t.rows.filter (fun r => decide (key r ∉ ks)), t.nodup.sublist (List.filter_sublist.map _)⟩

theorem mem_erase {t : Table ρ} {ks : List κ} {r : ρ} :
    r ∈ (t.erase ks).rows ↔ r ∈ t.rows ∧ key r ∉ ks := by
  simp [erase]

/-- A query that selects no deleted row answers as before. -/
theorem filter_erase {t : Table ρ} {ks : List κ} {p : ρ → Bool}
    (h : ∀ r ∈ t.rows, key r ∈ ks → p r = false) :
    (t.erase ks).rows.filter p = t.rows.filter p := by
  unfold erase
  rw [List.filter_filter]
  apply List.filter_congr
  intro r hr
  by_cases hk : key r ∈ ks
  · simp [h r hr hk]
  · simp [hk]

theorem find?_erase_of_not_mem {t : Table ρ} {ks : List κ} {k : κ} (h : k ∉ ks) :
    (t.erase ks).find? k = t.find? k := by
  cases hfind : t.find? k with
  | none =>
    rw [find?_eq_none_iff] at hfind ⊢
    exact fun r hr => hfind r (mem_erase.mp hr).1
  | some r =>
    obtain ⟨hr, rfl⟩ := find?_eq_some_iff.mp hfind
    exact find?_eq_some_iff.mpr ⟨mem_erase.mpr ⟨hr, h⟩, rfl⟩

theorem find?_erase_of_mem {t : Table ρ} {ks : List κ} {k : κ} (h : k ∈ ks) :
    (t.erase ks).find? k = none := by
  rw [find?_eq_none_iff]
  rintro r hr rfl
  exact (mem_erase.mp hr).2 h

end Table
