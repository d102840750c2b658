import Mathlib.Data.List.Sort

/-! # Windows of a Sorted List

    A query with a `WHERE` and an `ORDER BY` filters the rows and then sorts
    them; its answers for different conditions are parts of one sorted list.

    * **Order**: `Lex`, two columns, a total preorder.
    * **Filtering**: the sort is stable, so it commutes with a filter.
    * **Cutting**: a sorted list is what lies before a cut, then the rest.
    * **Ties**: which lists the query may answer with, and when there is one.
-/

namespace Sorting

open List

variable {α : Type} {r : α → α → Prop}

/-! ## Lexicographic Order -/

section lex

variable {κ μ : Type} [LinearOrder κ] [LinearOrder μ]

/-- By a first column, then by a second one. -/
def Lex (f : α → κ) (g : α → μ) (a b : α) : Prop := f a < f b ∨ (f a = f b ∧ g a ≤ g b)

instance (f : α → κ) (g : α → μ) : Std.Total (Lex f g) where
  total a b := by
    unfold Lex
    rcases lt_trichotomy (f a) (f b) with h | h | h
    · exact .inl (.inl h)
    · rcases le_total (g a) (g b) with hg | hg
      · exact .inl (.inr ⟨h, hg⟩)
      · exact .inr (.inr ⟨h.symm, hg⟩)
    · exact .inr (.inl h)

instance (f : α → κ) (g : α → μ) : IsTrans α (Lex f g) where
  trans a b c hab hbc := by
    unfold Lex at hab hbc ⊢
    rcases hab with hab | ⟨hab, hgab⟩
    · rcases hbc with hbc | ⟨hbc, -⟩
      · exact .inl (hab.trans hbc)
      · exact .inl (hbc ▸ hab)
    · rcases hbc with hbc | ⟨hbc, hgbc⟩
      · exact .inl (hab ▸ hbc)
      · exact .inr ⟨hab.trans hbc, hgab.trans hgbc⟩

theorem Lex.fst_le {f : α → κ} {g : α → μ} {a b : α} (h : Lex f g a b) : f a ≤ f b := by
  rcases h with h | h
  · exact le_of_lt h
  · exact le_of_eq h.1

end lex

/-! ## Filtering and Cutting -/

/-- An element that may come first is inserted first. -/
theorem orderedInsert_of_forall [DecidableRel r] {a : α} {l : List α} (h : ∀ b ∈ l, r a b) :
    l.orderedInsert r a = a :: l := by
  cases l with
  | nil => rfl
  | cons b l => exact orderedInsert_cons_of_le r l (h b mem_cons_self)

/-- Inserting into a sorted list and filtering. -/
theorem filter_orderedInsert [DecidableRel r] [IsTrans α r] (p : α → Bool) (a : α) {l : List α}
    (hl : l.Pairwise r) :
    (l.orderedInsert r a).filter p =
      if p a then (l.filter p).orderedInsert r a else l.filter p := by
  induction l with
  | nil => cases hp : p a <;> simp [hp]
  | cons b l ih =>
    obtain ⟨hb, hl'⟩ := pairwise_cons.mp hl
    by_cases hab : r a b
    · -- the element goes in front of everything that is kept
      rw [orderedInsert_cons_of_le r l hab]
      have hall : ∀ c ∈ (b :: l).filter p, r a c := by
        intro c hc
        rcases mem_cons.mp (mem_filter.mp hc).1 with rfl | hc
        · exact hab
        · exact trans_of r hab (hb c hc)
      rw [orderedInsert_of_forall hall, filter_cons]
    · rw [orderedInsert_cons, if_neg hab, filter_cons, ih hl', filter_cons]
      cases hpa : p a <;> cases hpb : p b <;> simp [hab]

/-- **Sorting commutes with filtering.** -/
theorem filter_insertionSort [DecidableRel r] [Std.Total r] [IsTrans α r]
    (p : α → Bool) (l : List α) :
    (l.insertionSort r).filter p = (l.filter p).insertionSort r := by
  induction l with
  | nil => rfl
  | cons a l ih =>
    rw [insertionSort_cons, filter_orderedInsert p a (pairwise_insertionSort r l), ih, filter_cons]
    cases p a <;> simp

/-- A sorted list, cut where a property that holds of a beginning ends. -/
theorem filter_append {l : List α} (hl : l.Pairwise r) {p : α → Bool}
    (hp : ∀ a b, r a b → p b = true → p a = true) :
    l.filter p ++ l.filter (fun a => !p a) = l := by
  induction l with
  | nil => rfl
  | cons a l ih =>
    obtain ⟨ha, hl'⟩ := pairwise_cons.mp hl
    cases hpa : p a with
    | true => simp [hpa, ih hl']
    | false =>
      -- nothing after the cut has the property
      have hnone : l.filter p = [] := by
        rw [filter_eq_nil_iff]
        intro b hb hpb
        rw [hp a b (ha b hb) hpb] at hpa
        cases hpa
      have hrest := ih hl'
      rw [hnone, nil_append] at hrest
      simp [hpa, hnone, hrest]

/-- A list whose keys are distinct, without the keys of a beginning. -/
theorem filter_notMem_take {κ : Type} [DecidableEq κ] {f : α → κ} {l : List α}
    (h : (l.map f).Nodup) (n : Nat) :
    l.filter (fun a => decide (f a ∉ (l.take n).map f)) = l.drop n := by
  have hnodup : ((l.take n).map f ++ (l.drop n).map f).Nodup := by
    rwa [← map_append, take_append_drop]
  obtain ⟨-, -, hdisjoint⟩ := nodup_append.mp hnodup
  have hnone : (l.take n).filter (fun a => decide (f a ∉ (l.take n).map f)) = [] := by
    rw [filter_eq_nil_iff]
    intro a ha hout
    exact of_decide_eq_true hout (mem_map_of_mem ha)
  have hall : (l.drop n).filter (fun a => decide (f a ∉ (l.take n).map f)) = l.drop n := by
    rw [filter_eq_self]
    intro a ha
    refine decide_eq_true fun hin => ?_
    exact hdisjoint (f a) hin (f a) (mem_map_of_mem ha) rfl
  calc l.filter (fun a => decide (f a ∉ (l.take n).map f))
      = (l.take n ++ l.drop n).filter (fun a => decide (f a ∉ (l.take n).map f)) := by
        rw [take_append_drop]
    _ = l.drop n := by rw [List.filter_append, hnone, hall, nil_append]

/-! ## Ties -/

/-- The lists an `ORDER BY` may answer with: the rows in any order that keeps
    the columns. -/
def Answers (r : α → α → Prop) (l x : List α) : Prop := x.Perm l ∧ x.Pairwise r

/-- No two rows agree on the columns. -/
def Untied (r : α → α → Prop) (l : List α) : Prop :=
  ∀ a ∈ l, ∀ b ∈ l, r a b → r b a → a = b

theorem answers_insertionSort [DecidableRel r] [Std.Total r] [IsTrans α r] (l : List α) :
    Answers r l (l.insertionSort r) :=
  ⟨perm_insertionSort r l, pairwise_insertionSort r l⟩

/-- Rows that agree on the columns stay in the order they come in. -/
theorem insertionSort_of_tied [DecidableRel r] {l : List α} (h : ∀ a ∈ l, ∀ b ∈ l, r a b) :
    l.insertionSort r = l :=
  (pairwise_of_forall_mem_list h).insertionSort_eq

/-- Two tied rows may come in either order. -/
theorem tied_answers [DecidableEq α] [DecidableRel r] [Std.Total r] [IsTrans α r] {l : List α}
    {a b : α} (ha : a ∈ l) (hb : b ∈ l) (hab : r a b) (hba : r b a) (hne : a ≠ b) :
    ∃ x y, Answers r l x ∧ Answers r l y ∧ x ≠ y := by
  have hb' : b ∈ l.erase a := (mem_erase_of_ne hne.symm).mpr hb
  have hperm : (a :: b :: (l.erase a).erase b).Perm l :=
    ((perm_cons_erase hb').symm.cons a).trans (perm_cons_erase ha).symm
  generalize (l.erase a).erase b = rest at hperm
  have hperm' : (b :: a :: rest).Perm l := (Perm.swap a b rest).trans hperm
  refine ⟨(a :: b :: rest).insertionSort r, (b :: a :: rest).insertionSort r,
    ⟨(perm_insertionSort r _).trans hperm, pairwise_insertionSort r _⟩,
    ⟨(perm_insertionSort r _).trans hperm', pairwise_insertionSort r _⟩, ?_⟩
  -- the sort is stable, so each list shows its own order of the two rows
  have hkeep : ∀ l : List α, (l.insertionSort r).filter (fun c => decide (c = a ∨ c = b)) =
      l.filter fun c => decide (c = a ∨ c = b) := by
    intro l
    have hrefl : ∀ c, r c c := fun c => (Std.Total.total (r := r) c c).elim id id
    rw [filter_insertionSort]
    refine insertionSort_of_tied fun c hc e he => ?_
    rcases of_decide_eq_true (mem_filter.mp hc).2 with rfl | rfl
    · rcases of_decide_eq_true (mem_filter.mp he).2 with rfl | rfl
      · exact hrefl _
      · exact hab
    · rcases of_decide_eq_true (mem_filter.mp he).2 with rfl | rfl
      · exact hba
      · exact hrefl _
  intro heq
  have hfirst := congrArg (List.filter fun c => decide (c = a ∨ c = b)) heq
  rw [hkeep, hkeep] at hfirst
  simp [hne] at hfirst

/-- **The answer is unique** iff no two rows agree on the columns. -/
theorem answers_unique_iff [DecidableEq α] [DecidableRel r] [Std.Total r] [IsTrans α r]
    (l : List α) :
    (∀ x y, Answers r l x → Answers r l y → y = x) ↔ Untied r l := by
  constructor
  · intro h a ha b hb hab hba
    by_contra hne
    obtain ⟨x, y, hx, hy, hxy⟩ := tied_answers ha hb hab hba hne
    exact hxy (h x y hx hy).symm
  · intro h x y hx hy
    refine (hy.1.trans hx.1.symm).eq_of_pairwise ?_ hy.2 hx.2
    intro a b ha hb hab hba
    exact h a (hy.1.subset ha) b (hx.1.subset hb) hab hba

end Sorting
