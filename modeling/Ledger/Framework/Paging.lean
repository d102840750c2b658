import Mathlib.Data.List.Basic
import Mathlib.Order.Lattice

/-! # Paging with an Exclusive Cursor

    A client reads a sorted list page by page.  A page holds at most `n` rows;
    a full page hands out the key of its last row, and the next page starts
    with the first row whose key is greater.

    * **Walk**: `walk`, the pages a client collects until no cursor comes back.
    * **Boundaries**: `Splits`, no page boundary falls between two rows with
      the same key.
    * **Result**: `walk_spec`.  The walk ends, and the pages are the whole list
      iff the boundaries are good.
-/

namespace Paging

variable {α κ : Type} [LinearOrder κ] (key : α → κ) (n : Nat)

/-- The rows after a cursor. -/
def rest (after : Option κ) (rows : List α) : List α :=
  rows.filter fun a => after.all fun c => decide (c < key a)

/-- One page. -/
def page (after : Option κ) (rows : List α) : List α := (rest key after rows).take n

/-- The cursor that comes with a page. -/
def cursor (page : List α) : Option κ :=
  if page.length = n then page.getLast?.map key else none

/-- The pages a client collects, if the walk ends within `fuel` requests. -/
def walk (rows : List α) : Nat → Option κ → Option (List (List α))
  | 0, _ => none
  | fuel + 1, after =>
    match cursor key n (page key n after rows) with
    | none => some [page key n after rows]
    | some c => (walk rows fuel (some c)).map (page key n after rows :: ·)

/-- No page boundary falls between two rows with the same key. -/
def Splits (rows : List α) : Prop :=
  ∀ k a b, 0 < k → rows[k * n - 1]? = some a → rows[k * n]? = some b → key a < key b

variable {key n}

/-- A list that fits into one page has no boundary. -/
theorem Splits.of_length_le {rows : List α} (h : rows.length ≤ n) : Splits key n rows := by
  intro k a b hk _ hb
  have hlt : k * n < rows.length := (List.getElem?_eq_some_iff.mp hb).1
  have hle : n ≤ k * n := Nat.le_mul_of_pos_left n hk
  omega

/-- Where no key occurs twice, every boundary is good. -/
theorem Splits.of_pairwise_lt {rows : List α} (hn : 0 < n)
    (h : rows.Pairwise fun a b => key a < key b) : Splits key n rows := by
  intro k a b hk ha hb
  obtain ⟨hi, rfl⟩ := List.getElem?_eq_some_iff.mp ha
  obtain ⟨hj, rfl⟩ := List.getElem?_eq_some_iff.mp hb
  have hpos : 0 < k * n := Nat.mul_pos hk hn
  exact List.pairwise_iff_getElem.mp h _ _ hi hj (by omega)

/-- The boundaries of a list are the first one and those of what follows the first page. -/
theorem splits_iff (hn : 0 < n) (rows : List α) :
    Splits key n rows ↔
      (∀ a b, rows[n - 1]? = some a → rows[n]? = some b → key a < key b) ∧
        Splits key n (rows.drop n) := by
  have hshift : ∀ k, 0 < k → n + (k * n - 1) = (k + 1) * n - 1 ∧ n + k * n = (k + 1) * n := by
    intro k hk
    have hle : n ≤ k * n := Nat.le_mul_of_pos_left n hk
    have hsucc : (k + 1) * n = k * n + n := Nat.succ_mul k n
    omega
  constructor
  · intro h
    refine ⟨fun a b ha hb => h 1 a b Nat.one_pos (by simpa using ha) (by simpa using hb), ?_⟩
    intro k a b hk ha hb
    rw [List.getElem?_drop] at ha hb
    rw [(hshift k hk).1] at ha
    rw [(hshift k hk).2] at hb
    exact h (k + 1) a b (Nat.succ_pos k) ha hb
  · rintro ⟨h1, h2⟩ k a b hk ha hb
    obtain _ | _ | k := k
    · omega
    · exact h1 a b (by simpa using ha) (by simpa using hb)
    · -- a later boundary is one of the rest
      rw [← (hshift (k + 1) (Nat.succ_pos k)).1, ← List.getElem?_drop] at ha
      rw [← (hshift (k + 1) (Nat.succ_pos k)).2, ← List.getElem?_drop] at hb
      exact h2 (k + 1) a b (Nat.succ_pos k) ha hb

/-- A later cursor leaves fewer rows. -/
theorem rest_rest {after : Option κ} {c : κ} (h : ∀ c', after = some c' → c' < c) (rows : List α) :
    rest key (some c) (rest key after rows) = rest key (some c) rows := by
  unfold rest
  rw [List.filter_filter]
  apply List.filter_congr
  intro a _
  cases hafter : after with
  | none => simp
  | some c' =>
    by_cases hc : c < key a
    · simp [hc, lt_trans (h c' hafter) hc]
    · simp [hc]

/-- In a sorted list, the rows after the key of the last row of a full page
    come after that page. -/
theorem rest_of_sorted {rows : List α} (hsorted : rows.Pairwise fun a b => key a ≤ key b)
    {last : α} (hlast : rows[n - 1]? = some last) (hn : 0 < n) :
    rest key (some (key last)) rows = rest key (some (key last)) (rows.drop n) := by
  have hlt : n - 1 < rows.length := (List.getElem?_eq_some_iff.mp hlast).1
  have hget : rows[n - 1] = last := (List.getElem?_eq_some_iff.mp hlast).2
  have hnil : rest key (some (key last)) (rows.take n) = [] := by
    unfold rest
    rw [List.filter_eq_nil_iff]
    intro a ha hgt
    obtain ⟨i, hi, rfl⟩ := List.mem_iff_getElem.mp ha
    rw [List.length_take] at hi
    simp only [List.getElem_take, Option.all_some, decide_eq_true_eq] at hgt
    -- no row of the page has a key greater than the last one's
    have hle : key rows[i] ≤ key rows[n - 1] := by
      rcases Nat.lt_or_ge i (n - 1) with hlt' | hge
      · exact List.pairwise_iff_getElem.mp hsorted i (n - 1) (by omega) hlt hlt'
      · have : i = n - 1 := by omega
        subst this
        exact le_refl _
    rw [hget] at hle
    exact absurd hgt (not_lt.mpr hle)
  conv_lhs => rw [← List.take_append_drop n rows]
  show List.filter _ _ = _
  rw [List.filter_append]
  show rest key (some (key last)) (rows.take n) ++ rest key (some (key last)) (rows.drop n) = _
  rw [hnil, List.nil_append]

/-- A full page hands out the key of its last row. -/
theorem cursor_of_full (hn : 0 < n) {after : Option κ} {rows : List α} {last : α}
    (hlast : (rest key after rows)[n - 1]? = some last) :
    cursor key n (page key n after rows) = some (key last) := by
  have hlt : n - 1 < (rest key after rows).length := (List.getElem?_eq_some_iff.mp hlast).1
  unfold cursor page
  rw [if_pos (by rw [List.length_take]; omega), List.getLast?_eq_getElem?, List.length_take,
    Nat.min_eq_left (by omega), List.getElem?_take_of_lt (by omega), hlast]
  rfl

/-- Rows that all come after the cursor are all left. -/
theorem rest_eq_self {c : κ} {b : α} {rows : List α}
    (hsorted : (b :: rows).Pairwise fun a b => key a ≤ key b) (h : c < key b) :
    rest key (some c) (b :: rows) = b :: rows := by
  unfold rest
  rw [List.filter_eq_self]
  intro x hx
  have hbx : key b ≤ key x := by
    rcases List.mem_cons.mp hx with rfl | hx
    · exact le_refl _
    · exact (List.pairwise_cons.mp hsorted).1 x hx
  simpa using lt_of_lt_of_le h hbx

/-- A row with the key of the cursor is skipped. -/
theorem rest_length_lt {c : κ} {b : α} (rows : List α) (h : ¬ c < key b) :
    (rest key (some c) (b :: rows)).length < (b :: rows).length := by
  unfold rest
  rw [List.filter_cons_of_neg (by simpa using h)]
  exact Nat.lt_succ_of_le (List.length_filter_le _ _)

/-- What the pages after a full page hold, from what the walk from its cursor holds. -/
theorem flatten_eq_iff (hn : 0 < n) {rows : List α}
    (hsorted : rows.Pairwise fun a b => key a ≤ key b) {last : α}
    (hlast : rows[n - 1]? = some last) {pages : List (List α)}
    (hsub : pages.flatten.Sublist (rest key (some (key last)) (rows.drop n)))
    (hiff : pages.flatten = rest key (some (key last)) (rows.drop n) ↔
      Splits key n (rest key (some (key last)) (rows.drop n))) :
    pages.flatten = rows.drop n ↔ Splits key n rows := by
  rw [splits_iff hn]
  cases htail : rows.drop n with
  | nil =>
    -- the page was full and the last one
    rw [htail] at hsub
    refine iff_of_true (List.sublist_nil.mp hsub) ⟨fun a b _ hb => ?_, ?_⟩
    · have hlt := (List.getElem?_eq_some_iff.mp hb).1
      have hle := List.drop_eq_nil_iff.mp htail
      omega
    · exact Splits.of_length_le (by simp)
  | cons b tail =>
    have hb : rows[n]? = some b := by
      rw [← List.head?_drop, htail]
      rfl
    rw [htail] at hsub hiff
    by_cases hkey : key last < key b
    · -- nothing is skipped
      have hsorted' : (b :: tail).Pairwise fun a b => key a ≤ key b :=
        htail ▸ hsorted.sublist (List.drop_sublist n _)
      rw [rest_eq_self hsorted' hkey] at hiff
      rw [hiff]
      constructor
      · intro h
        refine ⟨fun a' b' ha' hb' => ?_, h⟩
        rw [hlast] at ha'
        rw [hb] at hb'
        cases ha'
        cases hb'
        exact hkey
      · intro h
        exact h.2
    · -- the first row after the page is skipped
      refine iff_of_false (fun h => ?_) fun h => hkey (h.1 last b hlast hb)
      have hlt := rest_length_lt tail hkey
      have hle := hsub.length_le
      rw [h] at hle
      omega

/-- From any cursor the walk ends, and its pages hold all the rows that were
    left iff the boundaries between these are good. -/
theorem walk_from (hn : 0 < n) {rows : List α}
    (hsorted : rows.Pairwise fun a b => key a ≤ key b) (after : Option κ) :
    ∃ pages, (∀ fuel, (rest key after rows).length < fuel →
        walk key n rows fuel after = some pages) ∧
      pages.flatten.Sublist (rest key after rows) ∧
      (pages.flatten = rest key after rows ↔ Splits key n (rest key after rows)) := by
  -- induction on the number of rows that are left
  generalize hlen : (rest key after rows).length = len
  induction len using Nat.strongRecOn generalizing after with
  | ind len ih =>
    have hsub : (rest key after rows).Pairwise fun a b => key a ≤ key b :=
      hsorted.sublist List.filter_sublist
    have hpage : page key n after rows = (rest key after rows).take n := rfl
    rcases Nat.lt_or_ge (rest key after rows).length n with hshort | hlong
    · -- the last page
      have htake : page key n after rows = rest key after rows := by
        rw [hpage, List.take_of_length_le (by omega)]
      have hcursor : cursor key n (page key n after rows) = none := by
        unfold cursor
        rw [htake, if_neg (by omega)]
      refine ⟨[page key n after rows], fun fuel hfuel => ?_, by simp [htake], ?_⟩
      · obtain _ | fuel := fuel
        · omega
        · simp [walk, hcursor]
      · simp [htake, Splits.of_length_le (Nat.le_of_lt hshort)]
    · -- a full page, whose last row gives the cursor
      have hlt : n - 1 < (rest key after rows).length := by omega
      obtain ⟨last, hlast⟩ : ∃ last, (rest key after rows)[n - 1]? = some last :=
        ⟨_, List.getElem?_eq_getElem hlt⟩
      have hcursor := cursor_of_full hn hlast
      have hafter : ∀ c', after = some c' → c' < key last := by
        intro c' hc'
        subst hc'
        have hmem : last ∈ rest key (some c') rows := List.mem_of_getElem? hlast
        unfold rest at hmem
        simpa using (List.mem_filter.mp hmem).2
      have hrest : rest key (some (key last)) rows =
          rest key (some (key last)) ((rest key after rows).drop n) := by
        rw [← rest_rest hafter, rest_of_sorted hsub hlast hn]
      have hle : (rest key (some (key last)) rows).length ≤ len - n := by
        rw [hrest, ← hlen, ← List.length_drop]
        exact List.length_filter_le _ _
      obtain ⟨pages, hwalk, hsublist, hiff⟩ :=
        ih (rest key (some (key last)) rows).length (by omega) (some (key last)) rfl
      rw [hrest] at hsublist hiff
      refine ⟨page key n after rows :: pages, fun fuel hfuel => ?_, ?_, ?_⟩
      · obtain _ | fuel := fuel
        · omega
        · simp [walk, hcursor, hwalk fuel (by omega)]
      · rw [List.flatten_cons, hpage]
        conv_rhs => rw [← List.take_append_drop n (rest key after rows)]
        exact List.Sublist.append_left (hsublist.trans List.filter_sublist) _
      · rw [← flatten_eq_iff hn hsub hlast hsublist hiff, List.flatten_cons, hpage]
        have hcut := List.take_append_drop n (rest key after rows)
        constructor
        · intro h
          exact List.append_cancel_left (h.trans hcut.symm)
        · intro h
          rw [h, hcut]

/-- **A walk from the start** ends and repeats nothing, and its pages are the
    list iff no page boundary falls between two rows with the same key. -/
theorem walk_spec (hn : 0 < n) {rows : List α}
    (hsorted : rows.Pairwise fun a b => key a ≤ key b) :
    ∃ pages, (∀ fuel, rows.length < fuel → walk key n rows fuel none = some pages) ∧
      pages.flatten.Sublist rows ∧ (pages.flatten = rows ↔ Splits key n rows) := by
  have hrest : rest key none rows = rows := by
    unfold rest
    simp
  have h := walk_from hn hsorted none
  rwa [hrest] at h

end Paging
