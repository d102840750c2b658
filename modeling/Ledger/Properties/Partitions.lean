import Ledger.Data.Partitioning
import Ledger.Runs.Sessions

/-! # Partitions

    A child table is named after its key and bounded by its month.  The name
    loses part of the tenant, and the bounds lose all of it; the key is read
    off the wall clock, and the bounds are in UTC.

    * **Names and bounds**: `suffix_iff`, when two keys have one suffix, and
      `admits_iff`, which rows a child admits.
    * **Separation**: `partitions_separate_iff`, for two keys.
    * **Routing**: `routing_within_bounds_iff`, for a row and its key.
-/

namespace Ledger

open Calendar
open ReadCommitted (Time)

/-! ## Names and Bounds -/

/-- The key is of a month the calendar has. -/
structure PartitionKey.Valid (k : PartitionKey) : Prop where
  year : 1 ≤ k.year ∧ k.year ≤ 9999
  month : 1 ≤ k.month ∧ k.month ≤ 12

instance (k : PartitionKey) : Decidable k.Valid :=
  decidable_of_iff ((1 ≤ k.year ∧ k.year ≤ 9999) ∧ 1 ≤ k.month ∧ k.month ≤ 12)
    ⟨fun h => ⟨h.1, h.2⟩, fun h => ⟨h.year, h.month⟩⟩

section keys

variable {k k' : PartitionKey}

theorem PartitionKey.Valid.isMonth (h : k.Valid) : IsMonth k.year k.month := ⟨h.year.1, h.month⟩

/-- Years and months have a fixed width, so the suffix falls apart from its end. -/
theorem suffix_iff (h : k.Valid) (h' : k'.Valid) : k.suffix = k'.suffix ↔
    k.safeTenant = k'.safeTenant ∧ k.year = k'.year ∧ k.month = k'.month := by
  have hyear : ∀ {k : PartitionKey}, k.Valid → (Text.zfill 4 k.year).toList.length = 4 := by
    intro k h
    exact Text.length_zfill (by omega) (by have := h.year.2; omega)
  have hmonth : ∀ {k : PartitionKey}, k.Valid → (Text.zfill 2 k.month).toList.length = 2 := by
    intro k h
    exact Text.length_zfill (by omega) (by have := h.month.2; omega)
  constructor
  · intro heq
    have hlist := congrArg String.toList heq
    unfold PartitionKey.suffix at hlist
    simp only [String.toList_append] at hlist
    obtain ⟨hrest, hm⟩ := List.append_inj' hlist ((hmonth h).trans (hmonth h').symm)
    obtain ⟨hrest, -⟩ := List.append_inj' hrest rfl
    obtain ⟨hrest, hy⟩ := List.append_inj' hrest ((hyear h).trans (hyear h').symm)
    obtain ⟨hsafe, -⟩ := List.append_inj' hrest rfl
    exact ⟨String.toList_inj.mp hsafe, Text.zfill_inj (String.toList_inj.mp hy),
      Text.zfill_inj (String.toList_inj.mp hm)⟩
  · rintro ⟨hsafe, hy, hm⟩
    unfold PartitionKey.suffix
    rw [hsafe, hy, hm]

/-- A bound is read as the start of the month it was printed from. -/
theorem readBound_boundText (y m : Nat) : readBound (boundText y m) = some (monthStart y m) := by
  have hdigits : ∀ width n, '-' ∉ (Text.zfill width n).toList := by
    intro width n hmem
    have hdigit := Text.isDigit_of_mem_zfill hmem
    cases hdigit
  have hdash : "-".toList = ['-'] := by simp
  unfold readBound boundText
  rw [Text.partition_append _ hdash (hdigits 4 y)]
  dsimp only
  rw [Text.partition_append _ hdash (hdigits 2 m)]
  simp only [if_true, Text.readNat_zfill]

theorem monthBounds_eq (k : PartitionKey) : monthBounds k =
    (boundText k.year k.month, boundText (next k.year k.month).1 (next k.year k.month).2) := by
  unfold monthBounds next
  split_ifs <;> rfl

/-- The children of a key. -/
theorem children_eq [Runtime] (k : PartitionKey) : children k =
    .ok (PARTITIONED_TABLES.map fun table =>
      ⟨table ++ "_p_" ++ k.suffix, table, (monthBounds k).1, (monthBounds k).2⟩) := rfl

theorem childTableName_eq [Runtime] {table : String} (h : table ∈ PARTITIONED_TABLES) :
    childTableName table k = .ok (table ++ "_p_" ++ k.suffix) := by
  unfold childTableName
  rw [if_neg (not_not.mpr h)]

/-- The bounds of a key are those of its month in UTC. -/
theorem within_iff (h : 1 ≤ k.month ∧ k.month ≤ 12) (i : Time) :
    within (monthBounds k) i ↔ InMonth k.year k.month i := by
  unfold within InMonth
  rw [monthBounds_eq]
  simp only [readBound_boundText, Option.mem_def, Option.some.injEq, exists_eq_left',
    monthStart_next h]

/-- **A child admits** the rows of its month, whoever they belong to. -/
theorem admits_iff (h : 1 ≤ k.month ∧ k.month ≤ 12) (name parent t : String) (i : Time) :
    (⟨name, parent, (monthBounds k).1, (monthBounds k).2⟩ : Child).Admits t i ↔
      InMonth k.year k.month i :=
  within_iff h i

end keys

/-! ## Separation -/

section separation

variable [Runtime] {k k' : PartitionKey}

/-- The children of two keys have different names for each table, and no row
    is within the bounds of both. -/
def Separate (k k' : PartitionKey) : Prop :=
  ∃ cs cs', children k = .ok cs ∧ children k' = .ok cs' ∧
    ∀ c ∈ cs, ∀ c' ∈ cs', c.parent = c'.parent →
      c.name ≠ c'.name ∧ ∀ t i, ¬ (c.Admits t i ∧ c'.Admits t i)

/-- Two children have one name when the keys have one suffix. -/
theorem childTableName_iff {table : String} (h : table ∈ PARTITIONED_TABLES) :
    childTableName table k = childTableName table k' ↔ k.suffix = k'.suffix := by
  rw [childTableName_eq h, childTableName_eq h, Except.ok.injEq, String.append_right_inj]

/-- **Two keys are separate** exactly when they are of different months; their
    names differ when that or the tenants as they are written do. -/
theorem partitions_separate_iff (hk : k.Valid) (hk' : k'.Valid) :
    (Separate k k' ↔ (k.year, k.month) ≠ (k'.year, k'.month)) ∧
      ∀ table ∈ PARTITIONED_TABLES, childTableName table k = childTableName table k' ↔
        k.safeTenant = k'.safeTenant ∧ (k.year, k.month) = (k'.year, k'.month) := by
  constructor
  · unfold Separate
    rw [children_eq, children_eq]
    simp only [Except.ok.injEq, exists_and_left, exists_eq_left']
    constructor
    · intro h heq
      obtain ⟨hyear, hmonth⟩ := Prod.mk.inj heq
      -- the first instant of the month is within the bounds of both
      have hpostings : "postings" ∈ PARTITIONED_TABLES := by simp [PARTITIONED_TABLES]
      obtain ⟨-, hrows⟩ := h _ (List.mem_map_of_mem hpostings) _ (List.mem_map_of_mem hpostings) rfl
      refine hrows k.tenantId (monthStart k.year k.month) ⟨?_, ?_⟩
      · exact (admits_iff hk.month _ _ _ _).mpr (inMonth_monthStart k.year k.month)
      · rw [admits_iff hk'.month, ← hyear, ← hmonth]
        exact inMonth_monthStart k.year k.month
    · intro hmonths c hc c' hc' hparent
      obtain ⟨table, -, rfl⟩ := List.mem_map.mp hc
      obtain ⟨table', -, rfl⟩ := List.mem_map.mp hc'
      dsimp only at hparent
      subst hparent
      constructor
      · intro hname
        rw [String.append_right_inj, suffix_iff hk hk'] at hname
        exact hmonths (Prod.mk.injEq _ _ _ _ ▸ hname.2)
      · rintro t i ⟨hadmits, hadmits'⟩
        rw [admits_iff hk.month] at hadmits
        rw [admits_iff hk'.month] at hadmits'
        obtain ⟨hyear, hmonth⟩ := hadmits.unique hk.isMonth hk'.isMonth hadmits'
        exact hmonths (Prod.mk.injEq _ _ _ _ ▸ ⟨hyear, hmonth⟩)
  · intro table htable
    rw [childTableName_iff htable, suffix_iff hk hk', Prod.mk.injEq]

end separation

section

open Sample

/-- A tenant in July and in August. -/
theorem separate_months : Separate ⟨"acme", 2026, 7⟩ ⟨"acme", 2026, 8⟩ :=
  (partitions_separate_iff (by decide) (by decide)).1.mpr (by decide)

/-- Two tenants that are written alike share their children. -/
theorem shared_children : ¬ ∀ k k' : PartitionKey, k.Valid → k'.Valid → k ≠ k' →
    Separate k k' := by
  intro hall
  obtain ⟨cs, cs', hcs, hcs', hseparate⟩ := hall ⟨"a-b", 2026, 7⟩ ⟨"a_b", 2026, 7⟩ (by decide)
    (by decide) (by decide)
  have hsame : PartitionKey.suffix ⟨"a-b", 2026, 7⟩ = PartitionKey.suffix ⟨"a_b", 2026, 7⟩ := by
    decide +kernel
  rw [children_eq, Except.ok.injEq] at hcs hcs'
  subst hcs hcs'
  have hpostings : "postings" ∈ PARTITIONED_TABLES := by simp [PARTITIONED_TABLES]
  obtain ⟨hname, -⟩ := hseparate _ (List.mem_map_of_mem hpostings) _
    (List.mem_map_of_mem hpostings) rfl
  exact hname (by rw [hsame])

end

/-! ## Routing -/

/-- The row is within the bounds of its key, and of no other month. -/
def Routed (tenantId : String) (effectiveAt : DateTime) : Prop :=
  within (monthBounds (route tenantId effectiveAt)) effectiveAt.instant ∧
    ∀ k : PartitionKey, k.Valid → k.tenantId = tenantId →
      within (monthBounds k) effectiveAt.instant → k = route tenantId effectiveAt

/-- The offset does not carry the wall clock over an end of its month. -/
def KeepsMonth (t : DateTime) : Prop :=
  t.utcoffset ≤ t.elapsed ∧ t.elapsed - t.utcoffset < monthLength t.year t.month

instance (t : DateTime) : Decidable (KeepsMonth t) := by
  unfold KeepsMonth; infer_instance

theorem route_valid (tenantId : String) (t : DateTime) : (route tenantId t).Valid :=
  ⟨t.year_mem, t.month_mem⟩

/-- An instant is within the bounds of one month only. -/
theorem within_unique {k k' : PartitionKey} (hk : k.Valid) (hk' : k'.Valid) {i : Time}
    (h : within (monthBounds k) i) (h' : within (monthBounds k') i) :
    k.year = k'.year ∧ k.month = k'.month := by
  rw [within_iff hk.month] at h
  rw [within_iff hk'.month] at h'
  exact h.unique hk.isMonth hk'.isMonth h'

/-- The bounds of a month end where those of the next one start. -/
theorem monthBounds_next (k : PartitionKey) : (monthBounds k).2 =
    (monthBounds
      { k with year := (next k.year k.month).1, month := (next k.year k.month).2 }).1 := by
  rw [monthBounds_eq, monthBounds_eq]

/-- **Routing agrees with the bounds** exactly for the rows whose month on the
    wall clock is their month in UTC.  Whatever the row, the bounds of two
    months do not both hold it, and those of consecutive months meet. -/
theorem routing_within_bounds_iff (tenantId : String) (effectiveAt : DateTime) :
    (Routed tenantId effectiveAt ↔ KeepsMonth effectiveAt) ∧
    (∀ k k' : PartitionKey, k.Valid → k'.Valid → within (monthBounds k) effectiveAt.instant →
      within (monthBounds k') effectiveAt.instant → k.year = k'.year ∧ k.month = k'.month) ∧
    ∀ k : PartitionKey, (monthBounds k).2 =
      (monthBounds
        (if k.month = 12 then { k with year := k.year + 1, month := 1 }
        else { k with month := k.month + 1 })).1 := by
  refine ⟨?_, fun k k' hk hk' h h' => within_unique hk hk' h h', fun k => ?_⟩
  · have hvalid := route_valid tenantId effectiveAt
    have hwithin : within (monthBounds (route tenantId effectiveAt)) effectiveAt.instant ↔
        KeepsMonth effectiveAt :=
      (within_iff hvalid.month _).trans effectiveAt.inMonth_iff
    constructor
    · intro h
      exact hwithin.mp h.1
    · intro h
      have hin := hwithin.mpr h
      refine ⟨hin, fun k hk ht hother => ?_⟩
      obtain ⟨hyear, hmonth⟩ := within_unique hk hvalid hother hin
      cases k
      dsimp only at ht hyear hmonth
      subst ht hyear hmonth
      rfl
  · rw [monthBounds_next]
    unfold next
    split_ifs <;> rfl

/-- Midnight of August 1st and an hour, two hours east of UTC. -/
def augustFirst : DateTime where
  year := 2026
  month := 8
  day := 1
  time := 3600 * 1000000
  utcoffset := 2 * 3600 * 1000000
  year_mem := by decide
  month_mem := by decide
  day_mem := by decide
  time_mem := by decide
  utcoffset_mem := by decide

/-- It is still July in UTC. -/
theorem routed_out_of_bounds : ¬ ∀ tenantId effectiveAt, Routed tenantId effectiveAt := by
  intro hall
  have hwithin := (hall "acme" augustFirst).1
  rw [within_iff (by decide)] at hwithin
  revert hwithin
  decide

end Ledger
