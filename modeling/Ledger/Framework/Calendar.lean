import Mathlib.Data.Nat.SuccPred
import Mathlib.Order.SuccPred.IntervalSucc
import Mathlib.Tactic.Ring

/-! # The Calendar

    The proleptic Gregorian calendar, with instants in microseconds since
    1970 in UTC.

    * **Days**: the ordinal of a date, from the days before its year and its
      month.
    * **Months**: `monthStart`, a strictly increasing sequence when the months
      are counted through, so their intervals are disjoint and meet.
    * **Date and time**: `DateTime`, wall-clock fields with an offset.
-/

namespace Calendar

/-! ## Days -/

/-- Leap years. -/
def isLeap (y : Nat) : Bool := y % 4 = 0 && (y % 100 ≠ 0 || y % 400 = 0)

/-- The number of days of a month. -/
def daysInMonth (y m : Nat) : Nat :=
  if m = 2 then if isLeap y then 29 else 28
  else if m = 4 || m = 6 || m = 9 || m = 11 then 30
  else 31

/-- The number of days before January 1st of a year, from year 1. -/
def daysBeforeYear (y : Nat) : Int :=
  let n : Int := y - 1
  n * 365 + n / 4 - n / 100 + n / 400

/-- The number of days of a year before a month. -/
def daysBeforeMonth (y : Nat) : Nat → Nat
  | 0 | 1 => 0
  | m + 2 => daysBeforeMonth y (m + 1) + daysInMonth y (m + 1)

/-- The ordinal of a date; January 1st of year 1 is day 1. -/
def ordinal (y m d : Nat) : Int := daysBeforeYear y + daysBeforeMonth y m + d

theorem daysInMonth_pos (y m : Nat) : 0 < daysInMonth y m := by
  unfold daysInMonth
  split_ifs <;> omega

theorem daysBeforeMonth_succ (y : Nat) {m : Nat} (h : 1 ≤ m) :
    daysBeforeMonth y (m + 1) = daysBeforeMonth y m + daysInMonth y m := by
  obtain ⟨k, rfl⟩ := Nat.exists_eq_add_of_le' h
  rfl

/-- A year has as many days as its months. -/
theorem daysBeforeYear_succ (y : Nat) :
    daysBeforeYear (y + 1) = daysBeforeYear y + daysBeforeMonth y 13 := by
  have hmonths : daysBeforeMonth y 13 = if isLeap y then 366 else 365 := by
    simp only [daysBeforeMonth, daysInMonth]
    cases isLeap y <;> rfl
  rw [hmonths]
  unfold daysBeforeYear isLeap
  split_ifs with hleap
  · simp only [Bool.and_eq_true, Bool.or_eq_true, decide_eq_true_eq] at hleap
    push_cast
    omega
  · simp only [Bool.and_eq_true, Bool.or_eq_true, decide_eq_true_eq, not_and, not_or,
      Decidable.not_not] at hleap
    push_cast
    omega

/-! ## Months -/

/-- The month that follows. -/
def next (y m : Nat) : Nat × Nat := if m = 12 then (y + 1, 1) else (y, m + 1)

/-- A month follows on the days of the one before it. -/
theorem ordinal_next {y m : Nat} (hm : 1 ≤ m) (hm' : m ≤ 12) :
    ordinal (next y m).1 (next y m).2 1 = ordinal y m 1 + daysInMonth y m := by
  unfold next ordinal
  split_ifs with hdec
  · subst hdec
    rw [daysBeforeYear_succ, daysBeforeMonth_succ y (m := 12) (by omega)]
    simp only [daysBeforeMonth]
    push_cast
    omega
  · rw [daysBeforeMonth_succ y hm]
    push_cast
    omega

/-- The months counted through. -/
def monthIndex (y m : Nat) : Nat := 12 * y + (m - 1)

theorem monthIndex_inj {y m y' m' : Nat} (hm : 1 ≤ m ∧ m ≤ 12) (hm' : 1 ≤ m' ∧ m' ≤ 12)
    (h : monthIndex y m = monthIndex y' m') : y = y' ∧ m = m' := by
  unfold monthIndex at h
  omega

/-- The month of an index. -/
def monthAt (i : Nat) : Nat × Nat := (i / 12, i % 12 + 1)

theorem monthAt_monthIndex {y m : Nat} (hm : 1 ≤ m ∧ m ≤ 12) :
    monthAt (monthIndex y m) = (y, m) := by
  unfold monthAt monthIndex
  rw [Prod.mk.injEq]
  omega

theorem monthAt_succ (i : Nat) : monthAt (i + 1) = next (monthAt i).1 (monthAt i).2 := by
  unfold monthAt next
  split_ifs <;> (rw [Prod.mk.injEq]; dsimp only at *; omega)

/-! ## Instants -/

/-- The microseconds of a day. -/
def DAY : Int := 24 * 3600 * 1000000

/-- The ordinal of January 1st, 1970. -/
def EPOCH : Int := 719163

/-- The first instant of a month in UTC. -/
def monthStart (y m : Nat) : Int := (ordinal y m 1 - EPOCH) * DAY

/-- The length of a month. -/
def monthLength (y m : Nat) : Int := daysInMonth y m * DAY

theorem monthLength_pos (y m : Nat) : 0 < monthLength y m := by
  have hdays := daysInMonth_pos y m
  unfold monthLength DAY
  omega

/-- **Consecutive months meet.** -/
theorem monthStart_next {y m : Nat} (hm : 1 ≤ m ∧ m ≤ 12) :
    monthStart (next y m).1 (next y m).2 = monthStart y m + monthLength y m := by
  unfold monthStart monthLength DAY
  rw [ordinal_next hm.1 hm.2]
  omega

/-- The first instant of the month with an index counted from year 1. -/
def startAt (i : Nat) : Int := monthStart (monthAt (12 + i)).1 (monthAt (12 + i)).2

theorem startAt_succ (i : Nat) : startAt (i + 1) =
    startAt i + monthLength (monthAt (12 + i)).1 (monthAt (12 + i)).2 := by
  unfold startAt
  have hm : 1 ≤ (monthAt (12 + i)).2 ∧ (monthAt (12 + i)).2 ≤ 12 := by
    unfold monthAt
    dsimp only
    omega
  rw [← Nat.add_assoc, monthAt_succ, monthStart_next hm]

theorem startAt_lt {i j : Nat} (h : i < j) : startAt i < startAt j := by
  refine strictMono_nat_of_lt_succ (f := startAt) ?_ h
  intro i
  have hpos := monthLength_pos (monthAt (12 + i)).1 (monthAt (12 + i)).2
  rw [startAt_succ]
  omega

/-- A month of the calendar. -/
def IsMonth (y m : Nat) : Prop := 1 ≤ y ∧ 1 ≤ m ∧ m ≤ 12

theorem monthStart_eq {y m : Nat} (h : IsMonth y m) :
    monthStart y m = startAt (monthIndex y m - 12) ∧
      monthStart y m + monthLength y m = startAt (monthIndex y m - 12 + 1) := by
  obtain ⟨hy, hm⟩ := h
  have hindex : 12 + (monthIndex y m - 12) = monthIndex y m := by
    unfold monthIndex
    omega
  rw [startAt_succ]
  unfold startAt
  rw [hindex, monthAt_monthIndex hm]
  exact ⟨rfl, rfl⟩

/-- The instant lies in the month, in UTC. -/
def InMonth (y m : Nat) (t : Int) : Prop :=
  monthStart y m ≤ t ∧ t < monthStart y m + monthLength y m

instance (y m : Nat) (t : Int) : Decidable (InMonth y m t) := by
  unfold InMonth; infer_instance

theorem inMonth_monthStart (y m : Nat) : InMonth y m (monthStart y m) := by
  have hpos := monthLength_pos y m
  unfold InMonth
  omega

/-- **An instant lies in one month only.** -/
theorem InMonth.unique {y m y' m' : Nat} {t : Int} (h : IsMonth y m) (h' : IsMonth y' m')
    (ht : InMonth y m t) (ht' : InMonth y' m' t) : y = y' ∧ m = m' := by
  obtain ⟨hstart, hstop⟩ := monthStart_eq h
  obtain ⟨hstart', hstop'⟩ := monthStart_eq h'
  unfold InMonth at ht ht'
  rw [hstop, hstart] at ht
  rw [hstop', hstart'] at ht'
  have hindex : monthIndex y m - 12 = monthIndex y' m' - 12 := by
    by_contra hne
    have hmono : StrictMono startAt := fun _ _ => startAt_lt
    have hdisjoint := hmono.monotone.pairwise_disjoint_on_Ico_succ hne
    exact Set.disjoint_left.mp hdisjoint ht ht'
  apply monthIndex_inj h.2 h'.2
  have hy := h.1
  have hy' := h'.1
  unfold monthIndex at hindex ⊢
  omega

/-! ## Date and Time -/

/-- A date and time with an offset from UTC, as an aware `datetime` has it. -/
structure DateTime where
  year : Nat
  month : Nat
  day : Nat
  /-- The time of the day, in microseconds. -/
  time : Int
  /-- The offset from UTC, in microseconds. -/
  utcoffset : Int
  year_mem : 1 ≤ year ∧ year ≤ 9999
  month_mem : 1 ≤ month ∧ month ≤ 12
  day_mem : 1 ≤ day ∧ day ≤ daysInMonth year month
  time_mem : 0 ≤ time ∧ time < DAY
  utcoffset_mem : -DAY < utcoffset ∧ utcoffset < DAY

namespace DateTime

/-- The instant it denotes. -/
def instant (t : DateTime) : Int :=
  (ordinal t.year t.month t.day - EPOCH) * DAY + t.time - t.utcoffset

/-- How far the wall clock is into its month. -/
def elapsed (t : DateTime) : Int := (t.day - 1) * DAY + t.time

/-- The instant, from the month of the wall clock. -/
theorem instant_eq (t : DateTime) :
    t.instant = monthStart t.year t.month + t.elapsed - t.utcoffset := by
  unfold instant monthStart elapsed ordinal DAY
  push_cast
  ring

/-- **The month of the wall clock is the month in UTC** when the offset does
    not carry it over one of the month's ends. -/
theorem inMonth_iff (t : DateTime) : InMonth t.year t.month t.instant ↔
    t.utcoffset ≤ t.elapsed ∧ t.elapsed - t.utcoffset < monthLength t.year t.month := by
  unfold InMonth
  rw [instant_eq]
  constructor
  · rintro ⟨hstart, hstop⟩
    constructor <;> omega
  · rintro ⟨hstart, hstop⟩
    constructor <;> omega

end DateTime

end Calendar
