import Mathlib.Data.Int.Log
import Mathlib.Data.Rat.Floor
import Mathlib.Tactic.FieldSimp
import Mathlib.Tactic.GCongr
import Mathlib.Tactic.Linarith
import Mathlib.Tactic.Positivity
import Mathlib.Tactic.Ring

/-! # Rounding to Integers and to Significant Digits

    Both roundings go to the nearest value, ties to even, over any ordered
    field with a floor.

    * **Integers**: `halfEven` and its thresholds, from which monotonicity
      and the symmetry about zero follow.
    * **Digits**: `toDigits b p`, to `p` significant digits in base `b`.  The
      grid depends on the magnitude of the argument; `toDigits_mono` crosses
      the changes of grid at the powers of the base.
-/

namespace Rounding

variable {K : Type*} [Field K] [LinearOrder K] [IsStrictOrderedRing K] [FloorRing K]

/-! ## To Integers -/

/-- The integer nearest to `x`, ties to even. -/
def halfEven (x : K) : ℤ :=
  if 1 < 2 * Int.fract x ∨ (2 * Int.fract x = 1 ∧ ⌊x⌋ % 2 = 1) then ⌊x⌋ + 1 else ⌊x⌋

/-- **Threshold**: the rounding stays at or below `n` up to the tie above `n`,
    which counts if `n` is even. -/
theorem halfEven_le_iff {x : K} {n : ℤ} :
    halfEven x ≤ n ↔ 2 * x < 2 * n + 1 ∨ (2 * x = 2 * n + 1 ∧ n % 2 = 0) := by
  have hx : (⌊x⌋ : K) + Int.fract x = x := Int.floor_add_fract x
  have h0 := Int.fract_nonneg x
  have h1 := Int.fract_lt_one x
  unfold halfEven
  rcases lt_trichotomy ⌊x⌋ n with hlt | heq | hgt
  · have hle : ((⌊x⌋ : K) + 1) ≤ n := by exact_mod_cast hlt
    have hup : 2 * x < 2 * n + 1 := by linarith
    simp only [hup, true_or, iff_true]
    split_ifs <;> omega
  · have hn : (n : K) = ⌊x⌋ := by rw [heq]
    have hthreshold : 2 * x < 2 * n + 1 ↔ 2 * Int.fract x < 1 := by
      constructor <;> intro h <;> linarith
    have htie : 2 * x = 2 * n + 1 ↔ 2 * Int.fract x = 1 := by
      constructor <;> intro h <;> linarith
    rw [hthreshold, htie, ← heq]
    rcases lt_trichotomy (2 * Int.fract x) 1 with h | h | h
    · simp [h, h.not_gt, h.ne]
    · simp only [h, lt_irrefl, true_and, false_or]
      split_ifs <;> omega
    · simp [h, h.not_gt, h.ne']
  · have hge : (n : K) + 1 ≤ ⌊x⌋ := by exact_mod_cast hgt
    have hlow : 2 * (n : K) + 1 < 2 * x := by linarith
    simp only [hlow.not_gt, hlow.ne', false_and, or_self, iff_false, not_le]
    split_ifs <;> omega

theorem le_halfEven_iff {x : K} {n : ℤ} :
    n ≤ halfEven x ↔ 2 * (n : K) - 1 < 2 * x ∨ (2 * x = 2 * n - 1 ∧ n % 2 = 0) := by
  have h := halfEven_le_iff (x := x) (n := n - 1)
  have hsub : ((n - 1 : ℤ) : K) = n - 1 := by push_cast; rfl
  have hbelow : 2 * (n : K) - 2 + 1 = 2 * n - 1 := by ring
  rw [show n ≤ halfEven x ↔ ¬ halfEven x ≤ n - 1 by omega, h, hsub, mul_sub, mul_one, hbelow]
  rcases lt_trichotomy (2 * x) (2 * (n : K) - 1) with hlt | heq | hgt
  · simp [hlt, hlt.not_gt, hlt.ne]
  · simp only [heq, lt_irrefl, true_and, false_or]
    omega
  · simp [hgt, hgt.not_gt, hgt.ne']

/-- The rounding is the one integer within half a unit, and even at a tie. -/
theorem halfEven_eq_iff {x : K} {n : ℤ} : halfEven x = n ↔
    (2 * (n : K) - 1 < 2 * x ∧ 2 * x < 2 * n + 1) ∨
      ((2 * x = 2 * n - 1 ∨ 2 * x = 2 * n + 1) ∧ n % 2 = 0) := by
  rw [le_antisymm_iff, halfEven_le_iff, le_halfEven_iff]
  constructor
  · rintro ⟨h | ⟨h, he⟩, h' | ⟨h', he'⟩⟩
    · exact .inl ⟨h', h⟩
    · exact .inr ⟨.inl h', he'⟩
    · exact .inr ⟨.inr h, he⟩
    · exact .inr ⟨.inr h, he⟩
  · rintro (⟨h, h'⟩ | ⟨h | h, he⟩)
    · exact ⟨.inl h', .inl h⟩
    · exact ⟨.inl (by linarith), .inr ⟨h, he⟩⟩
    · exact ⟨.inr ⟨h, he⟩, .inl (by linarith)⟩

theorem halfEven_mono {x y : K} (h : x ≤ y) : halfEven x ≤ halfEven y := by
  rw [halfEven_le_iff]
  rcases halfEven_le_iff.mp (le_refl (halfEven y)) with hy | ⟨hy, he⟩
  · left
    linarith
  · rcases h.lt_or_eq with hlt | rfl
    · left
      linarith
    · exact .inr ⟨hy, he⟩

@[simp] theorem halfEven_intCast (n : ℤ) : halfEven (n : K) = n := by
  rw [halfEven_eq_iff]
  left
  constructor <;> linarith

theorem halfEven_neg (x : K) : halfEven (-x) = -halfEven x := by
  rw [halfEven_eq_iff]
  push_cast
  rcases halfEven_eq_iff.mp (rfl : halfEven x = halfEven x) with ⟨h, h'⟩ | ⟨h | h, he⟩
  · left
    constructor <;> linarith
  · right
    refine ⟨.inr (by linarith), by omega⟩
  · right
    refine ⟨.inl (by linarith), by omega⟩

theorem halfEven_nonneg {x : K} (h : 0 ≤ x) : 0 ≤ halfEven x := by
  rw [← halfEven_intCast (K := K) 0, Int.cast_zero]
  exact halfEven_mono h

/-- A rounding of a quotient, computed from the quotient and the remainder. -/
theorem halfEven_div (n d : ℕ) (hd : 0 < d) : halfEven ((n : K) / d) =
    ((if d < 2 * (n % d) ∨ (2 * (n % d) = d ∧ n / d % 2 = 1) then n / d + 1
      else n / d : ℕ) : ℤ) := by
  have hd' : (0 : K) < d := by exact_mod_cast hd
  have hfloor : ⌊(n : K) / d⌋ = ((n / d : ℕ) : ℤ) := by
    rw [Int.floor_div_natCast, Int.floor_natCast, Int.natCast_ediv]
  have hn : (d : K) * (n / d : ℕ) + (n % d : ℕ) = n := by exact_mod_cast Nat.div_add_mod n d
  have hfract : 2 * Int.fract ((n : K) / d) = (2 * (n % d) : ℕ) / (d : K) := by
    rw [Int.fract, hfloor, eq_div_iff hd'.ne', Int.cast_natCast, mul_assoc, sub_mul,
      div_mul_cancel₀ _ hd'.ne', Nat.cast_mul]
    congr 1
    linarith
  have hlt : 1 < 2 * Int.fract ((n : K) / d) ↔ d < 2 * (n % d) := by
    rw [hfract, one_lt_div hd', Nat.cast_lt]
  have heq : 2 * Int.fract ((n : K) / d) = 1 ↔ 2 * (n % d) = d := by
    rw [hfract, div_eq_one_iff_eq hd'.ne', Nat.cast_inj]
  have hodd : ((n / d : ℕ) : ℤ) % 2 = 1 ↔ n / d % 2 = 1 := by omega
  simp only [halfEven, hfloor, hlt, heq, hodd, Nat.cast_ite, Nat.cast_add, Nat.cast_one]

/-! ## To Significant Digits -/

section digits

variable (b p : ℕ)

/-- The exponent of the last of `p` significant digits. -/
def lastDigit (x : K) : ℤ := Int.log b |x| + 1 - p

/-- `x` rounded to `p` significant digits in base `b`. -/
def toDigits (x : K) : K := halfEven (x / (b : K) ^ lastDigit b p x) * (b : K) ^ lastDigit b p x

variable {b p} {x y : K}

omit [IsStrictOrderedRing K] in
@[simp] theorem lastDigit_neg (x : K) : lastDigit b p (-x) = lastDigit b p x := by
  simp [lastDigit]

@[simp] theorem toDigits_zero : toDigits b p (0 : K) = 0 := by
  simp [toDigits, halfEven]

/-- **Symmetry** about zero. -/
theorem toDigits_neg (x : K) : toDigits b p (-x) = -toDigits b p x := by
  simp [toDigits, neg_div, halfEven_neg]

variable (hb : 1 < b)
include hb

theorem base_pos : (0 : K) < b := by
  have : 0 < b := by omega
  exact_mod_cast this

theorem unit_pos (e : ℤ) : (0 : K) < (b : K) ^ e := zpow_pos (base_pos hb) e

theorem toDigits_nonneg (h : 0 ≤ x) : 0 ≤ toDigits b p x := by
  have hunit := unit_pos (K := K) hb (lastDigit b p x)
  have hint : 0 ≤ halfEven (x / (b : K) ^ lastDigit b p x) :=
    halfEven_nonneg (div_nonneg h hunit.le)
  have hcast : (0 : K) ≤ (halfEven (x / (b : K) ^ lastDigit b p x) : K) := by exact_mod_cast hint
  exact mul_nonneg hcast hunit.le

/-- A shift of the point does not change the digits. -/
theorem toDigits_shift (x : K) (k : ℤ) :
    toDigits b p (x * (b : K) ^ k) = toDigits b p x * (b : K) ^ k := by
  rcases eq_or_ne x 0 with rfl | hx
  · simp
  have hb0 : (b : K) ≠ 0 := (base_pos hb).ne'
  have hshift : lastDigit b p (x * (b : K) ^ k) = lastDigit b p x + k := by
    have habs : |x * (b : K) ^ k| = |x| * (b : K) ^ k := by
      rw [abs_mul, abs_of_pos (unit_pos (K := K) hb k)]
    have hpos : 0 < |x| := abs_pos.mpr hx
    have hlow := Int.zpow_log_le_self hb hpos
    have hup := Int.lt_zpow_succ_log_self hb |x|
    have hprod : 0 < |x| * (b : K) ^ k := mul_pos hpos (unit_pos hb k)
    have hlog : Int.log b (|x| * (b : K) ^ k) = Int.log b |x| + k := by
      apply le_antisymm
      · rw [← Int.lt_add_one_iff, ← Int.lt_zpow_iff_log_lt hb hprod,
          show Int.log b |x| + k + 1 = Int.log b |x| + 1 + k by ring, zpow_add₀ hb0]
        exact mul_lt_mul_of_pos_right hup (unit_pos hb k)
      · rw [← Int.zpow_le_iff_le_log hb hprod, zpow_add₀ hb0]
        exact mul_le_mul_of_nonneg_right hlow (unit_pos hb k).le
    rw [lastDigit, habs, hlog, lastDigit]
    ring
  rw [toDigits, hshift, zpow_add₀ hb0, mul_div_mul_right _ _ (unit_pos hb k).ne', toDigits]
  ring

/-- **Representable**: a number of at most `p` digits is not changed. -/
theorem toDigits_of_lt {m : ℤ} {e : ℤ} (h : |m| < (b : ℤ) ^ p) :
    toDigits b p ((m : K) * (b : K) ^ e) = m * (b : K) ^ e := by
  rw [toDigits_shift hb]
  congr 1
  rcases eq_or_ne m 0 with rfl | hm
  · simp
  have hb0 : (b : K) ≠ 0 := (base_pos hb).ne'
  have hpos : (0 : K) < |(m : K)| := abs_pos.mpr (by exact_mod_cast hm)
  have hlt : |(m : K)| < (b : K) ^ (p : ℤ) := by
    rw [zpow_natCast]
    exact_mod_cast h
  have hlog : Int.log b |(m : K)| < p := (Int.lt_zpow_iff_log_lt hb hpos).mp hlt
  -- the last digit is at or after the point, so the quotient is an integer
  obtain ⟨j, hj⟩ : ∃ j : ℕ, lastDigit b p (m : K) = -(j : ℤ) :=
    ⟨(-lastDigit b p (m : K)).toNat, by unfold lastDigit; omega⟩
  have hquot : (m : K) / (b : K) ^ (-(j : ℤ)) = ((m * (b : ℤ) ^ j : ℤ) : K) := by
    rw [zpow_neg, div_inv_eq_mul, zpow_natCast]
    push_cast
    rfl
  rw [toDigits, hj, hquot, halfEven_intCast]
  push_cast
  rw [mul_assoc, ← zpow_natCast, ← zpow_add₀ hb0]
  simp

/-- The rounding of a positive number stays between the powers of the base
    around it. -/
theorem toDigits_bounds (hp : 0 < p) (hx : 0 < x) :
    (b : K) ^ Int.log b x ≤ toDigits b p x ∧ toDigits b p x ≤ (b : K) ^ (Int.log b x + 1) := by
  have hb0 : (b : K) ≠ 0 := (base_pos hb).ne'
  have hunit := unit_pos (K := K) hb (lastDigit b p x)
  have hlast : lastDigit b p x = Int.log b x + 1 - p := by rw [lastDigit, abs_of_pos hx]
  have hpow (j : ℕ) : (b : K) ^ (j : ℤ) = (((b : ℤ) ^ j : ℤ) : K) := by
    rw [zpow_natCast]
    push_cast
    rfl
  have hsplit (j : ℕ) (e : ℤ) (he : e = j + lastDigit b p x) :
      (b : K) ^ e = (((b : ℤ) ^ j : ℤ) : K) * (b : K) ^ lastDigit b p x := by
    rw [he, zpow_add₀ hb0, hpow]
  obtain ⟨q, rfl⟩ : ∃ q, p = q + 1 := ⟨p - 1, by omega⟩
  rw [toDigits]
  constructor
  · rw [hsplit q (Int.log b x) (by rw [hlast]; push_cast; ring)]
    gcongr
    rw [← halfEven_intCast (K := K) ((b : ℤ) ^ q)]
    apply halfEven_mono
    rw [le_div_iff₀ hunit, ← hsplit q (Int.log b x) (by rw [hlast]; push_cast; ring)]
    exact Int.zpow_log_le_self hb hx
  · rw [hsplit (q + 1) (Int.log b x + 1) (by rw [hlast]; push_cast; ring)]
    gcongr
    rw [← halfEven_intCast (K := K) ((b : ℤ) ^ (q + 1))]
    apply halfEven_mono
    rw [div_le_iff₀ hunit, ← hsplit (q + 1) (Int.log b x + 1) (by rw [hlast]; push_cast; ring)]
    exact (Int.lt_zpow_succ_log_self hb x).le

/-- On the positive numbers, with the change of grid at each power of the base. -/
theorem toDigits_mono_of_pos (hp : 0 < p) (hx : 0 < x) (h : x ≤ y) :
    toDigits b p x ≤ toDigits b p y := by
  have hy : 0 < y := hx.trans_le h
  rcases (Int.log_mono_right (b := b) hx h).lt_or_eq with hlt | heq
  · calc toDigits b p x ≤ (b : K) ^ (Int.log b x + 1) := (toDigits_bounds hb hp hx).2
      _ ≤ (b : K) ^ Int.log b y := by
        apply zpow_le_zpow_right₀ _ (by omega)
        exact_mod_cast hb.le
      _ ≤ toDigits b p y := (toDigits_bounds hb hp hy).1
  · have hunit := unit_pos (K := K) hb (lastDigit b p x)
    have hlast : lastDigit b p y = lastDigit b p x := by
      rw [lastDigit, lastDigit, abs_of_pos hx, abs_of_pos hy, heq]
    rw [toDigits, toDigits, hlast]
    have hquot : x / (b : K) ^ lastDigit b p x ≤ y / (b : K) ^ lastDigit b p x := by gcongr
    have hround := halfEven_mono hquot
    gcongr

/-- **Monotonicity**. -/
theorem toDigits_mono (hp : 0 < p) (h : x ≤ y) : toDigits b p x ≤ toDigits b p y := by
  rcases lt_or_ge 0 x with hx | hx
  · exact toDigits_mono_of_pos hb hp hx h
  · rcases lt_or_ge y 0 with hy | hy
    · have hneg := toDigits_mono_of_pos (K := K) (p := p) hb hp (neg_pos.mpr hy) (neg_le_neg h)
      rw [toDigits_neg, toDigits_neg] at hneg
      exact neg_le_neg_iff.mp hneg
    · have hx' := toDigits_nonneg (p := p) hb (neg_nonneg.mpr hx)
      rw [toDigits_neg] at hx'
      exact (neg_nonneg.mp hx').trans (toDigits_nonneg hb hy)

/-- A rounded number has at most `p` digits, or is the next power of the base. -/
theorem toDigits_rep (x : K) : ∃ m e : ℤ, toDigits b p x = m * (b : K) ^ e ∧ |m| ≤ (b : ℤ) ^ p := by
  refine ⟨halfEven (x / (b : K) ^ lastDigit b p x), lastDigit b p x, rfl, ?_⟩
  have hb0 : (b : K) ≠ 0 := (base_pos hb).ne'
  have hunit := unit_pos (K := K) hb (lastDigit b p x)
  have hup : |x| ≤ (((b : ℤ) ^ p : ℤ) : K) * (b : K) ^ lastDigit b p x := by
    have h := (Int.lt_zpow_succ_log_self (R := K) hb |x|).le
    push_cast
    rwa [← zpow_natCast, ← zpow_add₀ hb0,
      show (p : ℤ) + lastDigit b p x = Int.log b |x| + 1 by unfold lastDigit; ring]
  obtain ⟨hlow, hhigh⟩ := abs_le.mp hup
  rw [abs_le, ← halfEven_intCast (K := K) ((b : ℤ) ^ p), ← halfEven_neg]
  constructor
  · apply halfEven_mono
    rw [le_div_iff₀ hunit]
    linarith
  · apply halfEven_mono
    rw [div_le_iff₀ hunit]
    linarith

/-- **Idempotence**. -/
theorem toDigits_toDigits (hp : 0 < p) (x : K) :
    toDigits b p (toDigits b p x) = toDigits b p x := by
  obtain ⟨m, e, hx, hm⟩ := toDigits_rep (p := p) hb x
  rw [hx]
  rcases hm.lt_or_eq with hlt | heq
  · exact toDigits_of_lt hb hlt
  · -- the next power of the base is one digit further up
    obtain ⟨q, rfl⟩ : ∃ q, p = q + 1 := ⟨p - 1, by omega⟩
    have hb' : (1 : ℤ) < b := by exact_mod_cast hb
    have hsign : m = m.sign * (b : ℤ) ^ q * b := by
      conv_lhs => rw [← Int.sign_mul_abs m, heq, pow_succ]
      ring
    have hm' : |m.sign * (b : ℤ) ^ q| < (b : ℤ) ^ (q + 1) := by
      have hpos : (0 : ℤ) < (b : ℤ) ^ q := by positivity
      have hm0 : m ≠ 0 := by
        rintro rfl
        rw [abs_zero, pow_succ] at heq
        exact (mul_pos hpos (by omega)).ne heq
      rw [abs_mul, Int.abs_sign_of_ne_zero hm0, abs_of_pos hpos, one_mul, pow_succ]
      exact lt_mul_of_one_lt_right hpos hb'
    have hval : (m : K) * (b : K) ^ e = ((m.sign * (b : ℤ) ^ q : ℤ) : K) * (b : K) ^ (e + 1) := by
      rw [zpow_add_one₀ (base_pos hb).ne']
      conv_lhs => rw [hsign]
      push_cast
      ring
    rw [hval]
    exact toDigits_of_lt hb hm'

end digits

end Rounding
