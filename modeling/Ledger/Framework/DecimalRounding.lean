import Ledger.Framework.Decimal
import Ledger.Framework.Rounding

/-! # What the Decimal Operations Compute

    The number a decimal denotes, and each operation as an exact operation on
    numbers followed by one rounding.

    * **Context**: `value_fix`, the rounding to the digits of the context.
    * **Operations**: `value_mul`, `div_eq_some_iff`, `quantizeInt_eq_some_iff`.
-/

namespace Decimal

open Rounding

/-- The number a decimal denotes. -/
def value (a : Decimal) : ℚ := (if a.neg then -(a.coeff : ℚ) else a.coeff) * 10 ^ a.exp

/-- The rounding of the context. -/
def toContext (x : ℚ) : ℚ := toDigits 10 prec x

theorem toContext_neg (x : ℚ) : toContext (-x) = -toContext x := toDigits_neg x

theorem toContext_mono {x y : ℚ} (h : x ≤ y) : toContext x ≤ toContext y :=
  toDigits_mono (by decide) (by decide) h

theorem toContext_shift (x : ℚ) (k : ℤ) : toContext (x * 10 ^ k) = toContext x * 10 ^ k := by
  have h := toDigits_shift (p := prec) (by decide : 1 < 10) x k
  exact_mod_cast h

theorem toContext_toContext (x : ℚ) : toContext (toContext x) = toContext x :=
  toDigits_toDigits (by decide) (by decide) x

theorem toContext_of_lt {m e : ℤ} (h : |m| < 10 ^ prec) : toContext (m * 10 ^ e) = m * 10 ^ e := by
  have h' := toDigits_of_lt (K := ℚ) (b := 10) (p := prec) (by decide) (m := m) (e := e)
    (by exact_mod_cast h)
  exact_mod_cast h'

theorem toContext_intCast {m : ℤ} (h : |m| < 10 ^ prec) : toContext (m : ℚ) = m := by
  simpa using toContext_of_lt (e := 0) h

theorem toContext_nonneg {x : ℚ} (h : 0 ≤ x) : 0 ≤ toContext x := toDigits_nonneg (by decide) h

theorem toContext_pos {x : ℚ} (h : 0 < x) : 0 < toContext x :=
  lt_of_lt_of_le (zpow_pos (by norm_num) _) (toDigits_bounds (by decide) (by decide) h).1

/-! ## Digits -/

theorem digits_le_iff {n k : ℕ} (hk : 0 < k) : digits n ≤ k ↔ n < 10 ^ k :=
  Nat.length_toDigits_le_iff (by decide) hk

theorem digits_pos (n : ℕ) : 0 < digits n := Nat.length_toDigits_pos

theorem lt_pow_digits (n : ℕ) : n < 10 ^ digits n := (digits_le_iff (digits_pos n)).mp le_rfl

theorem pow_digits_le {n : ℕ} (h : 0 < n) : 10 ^ (digits n - 1) ≤ n := by
  rcases Nat.lt_or_ge 1 (digits n) with hd | hd
  · by_contra hlt
    have hle := (digits_le_iff (k := digits n - 1) (by omega)).mpr (not_le.mp hlt)
    omega
  · rw [show digits n - 1 = 0 by omega]
    exact h

theorem cast_roundHalfEven (n d : ℕ) (hd : 0 < d) :
    ((roundHalfEven n d : ℕ) : ℤ) = halfEven ((n : ℚ) / d) := (halfEven_div n d hd).symm

/-- A positive number between two powers of ten, rounded. -/
theorem toContext_eq {x : ℚ} {k : ℤ} (hlow : 10 ^ k ≤ x) (hup : x < 10 ^ (k + 1)) :
    toContext x = halfEven (x / 10 ^ (k + 1 - prec)) * 10 ^ (k + 1 - prec : ℤ) := by
  have hx : 0 < x := lt_of_lt_of_le (zpow_pos (by norm_num) k) hlow
  have hlog : Int.log 10 x = k := by
    apply le_antisymm
    · rw [← Int.lt_add_one_iff, ← Int.lt_zpow_iff_log_lt (by decide) hx]
      exact_mod_cast hup
    · rw [← Int.zpow_le_iff_le_log (by decide) hx]
      exact_mod_cast hlow
  rw [toContext, toDigits, lastDigit, abs_of_pos hx, hlog]
  norm_cast

/-- Where a number lies from a decade whose 28-digit numbers have the unit
    `10^(k - 27)`: the rounding does not leave the side it is on. -/
theorem toContext_cases (w : ℚ) (k : ℤ) :
    (w < 10 ^ k ∧ toContext w ≤ 10 ^ k) ∨
      toContext w = halfEven (w / 10 ^ (k - 27)) * 10 ^ (k - 27) ∨
      (10 ^ (k + 1) ≤ w ∧ 10 ^ (k + 1) ≤ toContext w) := by
  have hone (e : ℤ) : toContext ((10 : ℚ) ^ e) = 10 ^ e := by
    have h := toContext_of_lt (m := 1) (e := e) (by decide)
    simpa using h
  rcases lt_or_ge w (10 ^ k) with hlow | hlow
  · left
    refine ⟨hlow, ?_⟩
    rw [← hone k]
    exact toContext_mono hlow.le
  · rcases lt_or_ge w (10 ^ (k + 1)) with hup | hup
    · right; left
      have hprec : k + 1 - (prec : ℤ) = k - 27 := by
        rw [show (prec : ℤ) = 28 from rfl]
        ring
      rw [toContext_eq hlow hup, hprec]
    · right; right
      refine ⟨hup, ?_⟩
      rw [← hone (k + 1)]
      exact toContext_mono hup

/-- The ends of a decade, in units of its 28th digit. -/
theorem zpow_decade (k : ℤ) : (10 : ℚ) ^ k = ((10 ^ 27 : ℤ) : ℚ) * 10 ^ (k - 27) ∧
    (10 : ℚ) ^ (k + 1) = ((10 ^ 28 : ℤ) : ℚ) * 10 ^ (k - 27) := by
  have hscale (i : ℕ) : (10 : ℚ) ^ (k - 27 + i) = ((10 ^ i : ℤ) : ℚ) * 10 ^ (k - 27) := by
    rw [zpow_add₀ (by norm_num), zpow_natCast, mul_comm]
    push_cast
    rfl
  have h27 := hscale 27
  have h28 := hscale 28
  rw [show k - 27 + (27 : ℕ) = k by push_cast; ring] at h27
  rw [show k - 27 + (28 : ℕ) = k + 1 by push_cast; ring] at h28
  exact ⟨h27, h28⟩

/-- Comparing a rounded number with one of 28 digits is comparing at the last
    digit of the latter. -/
theorem toContext_compare {k t : ℤ} (hlow : 10 ^ 27 < t) (hup : t < 10 ^ 28) (w : ℚ) :
    (toContext w ≤ t * 10 ^ (k - 27) ↔ halfEven (w / 10 ^ (k - 27)) ≤ t) ∧
      (toContext w < t * 10 ^ (k - 27) ↔ halfEven (w / 10 ^ (k - 27)) < t) := by
  have hunit : (0 : ℚ) < 10 ^ (k - 27) := zpow_pos (by norm_num) _
  obtain ⟨h27, h28⟩ := zpow_decade k
  have hlow' : ((10 ^ 27 : ℤ) : ℚ) * 10 ^ (k - 27) < t * 10 ^ (k - 27) :=
    mul_lt_mul_of_pos_right (by exact_mod_cast hlow) hunit
  have hup' : (t : ℚ) * 10 ^ (k - 27) < ((10 ^ 28 : ℤ) : ℚ) * 10 ^ (k - 27) :=
    mul_lt_mul_of_pos_right (by exact_mod_cast hup) hunit
  rcases toContext_cases w k with ⟨hw, hy⟩ | hy | ⟨hw, hy⟩
  · -- below the decade
    rw [h27] at hw hy
    have hint : halfEven (w / 10 ^ (k - 27)) ≤ 10 ^ 27 := by
      rw [← halfEven_intCast (K := ℚ) (10 ^ 27)]
      exact halfEven_mono ((div_le_iff₀ hunit).mpr hw.le)
    exact ⟨iff_of_true (hy.trans hlow'.le) (by omega), iff_of_true (hy.trans_lt hlow') (by omega)⟩
  · rw [hy]
    constructor
    · rw [mul_le_mul_iff_left₀ hunit]
      exact Int.cast_le
    · rw [mul_lt_mul_iff_left₀ hunit]
      exact Int.cast_lt
  · -- above the decade
    rw [h28] at hw hy
    have hint : 10 ^ 28 ≤ halfEven (w / 10 ^ (k - 27)) := by
      rw [← halfEven_intCast (K := ℚ) (10 ^ 28)]
      exact halfEven_mono ((le_div_iff₀ hunit).mpr hw)
    exact ⟨iff_of_false (hup'.trans_le hy).not_ge (by omega),
      iff_of_false (hup'.trans_le hy).le.not_gt (by omega)⟩

/-- A natural number with digits to spare loses the last ones. -/
theorem toContext_natCast {c extra : ℕ} (h : digits c = prec + extra) (hc : 0 < c) :
    toContext (c : ℚ) = (roundHalfEven c (10 ^ extra) : ℕ) * 10 ^ (extra : ℤ) := by
  have hprec : prec = 27 + 1 := rfl
  have hlow : (10 : ℚ) ^ ((27 + extra : ℕ) : ℤ) ≤ c := by
    have hle := pow_digits_le hc
    rw [h, show prec + extra - 1 = 27 + extra by omega] at hle
    exact_mod_cast hle
  have hup : (c : ℚ) < 10 ^ (((27 + extra : ℕ) : ℤ) + 1) := by
    have hlt := lt_pow_digits c
    rw [h, show prec + extra = 27 + extra + 1 by omega] at hlt
    exact_mod_cast hlt
  have hunit : (10 : ℚ) ^ (extra : ℤ) = ((10 ^ extra : ℕ) : ℚ) := by norm_cast
  rw [toContext_eq hlow hup,
    show ((27 + extra : ℕ) : ℤ) + 1 - prec = extra by rw [hprec]; push_cast; ring,
    hunit, ← cast_roundHalfEven _ _ (by positivity)]
  norm_cast

/-! ## The Context -/

theorem value_false (c : ℕ) (e : ℤ) : value ⟨false, c, e⟩ = c * 10 ^ e := by
  simp [value]

theorem value_true (c : ℕ) (e : ℤ) : value ⟨true, c, e⟩ = -value ⟨false, c, e⟩ := by
  simp [value]

/-- Rounding is symmetric about zero, so the sign can be left out. -/
theorem value_sign {c c' : ℕ} {e e' : ℤ} (n : Bool)
    (h : value ⟨false, c', e'⟩ = toContext (value ⟨false, c, e⟩)) :
    value ⟨n, c', e'⟩ = toContext (value ⟨n, c, e⟩) := by
  cases n with
  | false => exact h
  | true => rw [value_true, value_true, toContext_neg, h]

/-- A coefficient that carried into one more digit is a power of ten. -/
theorem carry_eq {c extra : ℕ} (h : digits c = prec + extra)
    (hcarry : prec < digits (roundHalfEven c (10 ^ extra))) :
    roundHalfEven c (10 ^ extra) = 10 ^ prec := by
  have hc : c < 10 ^ prec * 10 ^ extra := by
    have hlt := lt_pow_digits c
    rwa [h, pow_add] at hlt
  have hlow : ¬ roundHalfEven c (10 ^ extra) < 10 ^ prec := by
    rw [← digits_le_iff (by decide)]
    omega
  have hq : c / 10 ^ extra < 10 ^ prec := (Nat.div_lt_iff_lt_mul (by positivity)).mpr hc
  have hup : roundHalfEven c (10 ^ extra) ≤ c / 10 ^ extra + 1 := by
    unfold roundHalfEven
    simp only
    split_ifs <;> omega
  omega

/-- **`fix` rounds once** to the digits of the context. -/
theorem value_fix (a : Decimal) : value (fix a) = toContext (value a) := by
  obtain ⟨n, c, e⟩ := a
  unfold fix
  simp only
  by_cases hextra : digits c - prec = 0
  · -- nothing to drop
    rw [if_pos hextra]
    apply value_sign
    have hc : c < 10 ^ prec := (digits_le_iff (by decide)).mp (by omega)
    have hm : |(c : ℤ)| < 10 ^ prec := by
      rw [abs_of_nonneg (by positivity)]
      exact_mod_cast hc
    rw [value_false]
    exact_mod_cast (toContext_of_lt (e := e) hm).symm
  · obtain ⟨extra, hx⟩ : ∃ extra, digits c - prec = extra := ⟨_, rfl⟩
    have hdigits : digits c = prec + extra := by omega
    have hc : 0 < c := by
      by_contra h0
      rw [show c = 0 by omega] at hextra
      exact hextra (by decide)
    have hround : toContext (value ⟨false, c, e⟩) =
        (roundHalfEven c (10 ^ extra) : ℕ) * 10 ^ (e + extra) := by
      rw [value_false, toContext_shift, toContext_natCast hdigits hc, zpow_add₀ (by norm_num)]
      ring
    rw [if_neg hextra, hx]
    split_ifs with hcarry
    · apply value_sign
      rw [hround, value_false]
    · apply value_sign
      rw [hround, value_false, carry_eq hdigits (not_le.mp hcarry),
        zpow_add_one₀ (by norm_num)]
      have hten : (10 ^ prec / 10 : ℕ) * 10 = 10 ^ prec := by decide
      have hcast : (((10 ^ prec / 10 : ℕ) : ℚ)) * 10 = ((10 ^ prec : ℕ) : ℚ) := by
        exact_mod_cast hten
      rw [← hcast]
      ring

/-! ## Operations -/

theorem value_sign_mul (a b : Decimal) :
    value ⟨a.neg ^^ b.neg, a.coeff * b.coeff, a.exp + b.exp⟩ = value a * value b := by
  obtain ⟨na, ca, ea⟩ := a
  obtain ⟨nb, cb, eb⟩ := b
  have hpow : (10 : ℚ) ^ (ea + eb) = 10 ^ ea * 10 ^ eb := zpow_add₀ (by norm_num) ea eb
  cases na <;> cases nb <;> simp [value, hpow] <;> ring

/-- **Multiplication** rounds the exact product. -/
theorem value_mul (a b : Decimal) : value (mul a b) = toContext (value a * value b) := by
  rw [mul, value_fix, value_sign_mul]

/-- A digit that is neither 0 nor 5 stands for a remainder: the integer part
    with it rounds as the exact number does. -/
theorem halfEven_sticky {x : ℚ} {q extra : ℕ} (hextra : 0 < extra) (hlow : (q : ℚ) < x)
    (hup : x < q + 1) : halfEven (x / 10 ^ extra) =
      halfEven (((if q % 5 = 0 then q + 1 else q : ℕ) : ℚ) / 10 ^ extra) := by
  obtain ⟨j, rfl⟩ : ∃ j, extra = j + 1 := ⟨extra - 1, by omega⟩
  set q' := if q % 5 = 0 then q + 1 else q with hq'
  have hunit : (0 : ℚ) < 10 ^ (j + 1) := by positivity
  refine eq_of_forall_ge_iff fun m => ?_
  -- the tie above `m` is a multiple of five
  obtain ⟨t, ht⟩ : ∃ t : ℤ, t = (2 * m + 1) * 10 ^ j := ⟨_, rfl⟩
  have htie : (2 * (m : ℚ) + 1) * 10 ^ (j + 1) = 2 * (5 * t : ℤ) := by
    rw [ht]
    push_cast
    ring
  have hlt (y : ℚ) : 2 * (y / 10 ^ (j + 1)) < 2 * m + 1 ↔ y < (5 * t : ℤ) := by
    rw [← mul_div_assoc, div_lt_iff₀ hunit, htie]
    constructor <;> intro h <;> linarith
  have heq (y : ℚ) : 2 * (y / 10 ^ (j + 1)) = 2 * m + 1 ↔ y = (5 * t : ℤ) := by
    rw [← mul_div_assoc, div_eq_iff hunit.ne', htie]
    constructor <;> intro h <;> linarith
  have hx : x < (5 * t : ℤ) ↔ (q : ℤ) < 5 * t := by
    constructor
    · intro h
      exact_mod_cast hlow.trans h
    · intro h
      have hle : ((q : ℤ) : ℚ) + 1 ≤ (5 * t : ℤ) := by exact_mod_cast h
      exact hup.trans_le (by exact_mod_cast hle)
  have hxne : x ≠ (5 * t : ℤ) := by
    intro h
    rw [h] at hlow hup
    have h₁ : (q : ℤ) < 5 * t := by exact_mod_cast hlow
    have h₂ : 5 * t < (q : ℤ) + 1 := by exact_mod_cast hup
    omega
  have hq : (q' : ℚ) < (5 * t : ℤ) ↔ (q : ℤ) < 5 * t := by
    have hcast : (q' : ℚ) < (5 * t : ℤ) ↔ (q' : ℤ) < 5 * t := by exact_mod_cast Iff.rfl
    rw [hcast, hq']
    split_ifs <;> omega
  have hqne : (q' : ℚ) ≠ (5 * t : ℤ) := by
    intro h
    have h' : (q' : ℤ) = 5 * t := by exact_mod_cast h
    rw [hq'] at h'
    split_ifs at h' <;> omega
  rw [halfEven_le_iff, halfEven_le_iff, hlt, hlt, heq, heq, hx, hq]
  simp only [hxne, hqne, false_and, or_false]

/-- An inexact quotient with enough digits rounds as the exact one does. -/
theorem toContext_sticky {n d : ℕ} (hd : 0 < d) (hbig : 10 ^ prec ≤ n / d) (hrem : n % d ≠ 0) :
    toContext ((if n / d % 5 = 0 then n / d + 1 else n / d : ℕ) : ℚ) = toContext ((n : ℚ) / d) := by
  obtain ⟨q, hq⟩ : ∃ q, n / d = q := ⟨_, rfl⟩
  rw [hq] at hbig ⊢
  have hd' : (0 : ℚ) < d := by exact_mod_cast hd
  have hn : d * q + n % d = n := hq ▸ Nat.div_add_mod n d
  have hlow : (q : ℚ) < n / d := by
    rw [lt_div_iff₀ hd']
    have hlt : q * d < n := by
      rw [mul_comm]
      omega
    exact_mod_cast hlt
  have hup : (n : ℚ) / d < q + 1 := by
    rw [div_lt_iff₀ hd']
    have hmod := Nat.mod_lt n hd
    have hlt : n < (q + 1) * d := by
      rw [add_mul, one_mul, mul_comm]
      omega
    exact_mod_cast hlt
  -- the quotient has `extra` digits to spare, and so has the one with the sticky digit
  obtain ⟨extra, hextra⟩ : ∃ extra, digits q = prec + extra + 1 := by
    have hmore : ¬ digits q ≤ prec := by
      rw [digits_le_iff (by decide)]
      omega
    exact ⟨digits q - prec - 1, by omega⟩
  have hprec : prec = 27 + 1 := rfl
  have hpos : 0 < q := lt_of_lt_of_le (by positivity) hbig
  have hle := pow_digits_le hpos
  have hlt := lt_pow_digits q
  rw [hextra, show prec + extra + 1 - 1 = 28 + extra by omega] at hle
  rw [hextra, show prec + extra + 1 = 28 + extra + 1 by omega] at hlt
  have hlow' : (10 : ℚ) ^ ((28 + extra : ℕ) : ℤ) ≤ q := by exact_mod_cast hle
  have hup' : ((q + 1 : ℕ) : ℚ) ≤ 10 ^ (((28 + extra : ℕ) : ℤ) + 1) := by exact_mod_cast hlt
  have hlow' : (10 : ℚ) ^ ((28 + extra : ℕ) : ℤ) ≤ q := by exact_mod_cast hle
  have hup' : (q : ℚ) + 1 ≤ 10 ^ (((28 + extra : ℕ) : ℤ) + 1) := by exact_mod_cast hlt
  have hsticky : (if q % 5 = 0 then q + 1 else q) < 10 ^ (28 + extra + 1) := by
    rw [pow_succ] at hlt ⊢
    split_ifs <;> omega
  have hsticky_low : q ≤ if q % 5 = 0 then q + 1 else q := by
    split_ifs <;> omega
  have hunit : (10 : ℚ) ^ (((28 + extra : ℕ) : ℤ) + 1 - prec) = 10 ^ (extra + 1) := by
    rw [show ((28 + extra : ℕ) : ℤ) + 1 - prec = ((extra + 1 : ℕ) : ℤ) by
      rw [hprec]; push_cast; ring, zpow_natCast]
  rw [toContext_eq (hlow'.trans hlow.le) (hup.trans_le hup'),
    toContext_eq (hlow'.trans (by exact_mod_cast hsticky_low)) (by exact_mod_cast hsticky), hunit,
    halfEven_sticky (by omega) hlow hup]

theorem strip_value (n c : ℕ) (e ideal : ℤ) :
    ((strip n c e ideal).1 : ℚ) * 10 ^ (strip n c e ideal).2 = c * 10 ^ e := by
  induction n generalizing c e with
  | zero => rfl
  | succ n ih =>
    unfold strip
    split_ifs with h
    · -- a trailing zero moves into the exponent
      have hten : c / 10 * 10 = c := Nat.div_mul_cancel (Nat.dvd_of_mod_eq_zero h.2)
      have hcast : ((c / 10 : ℕ) : ℚ) * 10 = c := by exact_mod_cast hten
      rw [ih, zpow_add_one₀ (by norm_num), ← hcast]
      ring
    · rfl

/-- The signs of a division apart from its digits. -/
theorem value_sign_div {a b : Decimal} (hb : b.coeff ≠ 0) {c : ℕ} {e : ℤ}
    (h : toContext (c * 10 ^ e) = toContext (a.coeff / b.coeff * 10 ^ (a.exp - b.exp))) :
    toContext (value ⟨a.neg ^^ b.neg, c, e⟩) = toContext (value a / value b) := by
  obtain ⟨na, ca, ea⟩ := a
  obtain ⟨nb, cb, eb⟩ := b
  have hcb : (cb : ℚ) ≠ 0 := by exact_mod_cast hb
  have hten : (10 : ℚ) ^ eb ≠ 0 := zpow_ne_zero eb (by norm_num)
  have hpow : (10 : ℚ) ^ (ea - eb) = 10 ^ ea / 10 ^ eb := zpow_sub₀ (by norm_num) ea eb
  have hquot : value ⟨na ^^ nb, 1, 0⟩ * (ca / cb * 10 ^ (ea - eb)) =
      value ⟨na, ca, ea⟩ / value ⟨nb, cb, eb⟩ := by
    rw [hpow]
    cases na <;> cases nb <;> simp [value] <;> field_simp
  rw [← hquot]
  simp only at h
  cases na <;> cases nb <;> simp [value, h, toContext_neg]

/-- The numerator and the denominator a division shifts to get its digits. -/
theorem shifted_quotient (n d : ℕ) (s : ℤ) :
    ((n * 10 ^ s.toNat : ℕ) : ℚ) / ((d * 10 ^ (-s).toNat : ℕ) : ℚ) = n / d * 10 ^ s := by
  obtain ⟨k, rfl | rfl⟩ := s.eq_nat_or_neg
  · simp [mul_div_right_comm]
  · simp only [Int.toNat_neg_natCast, pow_zero, mul_one, neg_neg, Int.toNat_natCast, zpow_neg,
      zpow_natCast]
    push_cast
    rw [div_mul_eq_div_div, div_eq_mul_inv (n / d : ℚ)]

/-- The shift leaves more digits than the context keeps. -/
theorem shifted_digits {n d : ℕ} (hn : 0 < n) {s : ℤ}
    (hs : s = (digits d : ℤ) - digits n + prec + 1) :
    d * 10 ^ (-s).toNat * 10 ^ prec ≤ n * 10 ^ s.toNat := by
  have hlow := pow_digits_le hn
  have hup := lt_pow_digits d
  have hpos := digits_pos n
  rcases le_total 0 s with h | h
  · have hexp : digits n - 1 + s.toNat = digits d + prec := by omega
    calc d * 10 ^ (-s).toNat * 10 ^ prec = d * 10 ^ prec := by
          rw [show (-s).toNat = 0 by omega, pow_zero, mul_one]
      _ ≤ 10 ^ digits d * 10 ^ prec := Nat.mul_le_mul_right _ hup.le
      _ = 10 ^ (digits n - 1) * 10 ^ s.toNat := by rw [← pow_add, ← pow_add, hexp]
      _ ≤ n * 10 ^ s.toNat := Nat.mul_le_mul_right _ hlow
  · have hexp : digits d + (-s).toNat + prec = digits n - 1 := by omega
    calc d * 10 ^ (-s).toNat * 10 ^ prec
        ≤ 10 ^ digits d * 10 ^ (-s).toNat * 10 ^ prec :=
          Nat.mul_le_mul_right _ (Nat.mul_le_mul_right _ hup.le)
      _ = 10 ^ (digits n - 1) := by rw [← pow_add, ← pow_add, hexp]
      _ ≤ n := hlow
      _ = n * 10 ^ s.toNat := by rw [show s.toNat = 0 by omega, pow_zero, mul_one]

/-- **Division** rounds the exact quotient. -/
theorem value_div {a b c : Decimal} (h : div a b = some c) :
    value c = toContext (value a / value b) := by
  unfold div at h
  by_cases hb : b.coeff = 0
  · rw [if_pos hb] at h
    cases h
  rw [if_neg hb] at h
  by_cases ha : a.coeff = 0
  · rw [if_pos ha] at h
    cases h
    have hz : value a = 0 := by simp [value, ha]
    rw [hz, zero_div]
    simp [value, toContext]
  rw [if_neg ha] at h
  obtain ⟨s, hs⟩ : ∃ s : ℤ, s = (digits b.coeff : ℤ) - digits a.coeff + prec + 1 := ⟨_, rfl⟩
  simp only [← hs] at h
  have hquot := shifted_quotient a.coeff b.coeff s
  have hbig := shifted_digits (d := b.coeff) (Nat.pos_of_ne_zero ha) hs
  obtain ⟨n, hn⟩ : ∃ n, n = a.coeff * 10 ^ s.toNat := ⟨_, rfl⟩
  obtain ⟨d, hd⟩ : ∃ d, d = b.coeff * 10 ^ (-s).toNat := ⟨_, rfl⟩
  rw [← hn, ← hd] at hquot hbig h
  have hd0 : 0 < d := hd ▸ Nat.mul_pos (Nat.pos_of_ne_zero hb) (by positivity)
  -- the shift is undone by the exponent of the result
  have hscale : (n : ℚ) / d * 10 ^ (a.exp - b.exp - s) =
      a.coeff / b.coeff * 10 ^ (a.exp - b.exp) := by
    rw [hquot, mul_assoc, ← zpow_add₀ (by norm_num)]
    congr 2
    ring
  by_cases hrem : n % d = 0
  · rw [if_pos hrem] at h
    have hvalue := strip_value (digits (n / d)) (n / d) (a.exp - b.exp - s) (a.exp - b.exp)
    cases h
    rw [value_fix]
    apply value_sign_div hb
    have hexact : ((n / d : ℕ) : ℚ) = n / d := by
      rw [eq_div_iff (by exact_mod_cast hd0.ne')]
      exact_mod_cast Nat.div_mul_cancel (Nat.dvd_of_mod_eq_zero hrem)
    rw [hvalue, ← hscale, hexact]
  · rw [if_neg hrem] at h
    cases h
    rw [value_fix]
    apply value_sign_div hb
    have hq : 10 ^ prec ≤ n / d := (Nat.le_div_iff_mul_le hd0).mpr (by rwa [mul_comm])
    rw [toContext_shift, toContext_sticky hd0 hq hrem, ← toContext_shift, hscale]

/-- A division is refused by a zero divisor only. -/
theorem div_isSome {a b : Decimal} : (div a b).isSome ↔ b.coeff ≠ 0 := by
  unfold div
  by_cases hb : b.coeff = 0
  · simp [hb]
  · simp only [hb, if_false]
    split_ifs <;> simp [hb]

/-- The integer coefficient of a number rounded to an integer. -/
theorem quantized (c : ℕ) (e : ℤ) :
    (((if 0 ≤ e then c * 10 ^ e.toNat else roundHalfEven c (10 ^ (-e).toNat) : ℕ)) : ℤ) =
      halfEven (value ⟨false, c, e⟩) := by
  rw [value_false]
  split_ifs with he
  · obtain ⟨k, rfl⟩ := Int.eq_ofNat_of_zero_le he
    have hcast : (c : ℚ) * 10 ^ (k : ℤ) = ((c * 10 ^ k : ℕ) : ℤ) := by
      push_cast
      rw [zpow_natCast]
    rw [hcast, halfEven_intCast, Int.toNat_natCast]
  · obtain ⟨k, hk⟩ := Int.eq_ofNat_of_zero_le (by omega : 0 ≤ -e)
    have hcast : (c : ℚ) * 10 ^ e = c / (10 ^ k : ℕ) := by
      rw [show e = -(k : ℤ) by omega, zpow_neg, zpow_natCast, ← div_eq_mul_inv]
      push_cast
      rfl
    rw [hk, Int.toNat_natCast, hcast, cast_roundHalfEven _ _ (by positivity)]

/-- **Quantizing** to integers is refused if the rounded number has more
    digits than the context keeps. -/
theorem quantizeInt_eq_some_iff {a : Decimal} {t : ℤ} :
    a.quantizeInt.map toInt = some t ↔ halfEven (value a) = t ∧ |t| < 10 ^ prec := by
  obtain ⟨n, c, e⟩ := a
  have hc := quantized c e
  obtain ⟨m, hm⟩ : ∃ m, m = if 0 ≤ e then c * 10 ^ e.toNat else roundHalfEven c (10 ^ (-e).toNat) :=
    ⟨_, rfl⟩
  rw [← hm] at hc
  have hsign : halfEven (value ⟨n, c, e⟩) = if n then -(m : ℤ) else m := by
    cases n with
    | false => simp [hc]
    | true => simp [value_true, halfEven_neg, hc]
  have htoInt : toInt ⟨n, m, 0⟩ = if n then -(m : ℤ) else m := by simp [toInt]
  have habs : |if n then -(m : ℤ) else m| = m := by cases n <;> simp
  have hfits : digits m ≤ prec ↔ (m : ℤ) < 10 ^ prec := by
    rw [digits_le_iff (by decide)]
    exact_mod_cast Iff.rfl
  simp only [quantizeInt, ← hm, hsign]
  by_cases h : digits m ≤ prec
  · rw [if_pos h, Option.map_some, htoInt, Option.some_inj]
    constructor
    · intro ht
      exact ⟨ht, by rw [← ht, habs]; exact hfits.mp h⟩
    · intro ht
      exact ht.1
  · rw [if_neg h]
    simp only [Option.map_none, reduceCtorEq, false_iff, not_and]
    intro ht
    rw [← ht, habs, ← hfits]
    exact h

end Decimal
