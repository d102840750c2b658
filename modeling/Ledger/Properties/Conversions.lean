import Ledger.Money.Conversion
import Ledger.Properties.Rates

/-! # Conversions

    * **Laws**: `convert_monotone_odd`, for every pair of currencies.
    * **Direct quotes**: `direct_conversion_iff`, when the one rounding that
      is meant is the one that happens.
    * **Inverse quotes**: `inverse_conversion_iff`, where the reciprocal is
      rounded before it is multiplied.
-/

namespace Ledger

open ReadCommitted Decimal Rounding

/-! ## Laws -/

/-- **Monotone and odd**: sending more, or at a better rate, never credits
    less, and the opposite amount converts to the opposite one. -/
theorem convert_monotone_odd {source target : Currency} {a b : Minor} {r s : Decimal}
    (hab : a ≤ b) (hr : 0 < value r) (hrs : value r ≤ value s) :
    (∀ x y, convert a source target r = some x → convert b source target r = some y → x ≤ y) ∧
    (0 ≤ a → ∀ x y, convert a source target r = some x → convert a source target s = some y →
      x ≤ y) ∧
    convert (negate a) source target r = (convert a source target r).map negate := by
  refine ⟨?_, ?_, convert_neg a source target r⟩
  · intro x y hx hy
    exact convert_mono hr.le hab hx hy
  · intro ha x y hx hy
    exact convert_mono_rate ha hrs hx hy

/-- At the rates of one and of two thirds, rounded to 28 digits. -/
theorem convert_monotone_thirds : ∃ x y z,
    convert 150 .USD .EUR ⟨false, 3333333333333333333333333333, -28⟩ = some x ∧
      convert 300 .USD .EUR ⟨false, 3333333333333333333333333333, -28⟩ = some y ∧
      convert 150 .USD .EUR ⟨false, 6666666666666666666666666667, -28⟩ = some z ∧
      x ≤ y ∧ x ≤ z ∧
      convert (negate 150) .USD .EUR ⟨false, 3333333333333333333333333333, -28⟩ =
        some (negate x) := by
  have hlaws := @convert_monotone_odd .USD .EUR 150 300
    ⟨false, 3333333333333333333333333333, -28⟩ ⟨false, 6666666666666666666666666667, -28⟩
    (by decide) (by simp [value]) (by simp [value]; norm_num)
  have hx : convert 150 .USD .EUR ⟨false, 3333333333333333333333333333, -28⟩ = some 50 := by
    decide +kernel
  have hy : convert 300 .USD .EUR ⟨false, 3333333333333333333333333333, -28⟩ = some 100 := by
    decide +kernel
  have hz : convert 150 .USD .EUR ⟨false, 6666666666666666666666666667, -28⟩ = some 100 := by
    decide +kernel
  refine ⟨50, 100, 100, hx, hy, hz, hlaws.1 50 100 hx hy, hlaws.2.1 (by decide) 50 100 hx hz, ?_⟩
  rw [hlaws.2.2, hx]
  rfl

/-! ## Direct Quotes -/

/-- All currencies have the same number of decimals. -/
theorem pointShift_eq_zero (source target : Currency) : pointShift source target = 0 := by
  cases source <;> cases target <;> rfl

/-- The product of an amount and a rate, in units of the scale of the column. -/
def productUnits (amount : Minor) (units : ℕ) : ℕ := amount.natAbs * units

/-- The product has more digits than the context, and lies within five of its
    units of a tie, on the side that rounds to the odd of the two whole units. -/
def LosesDigit (n : ℕ) : Prop :=
  10 ^ 28 ≤ n ∧
    ((n / 10 ^ 10 % 2 = 0 ∧ 5 * 10 ^ 9 < n % 10 ^ 10 ∧ n % 10 ^ 10 ≤ 5 * 10 ^ 9 + 5) ∨
      (n / 10 ^ 10 % 2 = 1 ∧ n % 10 ^ 10 < 5 * 10 ^ 9 ∧ 5 * 10 ^ 9 ≤ n % 10 ^ 10 + 5))

instance (n : ℕ) : Decidable (LosesDigit n) := by unfold LosesDigit; infer_instance

/-- Dropping one digit first gives the same whole unit, except near a tie. -/
theorem roundHalfEven_twice (n : ℕ) (h : 10 ^ 28 ≤ n) :
    roundHalfEven (roundHalfEven n 10) (10 ^ 9) = roundHalfEven n (10 ^ 10) ↔ ¬ LosesDigit n := by
  unfold LosesDigit roundHalfEven
  simp only
  split_ifs <;> omega

/-- The value of a column in its units. -/
theorem value_rate (r : FxRate) : value r.rate = r.units * 10 ^ (-10 : ℤ) :=
  value_false r.units (-10)

/-- The exact result of converting a whole amount at a stored rate. -/
theorem exactConversion_eq (k : ℕ) (source target : Currency) (r : FxRate) :
    exactConversion k source target (value r.rate) =
      (productUnits k r.units : ℕ) * 10 ^ (-10 : ℤ) := by
  rw [exactConversion, pointShift_eq_zero, value_rate, productUnits, Int.natAbs_natCast]
  push_cast
  ring

theorem tenth_pow (j : ℕ) : (10 : ℚ) ^ (-(j : ℤ)) = 1 / (10 ^ j : ℕ) := by
  rw [zpow_neg, zpow_natCast, one_div]
  push_cast
  rfl

/-- A product of 29 digits keeps 28 of them. -/
theorem toContext_product {n : ℕ} (hlow : 10 ^ 28 ≤ n) (hup : n < 10 ^ 29) :
    toContext (n * 10 ^ (-10 : ℤ)) = (roundHalfEven n 10 : ℕ) / (10 ^ 9 : ℕ) := by
  have hdigits : digits n = prec + 1 := by
    have h₁ : ¬ digits n ≤ 28 := by
      rw [digits_le_iff (by decide)]
      omega
    have h₂ : digits n ≤ 29 := (digits_le_iff (by decide)).mpr hup
    show digits n = 29
    omega
  rw [toContext_shift, toContext_natCast hdigits (by omega), mul_assoc,
    ← zpow_add₀ (by norm_num), pow_one, show ((1 : ℕ) : ℤ) + -10 = -((9 : ℕ) : ℤ) by norm_num,
    tenth_pow, mul_one_div]

/-- The conversion of an amount that is not negative. -/
theorem direct_conversion_nat {k : ℕ} {source target : Currency} {r : FxRate}
    (hne : source ≠ target) (hk : k < 10 ^ 28)
    (hfit : halfEven (exactConversion k source target (value r.rate)) ≤ 2 ^ 63) :
    convert k source target r.rate =
        some (halfEven (exactConversion k source target (value r.rate))) ↔
      ¬ LosesDigit (productUnits k r.units) := by
  obtain ⟨n, hn⟩ : ∃ n, n = productUnits k r.units := ⟨_, rfl⟩
  have hexact : exactConversion k source target (value r.rate) = n * 10 ^ (-10 : ℤ) := by
    rw [exactConversion_eq, hn]
  have hdiv : (n : ℚ) * 10 ^ (-10 : ℤ) = (n : ℚ) / (10 ^ 10 : ℕ) := by
    rw [show (-10 : ℤ) = -((10 : ℕ) : ℤ) by norm_num, tenth_pow, mul_one_div]
  have hround : halfEven (exactConversion k source target (value r.rate)) =
      (roundHalfEven n (10 ^ 10) : ℕ) := by
    rw [hexact, hdiv, ← cast_roundHalfEven _ _ (by positivity)]
  rw [hround] at hfit
  have hvalue : convertedValue k source target (value r.rate) = toContext (n * 10 ^ (-10 : ℤ)) := by
    have hamount : toContext ((k : ℤ) : ℚ) = (k : ℤ) := by
      apply toContext_intCast
      rw [abs_of_nonneg (by positivity)]
      exact_mod_cast hk
    rw [← hexact, convertedValue, hamount, exactConversion]
  have hreturns : |((roundHalfEven n (10 ^ 10) : ℕ) : ℤ)| < 10 ^ prec := by
    rw [abs_of_nonneg (by positivity)]
    exact hfit.trans_lt (by decide)
  rw [hround, convert_eq_some_iff hne, hvalue, and_iff_left hreturns, ← hn]
  rcases Nat.lt_or_ge n (10 ^ 28) with hsmall | hbig
  · -- every digit is kept
    have hm : |((n : ℕ) : ℤ)| < 10 ^ prec := by
      rw [abs_of_nonneg (by positivity)]
      exact_mod_cast hsmall
    have hkept : toContext (n * 10 ^ (-10 : ℤ)) = (n : ℚ) / (10 ^ 10 : ℕ) := by
      rw [← hdiv]
      exact_mod_cast toContext_of_lt (e := -10) hm
    rw [hkept, ← cast_roundHalfEven _ _ (by positivity)]
    simp only [true_iff]
    intro h
    exact absurd h.1 (by omega)
  · have hup : n < 10 ^ 29 := by
      have hle : n / 10 ^ 10 ≤ roundHalfEven n (10 ^ 10) := by
        unfold roundHalfEven
        simp only
        split_ifs <;> omega
      have hlt : roundHalfEven n (10 ^ 10) ≤ 2 ^ 63 := by exact_mod_cast hfit
      omega
    rw [toContext_product hbig hup, ← cast_roundHalfEven _ _ (by positivity), Nat.cast_inj]
    exact roundHalfEven_twice n hbig

/-- **Direct conversion**: an amount of 64 bits whose exact result fits into 64
    bits converts to that result, rounded once to whole units, ties to even,
    iff no digit that decides is lost. -/
theorem direct_conversion_iff {amount : Minor} {source target : Currency} {r : FxRate}
    (hne : source ≠ target) (hamount : Database.bigint amount)
    (hfit : Database.bigint (halfEven (exactConversion amount source target (value r.rate)))) :
    convert amount source target r.rate =
        some (halfEven (exactConversion amount source target (value r.rate))) ↔
      ¬ LosesDigit (productUnits amount r.units) := by
  simp only [Database.bigint, Bool.and_eq_true, decide_eq_true_eq] at hamount hfit
  obtain ⟨k, rfl | rfl⟩ := amount.eq_nat_or_neg
  · exact direct_conversion_nat hne (by omega) hfit.2.le
  · -- a negative amount is converted as its opposite
    have hexact : exactConversion (-(k : ℤ)) source target (value r.rate) =
        -exactConversion k source target (value r.rate) := by
      unfold exactConversion
      push_cast
      ring
    rw [hexact, halfEven_neg] at hfit ⊢
    have hnat := direct_conversion_nat (k := k) (r := r) hne (by omega) (by omega)
    have hunits : productUnits (-(k : ℤ)) r.units = productUnits k r.units := by
      simp [productUnits]
    rw [hunits, ← hnat, convert_neg]
    constructor
    · intro h
      obtain ⟨t, ht, hneg⟩ := Option.map_eq_some_iff.mp h
      rw [ht, neg_inj.mp hneg]
    · intro h
      rw [h]
      rfl

/-- A rate one unit of the column above par. -/
def abovePar : FxRate := ⟨1, "acme", .USD, .EUR, 10000000001, "manual", 0, 0⟩

/-- An everyday amount loses no digit. -/
theorem direct_conversion_everyday : convert 10000 .USD .EUR abovePar.rate =
    some (halfEven (exactConversion 10000 .USD .EUR (value abovePar.rate))) :=
  (direct_conversion_iff (by decide) (by decide) (by decide +kernel)).mpr (by decide)

/-- The exact result is just above the half, and the product ends on it. -/
theorem direct_conversion_off_by_one :
    convert 1000000015000000001 .USD .EUR abovePar.rate = some 1000000015100000002 ∧
      halfEven (exactConversion 1000000015000000001 .USD .EUR (value abovePar.rate)) =
        1000000015100000003 := by
  decide +kernel

/-! ## Inverse Quotes -/

/-- The reciprocal of a quote in 28 digits is a power of ten divided by the
    units of the quote, to the nearest integer; this is what it has too much. -/
def excess (units : ℕ) : ℤ :=
  roundHalfEven (10 ^ (27 + digits units)) units * units - 10 ^ (27 + digits units)

/-- The exact quotient, with the error that multiplying by the reciprocal
    carries into it. -/
def carried (amount : Minor) (units : ℕ) : ℚ :=
  amount / (units * 10 ^ (-10 : ℤ)) +
    amount * excess units / (units * (10 ^ (17 + digits units) : ℕ))

/-- A quotient that rounds to `n` or less: it is below the tie above `n`, or
    on it and `n` is even. -/
def BelowTie (n : ℕ) (x : ℚ) : Prop := x < n + 1 / 2 ∨ (x = n + 1 / 2 ∧ n % 2 = 0)

/-- Half a unit of the 28th digit at the tie above `n`; from `10^27` on the 28
    digits have no decimal left to spare. -/
def halfDigit (n : ℕ) : ℚ :=
  if n < 10 ^ 27 then 10 ^ (Int.log 10 (n + 1 / 2 : ℚ) - 27) / 2 else 0

/-- The tie above `n`, moved by half a unit of the 28th digit towards the odd
    one of its neighbours. -/
def movedTie (n : ℕ) : ℚ := n + 1 / 2 + if n % 2 = 0 then halfDigit n else -halfDigit n

/-- A number that rounds to `n` or less after it was cut to 28 digits. -/
def BelowMovedTie (n : ℕ) (w : ℚ) : Prop :=
  w < movedTie n ∨ (w = movedTie n ∧ n % 2 = if 10 ^ 26 ≤ n ∧ n < 10 ^ 27 then 1 else 0)

instance (n : ℕ) (w : ℚ) : Decidable (BelowMovedTie n w) := by
  unfold BelowMovedTie
  infer_instance

/-- The exact quotient and the one with the carried error lie on the same side
    of every tie, the tie moved for the latter by what the last digit hides. -/
def Undisplaced (amount : Minor) (units : ℕ) : Prop :=
  ∀ n < 10 ^ 28,
    BelowMovedTie n (carried amount units) ↔ BelowTie n (amount / (units * 10 ^ (-10 : ℤ)))

theorem halfEven_le_nat {n : ℕ} {x : ℚ} : halfEven x ≤ n ↔ BelowTie n x := by
  rw [halfEven_le_iff, BelowTie]
  have hlt : 2 * x < 2 * ((n : ℤ) : ℚ) + 1 ↔ x < n + 1 / 2 := by
    push_cast
    constructor <;> intro h <;> linarith
  have heq : 2 * x = 2 * ((n : ℤ) : ℚ) + 1 ↔ x = n + 1 / 2 := by
    push_cast
    constructor <;> intro h <;> linarith
  rw [hlt, heq]
  norm_cast

/-- A tie is not a power of ten. -/
theorem zpow_lt_tie {n : ℕ} {k : ℤ} (h : (10 : ℚ) ^ k ≤ n + 1 / 2) : (10 : ℚ) ^ k < n + 1 / 2 := by
  refine lt_of_le_of_ne h fun heq => ?_
  rcases lt_or_ge k 0 with hneg | hnonneg
  · have hle : (10 : ℚ) ^ k ≤ 10 ^ (-1 : ℤ) := zpow_le_zpow_right₀ (by norm_num) (by omega)
    have hn : (0 : ℚ) ≤ n := by positivity
    norm_num at hle
    linarith
  · obtain ⟨j, rfl⟩ := Int.eq_ofNat_of_zero_le hnonneg
    rw [zpow_natCast] at heq
    have hdouble : ((2 * 10 ^ j : ℕ) : ℚ) = (2 * n + 1 : ℕ) := by
      push_cast
      linarith
    have hodd : 2 * 10 ^ j = 2 * n + 1 := by exact_mod_cast hdouble
    omega

/-- A tie below `10^27` is a number of 28 digits.  The last one of them is the
    half itself from `10^26` on, and a zero before. -/
theorem tie_digits {n : ℕ} (hn : n < 10 ^ 27) : ∃ k t : ℤ,
    Int.log 10 (n + 1 / 2 : ℚ) = k ∧ (n + 1 / 2 : ℚ) = t * 10 ^ (k - 27) ∧
      10 ^ 27 < t ∧ t < 10 ^ 28 ∧ t % 2 = if 10 ^ 26 ≤ n then 1 else 0 := by
  have hten : (10 : ℚ) ≠ 0 := by norm_num
  have hpos : (0 : ℚ) < n + 1 / 2 := by positivity
  obtain ⟨k, hk⟩ : ∃ k, Int.log 10 (n + 1 / 2 : ℚ) = k := ⟨_, rfl⟩
  have hlow : (10 : ℚ) ^ k ≤ n + 1 / 2 := by
    have h := Int.zpow_log_le_self (b := 10) (by decide) hpos
    rw [hk] at h
    exact_mod_cast h
  have hup : (n + 1 / 2 : ℚ) < 10 ^ (k + 1) := by
    have h := Int.lt_zpow_succ_log_self (b := 10) (by decide) (n + 1 / 2 : ℚ)
    rw [hk] at h
    exact_mod_cast h
  -- the exponent says on which side of a power of ten the tie lies
  have hside (j : ℕ) : k < j ↔ n < 10 ^ j := by
    rw [← hk, ← Int.lt_zpow_iff_log_lt (by decide) hpos]
    have hcast : ((10 : ℕ) : ℚ) ^ (j : ℤ) = ((10 ^ j : ℕ) : ℚ) := by
      rw [zpow_natCast]
      push_cast
      rfl
    rw [hcast]
    constructor
    · intro h
      have hlt : (n : ℚ) < ((10 ^ j : ℕ) : ℚ) := by linarith
      exact_mod_cast hlt
    · intro h
      have hle : (n : ℚ) + 1 ≤ ((10 ^ j : ℕ) : ℚ) := by exact_mod_cast h
      linarith
  have hk27 := (hside 27).mpr hn
  have hk26 := hside 26
  obtain ⟨j, hj⟩ : ∃ j : ℕ, k = 26 - (j : ℤ) := ⟨(26 - k).toNat, by omega⟩
  obtain ⟨t, ht⟩ : ∃ t : ℤ, t = (2 * n + 1) * 5 * 10 ^ j := ⟨_, rfl⟩
  have hunit : (0 : ℚ) < 10 ^ (k - 27) := zpow_pos (by norm_num) _
  have hvalue : (n + 1 / 2 : ℚ) = t * 10 ^ (k - 27) := by
    rw [ht, hj, show (26 - (j : ℤ) - 27) = -(j : ℤ) + -1 by ring, zpow_add₀ hten, zpow_neg,
      zpow_natCast]
    push_cast
    field_simp
    ring
  obtain ⟨h27, h28⟩ := zpow_decade k
  refine ⟨k, t, hk, hvalue, ?_, ?_, ?_⟩
  · have h := zpow_lt_tie hlow
    rw [hvalue, h27] at h
    have hlt := lt_of_mul_lt_mul_right h hunit.le
    exact_mod_cast hlt
  · have h := hup
    rw [hvalue, h28] at h
    have hlt := lt_of_mul_lt_mul_right h hunit.le
    exact_mod_cast hlt
  · rcases Nat.eq_zero_or_pos j with hj0 | hj0
    · rw [if_pos (by omega), ht, hj0]
      omega
    · obtain ⟨i, rfl⟩ : ∃ i, j = i + 1 := ⟨j - 1, by omega⟩
      have heven : t = 2 * ((2 * n + 1) * 5 * 10 ^ i * 5) := by
        rw [ht, pow_succ]
        ring
      rw [if_neg (by omega), heven]
      omega

/-- Where a number of units is against the middle of two of them. -/
theorem middle_of_units {u : ℚ} (hu : 0 < u) (w : ℚ) (t : ℤ) :
    (2 * (w / u) < 2 * (t : ℚ) + 1 ↔ w < t * u + u / 2) ∧
      (2 * (w / u) = 2 * (t : ℚ) + 1 ↔ w = t * u + u / 2) := by
  rw [← mul_div_assoc, div_lt_iff₀ hu, div_eq_iff hu.ne', add_mul, mul_assoc]
  constructor <;> constructor <;> intro h <;> linarith

/-- **Cutting to 28 digits** and rounding to whole units is comparing with the
    moved ties. -/
theorem halfEven_toContext_le {n : ℕ} (hn : n < 10 ^ 28) (w : ℚ) :
    halfEven (toContext w) ≤ n ↔ BelowMovedTie n w := by
  rcases Nat.lt_or_ge n (10 ^ 27) with hsmall | hbig
  · obtain ⟨k, t, hk, htie, hlow, hup, hparity⟩ := tie_digits hsmall
    have hunit : (0 : ℚ) < 10 ^ (k - 27) := zpow_pos (by norm_num) _
    have hhalf : halfDigit n = 10 ^ (k - 27) / 2 := by rw [halfDigit, if_pos hsmall, hk]
    -- the tie is itself a number of 28 digits
    obtain ⟨hle, hlt⟩ := toContext_compare (k := k) hlow hup w
    rw [← htie] at hle hlt
    have hmod : (if 10 ^ 26 ≤ n ∧ n < 10 ^ 27 then 1 else 0) = if 10 ^ 26 ≤ n then 1 else 0 := by
      simp only [hsmall, and_true]
    rw [halfEven_le_nat, BelowMovedTie, movedTie, hmod]
    rcases Nat.mod_two_eq_zero_or_one n with hn2 | hn2
    · -- an even unit keeps its tie
      have hbelow : BelowTie n (toContext w) ↔ toContext w ≤ n + 1 / 2 := by
        simp [BelowTie, hn2, le_iff_lt_or_eq]
      obtain ⟨hdiv, heq⟩ := middle_of_units hunit w t
      rw [← htie] at hdiv heq
      have hpar : t % 2 = 0 ↔ n % 2 = if 10 ^ 26 ≤ n then 1 else 0 := by
        rw [hparity]
        split_ifs <;> omega
      rw [hbelow, hle, halfEven_le_iff, if_pos hn2, hhalf, hdiv, heq, hpar]
    · -- an odd one leaves it to the next
      have hbelow : BelowTie n (toContext w) ↔ toContext w < n + 1 / 2 := by
        simp [BelowTie, hn2]
      have hbefore : ((t - 1 : ℤ) : ℚ) * 10 ^ (k - 27) + 10 ^ (k - 27) / 2 =
          n + 1 / 2 + -(10 ^ (k - 27) / 2) := by
        rw [htie]
        push_cast
        ring
      obtain ⟨hdiv, heq⟩ := middle_of_units hunit w (t - 1)
      rw [hbefore] at hdiv heq
      have hpar : (t - 1) % 2 = 0 ↔ n % 2 = if 10 ^ 26 ≤ n then 1 else 0 := by
        have ht := hparity
        split_ifs at ht ⊢ <;> omega
      have hn2' : ¬ n % 2 = 0 := by omega
      rw [hbelow, hlt, ← Int.le_sub_one_iff, halfEven_le_iff, if_neg hn2', hhalf, hdiv, heq, hpar]
  · -- the product keeps no decimal, so this is the rounding to whole units
    have hhalf : movedTie n = n + 1 / 2 := by
      have hnone : halfDigit n = 0 := if_neg (not_lt.mpr hbig)
      simp [movedTie, hnone]
    have hmod : (if 10 ^ 26 ≤ n ∧ n < 10 ^ 27 then 1 else 0) = 0 := by
      rw [if_neg (by omega)]
    have hsame : BelowMovedTie n w ↔ halfEven w ≤ n := by
      rw [halfEven_le_nat, BelowMovedTie, BelowTie, hhalf, hmod]
    rw [hsame]
    -- below, within and above the decade of 28 whole digits
    rcases toContext_cases w 27 with ⟨hw, hy⟩ | hy | ⟨hw, hy⟩
    · have hle (x : ℚ) (hx : x ≤ 10 ^ (27 : ℤ)) : halfEven x ≤ n := by
        have h := halfEven_mono hx
        rw [show (10 : ℚ) ^ (27 : ℤ) = ((10 ^ 27 : ℤ) : ℚ) by norm_num, halfEven_intCast] at h
        omega
      exact iff_of_true (hle _ hy) (hle _ hw.le)
    · rw [hy]
      simp
    · have hge (x : ℚ) (hx : 10 ^ (27 + 1 : ℤ) ≤ x) : ¬ halfEven x ≤ n := by
        have h := halfEven_mono hx
        rw [show (10 : ℚ) ^ (27 + 1 : ℤ) = ((10 ^ 28 : ℤ) : ℚ) by norm_num, halfEven_intCast] at h
        omega
      exact iff_of_false (hge _ hy) (hge _ hw)

/-- The first tie that the exact quotient is not above. -/
def nextTie (amount : Minor) (units : ℕ) : ℕ :=
  min (halfEven (amount / (units * 10 ^ (-10 : ℤ)) : ℚ)).toNat (10 ^ 28)

/-- Only the two ties next to the exact quotient have to be compared. -/
theorem undisplaced_iff {amount : Minor} {units : ℕ} : Undisplaced amount units ↔
    (nextTie amount units < 10 ^ 28 →
        BelowMovedTie (nextTie amount units) (carried amount units)) ∧
      (0 < nextTie amount units →
        ¬ BelowMovedTie (nextTie amount units - 1) (carried amount units)) := by
  obtain ⟨t, ht⟩ : ∃ t, t = halfEven (toContext (carried amount units)) := ⟨_, rfl⟩
  have hbelow (n : ℕ) (hn : n < 10 ^ 28) : BelowMovedTie n (carried amount units) ↔ t ≤ n := by
    rw [ht, halfEven_toContext_le hn]
  unfold Undisplaced nextTie
  simp only [← halfEven_le_nat]
  generalize halfEven (amount / (units * 10 ^ (-10 : ℤ)) : ℚ) = u
  constructor
  · intro h
    refine ⟨fun hlt => ?_, fun hpos => ?_⟩
    · rw [h _ hlt]
      omega
    · rw [h _ (by omega)]
      omega
  · -- both sides are monotone in the tie
    rintro ⟨hat, hbefore⟩ n hn
    rw [hbelow _ (by omega)] at hbefore
    rw [hbelow n hn]
    rcases Nat.lt_or_ge (min u.toNat (10 ^ 28)) (10 ^ 28) with hlt | hge
    · have ht := (hbelow _ hlt).mp (hat hlt)
      omega
    · omega

instance (amount : Minor) (units : ℕ) : Decidable (Undisplaced amount units) :=
  decidable_of_iff _ undisplaced_iff.symm

/-- The 28-digit reciprocal of a quote. -/
theorem toContext_reciprocal {units : ℕ} (h : 0 < units) :
    toContext (1 / (units * 10 ^ (-10 : ℤ))) =
      (roundHalfEven (10 ^ (27 + digits units)) units : ℕ) / (10 ^ (17 + digits units) : ℕ) := by
  have hu : (0 : ℚ) < units := by exact_mod_cast h
  have hlow := pow_digits_le h
  have hup := (lt_pow_digits units).le
  have hpos := digits_pos units
  obtain ⟨z, hz⟩ : ∃ z : ℚ, z = ((10 ^ (27 + digits units) : ℕ) : ℚ) / units := ⟨_, rfl⟩
  have hz27 : (10 : ℚ) ^ (27 : ℤ) ≤ z := by
    rw [hz, le_div_iff₀ hu]
    have hle : 10 ^ 27 * units ≤ 10 ^ (27 + digits units) := by
      rw [pow_add]
      exact Nat.mul_le_mul_left _ hup
    exact_mod_cast hle
  have hz28 : z ≤ (10 : ℚ) ^ (27 + 1 : ℤ) := by
    rw [hz, div_le_iff₀ hu]
    have hle : 10 ^ (27 + digits units) ≤ 10 ^ 28 * units := by
      rw [show 27 + digits units = 28 + (digits units - 1) by omega, pow_add]
      exact Nat.mul_le_mul_left _ hlow
    exact_mod_cast hle
  have hint : toContext z = halfEven z := by
    rcases toContext_cases z 27 with ⟨hlt, -⟩ | heq | ⟨hge, -⟩
    · exact absurd hz27 hlt.not_ge
    · simpa using heq
    · -- a power of ten
      have hten : z = ((1 : ℤ) : ℚ) * 10 ^ (28 : ℤ) := by
        rw [le_antisymm hz28 hge]
        norm_num
      have hcast : ((1 : ℤ) : ℚ) * 10 ^ (28 : ℤ) = ((10 ^ 28 : ℤ) : ℚ) := by norm_num
      rw [hten, toContext_of_lt (by decide), hcast, halfEven_intCast]
  have hscaled : 1 / (units * 10 ^ (-10 : ℤ)) = z * 10 ^ (-((17 + digits units : ℕ) : ℤ)) := by
    have hpow : ((10 ^ (27 + digits units) : ℕ) : ℚ) * 10 ^ (-((17 + digits units : ℕ) : ℤ)) =
        10 ^ (10 : ℤ) := by
      push_cast
      rw [← zpow_natCast, ← zpow_add₀ (by norm_num),
        show ((27 + digits units : ℕ) : ℤ) + -(17 + (digits units : ℤ)) = 10 by push_cast; ring]
      norm_num
    rw [hz, div_mul_eq_mul_div, hpow, one_div, mul_inv, ← zpow_neg, neg_neg, mul_comm,
      div_eq_mul_inv]
  rw [hscaled, toContext_shift, hint, hz, ← cast_roundHalfEven _ _ h, tenth_pow, mul_one_div,
    Int.cast_natCast]

/-- The amount times the reciprocal is the exact quotient with the carried error. -/
theorem carried_eq {amount : Minor} {units : ℕ} (h : 0 < units) :
    carried amount units = amount * toContext (1 / (units * 10 ^ (-10 : ℤ))) := by
  have hu : (units : ℚ) ≠ 0 := by exact_mod_cast h.ne'
  have hten : ((10 ^ (27 + digits units) : ℕ) : ℚ) =
      (10 ^ (17 + digits units) : ℕ) * 10 ^ (10 : ℤ) := by
    rw [show 27 + digits units = 17 + digits units + 10 by ring, pow_add]
    push_cast
    norm_num
  rw [toContext_reciprocal h, carried, excess]
  push_cast at hten ⊢
  rw [hten, zpow_neg]
  field_simp
  ring

/-- Two numbers round to the same unit, the first to `t`, if they lie on the
    same side of the ties up to `t`. -/
theorem halfEven_eq_of_ties {x y : ℚ} {t : ℤ} (ht : halfEven y = t) (ht0 : 0 ≤ t)
    (ht28 : t < 10 ^ 28) (hx : 0 ≤ x) :
    t = halfEven x ↔ ∀ n : ℕ, n < 10 ^ 28 → (halfEven y ≤ n ↔ halfEven x ≤ n) := by
  have hx0 := halfEven_nonneg hx
  constructor
  · intro h n _
    rw [ht, h]
  · intro h
    rw [ht] at h
    obtain ⟨u, hu⟩ := Int.eq_ofNat_of_zero_le hx0
    obtain ⟨v, rfl⟩ := Int.eq_ofNat_of_zero_le ht0
    rw [hu] at h ⊢
    rcases lt_trichotomy u v with hlt | rfl | hgt
    · -- the tie above the smaller one separates them
      have hsep := h u (by omega)
      omega
    · rfl
    · have hsep := h v (by omega)
      omega

/-- **Inverse conversion**: for a pair that has only an inverse quote, the
    amount a conversion returns is the exact quotient rounded once to whole
    units, ties to even, iff the error of the reciprocal does not displace it. -/
theorem inverse_conversion_iff {d : Database} {base quote : Currency} {asOf : Time} {r : FxRate}
    {amount : Minor} (hne : base ≠ quote) (hnone : d.Unquoted base quote asOf)
    (hrow : d.Newest quote base asOf r) (hpos : 0 < r.units) (h0 : 0 < amount)
    (hamount : Database.bigint amount) :
    ∃ rate, Database.inverseRate r = some rate ∧ d.Resolves base quote asOf (some rate) ∧
      ∀ t, convert amount base quote rate.rate = some t →
        (t = halfEven (exactConversion amount base quote (1 / value r.rate)) ↔
          Undisplaced amount r.units) := by
  simp only [Database.bigint, Bool.and_eq_true, decide_eq_true_eq] at hamount
  obtain ⟨reciprocal, hdiv⟩ := Option.isSome_iff_exists.mp
    (div_isSome (a := ONE) (b := r.rate).mpr hpos.ne')
  have hrate : Database.inverseRate r =
      some ⟨reciprocal, s!"{r.source} (reciprocal)", some r.id, r.effectiveAt⟩ := by
    simp [Database.inverseRate, hdiv]
  refine ⟨_, hrate, hrate ▸ .inverse hne hnone hrow, fun t ht => ?_⟩
  have hvalue : value reciprocal = toContext (1 / (r.units * 10 ^ (-10 : ℤ))) := by
    have hone : value ONE = 1 := by simp [value, ONE]
    rw [value_div hdiv, hone, value_rate]
  have hfits : toContext ((amount : ℤ) : ℚ) = amount := by
    apply toContext_intCast
    rw [abs_of_pos h0]
    exact hamount.2.trans (by decide)
  obtain ⟨hround, hreturns⟩ := (convert_eq_some_iff hne).mp ht
  have hproduct : convertedValue amount base quote (value reciprocal) =
      toContext (carried amount r.units) := by
    rw [convertedValue, hfits, hvalue, pointShift_eq_zero, zpow_zero, mul_one, carried_eq hpos]
  have hexact : exactConversion amount base quote (1 / value r.rate) =
      amount / (r.units * 10 ^ (-10 : ℤ)) := by
    rw [exactConversion, pointShift_eq_zero, value_rate, zpow_zero, mul_one, mul_one_div]
  have hq : (0 : ℚ) ≤ amount / (r.units * 10 ^ (-10 : ℤ)) := by
    have ha : (0 : ℚ) ≤ amount := by exact_mod_cast h0.le
    positivity
  have ht0 : 0 ≤ t := by
    refine convert_nonneg h0.le ?_ ht
    simpa [ONE, FxRate.rate] using Decimal.div_neg hdiv
  rw [hproduct] at hround
  rw [hexact, halfEven_eq_of_ties hround ht0 (by rwa [abs_of_nonneg ht0] at hreturns) hq]
  refine forall₂_congr fun n hn => ?_
  rw [halfEven_toContext_le hn, halfEven_le_nat]

open Sample

/-- The dollar is quoted at six euros, and the euro not at all. -/
def quotedSix : Database := script ([quoteFrom 0 599 1].map Publication.entry) .empty

/-- The row of that quote. -/
def sixRow : FxRate := (quoteFrom 0 599 1).row

theorem quotedSix_rows : quotedSix.rates.rows = [sixRow] := by decide +kernel

/-- Twelve cents come out exactly. -/
theorem inverse_conversion_twelve : ∃ rate, Database.inverseRate sixRow = some rate ∧
    convert 12 .EUR .USD rate.rate =
      some (halfEven (exactConversion 12 .EUR .USD (1 / value sixRow.rate))) := by
  obtain ⟨rate, hrate, -, hiff⟩ := @inverse_conversion_iff quotedSix .EUR .USD 10 sixRow 12
    (by decide)
    (by simp [Database.Unquoted, quotedSix_rows]; decide +kernel)
    ⟨by simp [quotedSix_rows], by decide +kernel, by simp [quotedSix_rows]⟩ (by decide) (by decide)
    (by decide)
  have hreturns : (Database.inverseRate sixRow).map (fun q => convert 12 .EUR .USD q.rate) =
      some (some 2) := by
    decide +kernel
  rw [hrate, Option.map_some, Option.some_inj] at hreturns
  have hundisplaced : Undisplaced 12 sixRow.units := by decide +kernel
  exact ⟨rate, hrate, hreturns.trans (congrArg some ((hiff 2 hreturns).mpr hundisplaced))⟩

/-- Three cents at the reciprocal of six are half a cent, and credit one. -/
theorem inverse_conversion_displaced :
    (quotedSix.resolve .EUR .USD 10).map (fun q => convert 3 .EUR .USD q.rate) = some (some 1) ∧
      halfEven (exactConversion 3 .EUR .USD (1 / value sixRow.rate)) = 0 := by
  decide +kernel

end Ledger
