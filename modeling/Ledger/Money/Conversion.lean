import Ledger.Framework.DecimalRounding
import Ledger.Money.Types

/-! # What a Conversion Computes

    `convert` lifts the amount to major units, multiplies and rounds back,
    each step in the decimal context.  Shifts of the point cancel, so two
    roundings to 28 digits are left, and the rounding to whole minor units.

    * **Closed form**: `convert_eq_some_iff`.
    * **Laws**: `convert_mono`, `convert_mono_rate`, `convert_neg`.
-/

namespace Ledger

open Decimal Rounding

/-- How far the point moves between the minor units of two currencies. -/
def pointShift (source target : Currency) : ℤ := (target.exponent : ℤ) - source.exponent

theorem pointShift_pos (source target : Currency) : (0 : ℚ) < 10 ^ pointShift source target :=
  zpow_pos (by norm_num) _

/-- The exact result of a conversion, in minor units of the target. -/
def exactConversion (amount : Minor) (source target : Currency) (rate : ℚ) : ℚ :=
  amount * rate * 10 ^ pointShift source target

/-- The result in the decimal context, before it is rounded to minor units. -/
def convertedValue (amount : Minor) (source target : Currency) (rate : ℚ) : ℚ :=
  toContext (toContext amount * rate * 10 ^ pointShift source target)

theorem value_ofInt (i : ℤ) : value (ofInt i) = i := by
  rcases lt_or_ge i 0 with h | h
  · simp [value, ofInt, h, abs_of_neg]
  · simp [value, ofInt, h.not_gt, abs_of_nonneg h]

theorem value_scale (c : Currency) : value (scale c) = 10 ^ (c.exponent : ℤ) := by
  simp [value, scale]

/-- The amount in major units never raises. -/
theorem toDecimal_eq (amount : Minor) (currency : Currency) : ∃ major,
    toDecimal amount currency = some major ∧
      value major = toContext amount * 10 ^ (-(currency.exponent : ℤ)) := by
  have hscale : (scale currency).coeff ≠ 0 := by simp [scale]
  obtain ⟨major, hmajor⟩ := Option.isSome_iff_exists.mp
    (div_isSome (a := ofInt amount).mpr hscale)
  refine ⟨major, hmajor, ?_⟩
  rw [value_div hmajor, value_ofInt, value_scale, div_eq_mul_inv, ← zpow_neg, toContext_shift]

/-- **Closed form** of a conversion: it returns if the rounded result has at
    most the digits of the context. -/
theorem convert_eq_some_iff {amount t : Minor} {source target : Currency} {rate : Decimal}
    (hne : source ≠ target) : convert amount source target rate = some t ↔
      halfEven (convertedValue amount source target (value rate)) = t ∧ |t| < 10 ^ prec := by
  obtain ⟨major, hmajor, hvalue⟩ := toDecimal_eq amount source
  have hten : (10 : ℚ) ≠ 0 := by norm_num
  -- the shifts by the two exponents come out of the roundings
  have hshift : toContext amount * 10 ^ (-(source.exponent : ℤ)) * value rate *
      10 ^ (target.exponent : ℤ) =
        toContext amount * value rate * 10 ^ pointShift source target := by
    rw [pointShift, sub_eq_neg_add, zpow_add₀ hten]
    ring
  have hscaled : value ((major.mul rate).mul (scale target)) =
      convertedValue amount source target (value rate) := by
    rw [value_mul, value_mul, value_scale, toContext_shift, toContext_toContext, hvalue,
      ← toContext_shift, hshift, convertedValue]
  rw [convert, if_neg hne, hmajor]
  simp only [Option.bind_eq_bind, Option.bind_some, roundMinor]
  rw [quantizeInt_eq_some_iff, hscaled]

section laws

variable {a b x y : Minor} {source target : Currency} {r s : Decimal}

/-- A larger amount converts to no less. -/
theorem convert_mono (hr : 0 ≤ value r) (hab : a ≤ b) (hx : convert a source target r = some x)
    (hy : convert b source target r = some y) : x ≤ y := by
  by_cases hne : source = target
  · simp only [convert, hne, if_true, Option.some_inj] at hx hy
    rw [← hx, ← hy]
    exact hab
  · obtain ⟨rfl, -⟩ := (convert_eq_some_iff hne).mp hx
    obtain ⟨rfl, -⟩ := (convert_eq_some_iff hne).mp hy
    apply halfEven_mono
    apply toContext_mono
    have hunit := (pointShift_pos source target).le
    have hround : toContext (a : ℚ) ≤ toContext b := toContext_mono (by exact_mod_cast hab)
    gcongr

/-- A better rate converts an amount that is not negative to no less. -/
theorem convert_mono_rate (ha : 0 ≤ a) (hrs : value r ≤ value s)
    (hx : convert a source target r = some x)
    (hy : convert a source target s = some y) : x ≤ y := by
  by_cases hne : source = target
  · simp only [convert, hne, if_true, Option.some_inj] at hx hy
    rw [← hx, ← hy]
  · obtain ⟨rfl, -⟩ := (convert_eq_some_iff hne).mp hx
    obtain ⟨rfl, -⟩ := (convert_eq_some_iff hne).mp hy
    apply halfEven_mono
    apply toContext_mono
    have hunit := (pointShift_pos source target).le
    have hround : 0 ≤ toContext (a : ℚ) := toContext_nonneg (by exact_mod_cast ha)
    gcongr

/-- The opposite amount converts to the opposite one, or does not return either. -/
theorem convert_neg (a : Minor) (source target : Currency) (r : Decimal) :
    convert (-a) source target r = (convert a source target r).map negate := by
  by_cases hne : source = target
  · simp [convert, hne, negate]
  · ext t
    have hodd : convertedValue (-a) source target (value r) =
        -convertedValue a source target (value r) := by
      have hcast : ((-a : ℤ) : ℚ) = -(a : ℚ) := by push_cast; rfl
      rw [convertedValue, convertedValue, hcast, toContext_neg, neg_mul, neg_mul, toContext_neg]
    rw [convert_eq_some_iff hne, hodd, halfEven_neg, Option.map_eq_some_iff]
    constructor
    · rintro ⟨rfl, hfits⟩
      rw [abs_neg] at hfits
      exact ⟨_, (convert_eq_some_iff hne).mpr ⟨rfl, hfits⟩, rfl⟩
    · rintro ⟨u, hu, rfl⟩
      obtain ⟨rfl, hfits⟩ := (convert_eq_some_iff hne).mp hu
      exact ⟨rfl, by rwa [negate, abs_neg]⟩

end laws

end Ledger
