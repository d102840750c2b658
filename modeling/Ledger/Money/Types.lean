import Ledger.Framework.Decimal

/-! # Money Primitives

    An amount is an integer number of minor units of a currency; a decimal
    appears only when an amount is converted, and is rounded once, ties to
    even (`money/types.py`).
-/

namespace Ledger

/-- An amount in a currency's smallest unit. -/
abbrev Minor := Int

/-- Supported settlement currencies. -/
inductive Currency where
  | USD | EUR | GBP | CAD
  deriving DecidableEq, Repr

namespace Currency

/-- The value of the enumeration. -/
def value : Currency → String
  | USD => "USD"
  | EUR => "EUR"
  | GBP => "GBP"
  | CAD => "CAD"

/-- The members of the enumeration. -/
def members : List Currency := [USD, EUR, GBP, CAD]

theorem mem_members (c : Currency) : c ∈ members := by
  cases c <;> decide

instance {p : Currency → Prop} [DecidablePred p] : Decidable (∀ c, p c) :=
  decidable_of_iff (∀ c ∈ members, p c) (by simp [mem_members])

instance {p : Currency → Prop} [DecidablePred p] : Decidable (∃ c, p c) :=
  decidable_of_iff (∃ c ∈ members, p c) (by simp [mem_members])

/-- `value.lower()`. -/
def lower : Currency → String
  | USD => "usd"
  | EUR => "eur"
  | GBP => "gbp"
  | CAD => "cad"

/-- Minor-unit exponent (`_EXPONENT`). -/
def exponent : Currency → Nat
  | USD => 2
  | EUR => 2
  | GBP => 2
  | CAD => 2

end Currency

/-- The signed inverse. -/
def negate (a : Minor) : Minor := -a

/-- `Decimal(10) ** exp`. -/
def scale (c : Currency) : Decimal := ⟨false, 10 ^ c.exponent, 0⟩

/-- Minor units as a decimal of major units. -/
def toDecimal (amount : Minor) (currency : Currency) : Option Decimal :=
  (Decimal.ofInt amount).div (scale currency)

/-- Round a decimal of major units to whole minor units. -/
def roundMinor (value : Decimal) (currency : Currency) : Option Minor :=
  ((value.mul (scale currency)).quantizeInt).map Decimal.toInt

/-- Convert an amount at `rate`, target per source in major units.  `none`
    where the decimal arithmetic raises. -/
def convert (amount : Minor) (source target : Currency) (rate : Decimal) : Option Minor :=
  if source = target then some amount
  else do
    let major ← toDecimal amount source
    roundMinor (major.mul rate) target

example : convert 1050 .USD .EUR ⟨false, 9200000000, -10⟩ = some 966 := by decide

/-- An amount that is not negative converts to one that is not, at a rate
    without a minus sign. -/
theorem convert_nonneg {amount t : Minor} {source target : Currency} {rate : Decimal}
    (ha : 0 ≤ amount) (hr : rate.neg = false) (h : convert amount source target rate = some t) :
    0 ≤ t := by
  unfold convert at h
  split_ifs at h
  · cases h
    exact ha
  · simp only [Option.bind_eq_bind, Option.bind_eq_some_iff, roundMinor,
      Option.map_eq_some_iff] at h
    obtain ⟨major, hmajor, q, hq, rfl⟩ := h
    apply Decimal.toInt_nonneg
    rw [Decimal.quantizeInt_neg hq, Decimal.mul_neg, Decimal.mul_neg, Decimal.div_neg hmajor, hr]
    simp [scale, ha]

end Ledger
