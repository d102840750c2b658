import Mathlib.Algebra.Group.Nat.Defs
import Mathlib.Tactic.Common

/-! # Decimal Arithmetic with 28 Significant Digits

    Finite decimal numbers as sign, coefficient and exponent, with the
    operations of the general decimal arithmetic under its default context:
    28 significant digits, ties to even.

    * Exponents are not bounded, so no operation overflows or underflows.
    * An operation that would signal (a division by zero, a `quantize` that
      needs too many digits) returns `none`.
-/

/-- `(-1)^neg * coeff * 10^exp`. -/
structure Decimal where
  neg : Bool
  coeff : Nat
  exp : Int
  deriving DecidableEq, Repr

namespace Decimal

/-- The significant digits of the context. -/
def prec : Nat := 28

/-- The number of decimal digits of a coefficient; zero has one. -/
def digits (n : Nat) : Nat := (Nat.toDigits 10 n).length

/-- `n / d` rounded to the nearest integer, ties to even. -/
def roundHalfEven (n d : Nat) : Nat :=
  let q := n / d
  let r := n % d
  if d < 2 * r ∨ (2 * r = d ∧ q % 2 = 1) then q + 1 else q

/-- An integer. -/
def ofInt (i : Int) : Decimal := ⟨decide (i < 0), i.natAbs, 0⟩

/-- Round to the digits of the context. -/
def fix (a : Decimal) : Decimal :=
  let extra := digits a.coeff - prec
  if extra = 0 then a
  else
    let c := roundHalfEven a.coeff (10 ^ extra)
    -- rounding up may carry into one more digit
    if digits c ≤ prec then ⟨a.neg, c, a.exp + extra⟩ else ⟨a.neg, c / 10, a.exp + extra + 1⟩

/-- Multiplication. -/
def mul (a b : Decimal) : Decimal := fix ⟨a.neg ^^ b.neg, a.coeff * b.coeff, a.exp + b.exp⟩

/-- Drop trailing zeros of an exact quotient while its exponent is below the ideal one. -/
def strip : Nat → Nat → Int → Int → Nat × Int
  | 0, c, e, _ => (c, e)
  | n + 1, c, e, ideal => if e < ideal ∧ c % 10 = 0 then strip n (c / 10) (e + 1) ideal else (c, e)

/-- Division. -/
def div (a b : Decimal) : Option Decimal :=
  if b.coeff = 0 then none
  else if a.coeff = 0 then some ⟨a.neg ^^ b.neg, 0, a.exp - b.exp⟩
  else
    let shift : Int := (digits b.coeff : Int) - digits a.coeff + prec + 1
    let n := a.coeff * 10 ^ shift.toNat
    let d := b.coeff * 10 ^ (-shift).toNat
    let q := n / d
    if n % d = 0 then
      let (c, e) := strip (digits q) q (a.exp - b.exp - shift) (a.exp - b.exp)
      some (fix ⟨a.neg ^^ b.neg, c, e⟩)
    else
      -- a digit that is neither 0 nor 5 keeps the inexact quotient off the ties
      some (fix ⟨a.neg ^^ b.neg, if q % 5 = 0 then q + 1 else q, a.exp - b.exp - shift⟩)

/-- Round to an integer, ties to even; `none` if that takes more digits than
    the context has. -/
def quantizeInt (a : Decimal) : Option Decimal :=
  let c := if 0 ≤ a.exp then a.coeff * 10 ^ a.exp.toNat
    else roundHalfEven a.coeff (10 ^ (-a.exp).toNat)
  if digits c ≤ prec then some ⟨a.neg, c, 0⟩ else none

/-- Truncation to an integer. -/
def toInt (a : Decimal) : Int :=
  let c := if 0 ≤ a.exp then a.coeff * 10 ^ a.exp.toNat else a.coeff / 10 ^ (-a.exp).toNat
  if a.neg then -c else c

/-- The number in scientific notation where its exponent is positive or far
    below zero, and in plain notation elsewhere. -/
def str (a : Decimal) : String :=
  let ds := toString a.coeff
  let left : Int := a.exp + ds.length
  let dot : Int := if a.exp ≤ 0 ∧ -6 < left then left else 1
  let mantissa :=
    if dot ≤ 0 then "0." ++ String.ofList (List.replicate (-dot).toNat '0') ++ ds
    else if ds.length ≤ dot then ds ++ String.ofList (List.replicate (dot.toNat - ds.length) '0')
    else (ds.take dot.toNat).copy ++ "." ++ (ds.drop dot.toNat).copy
  let e := left - dot
  (if a.neg then "-" else "") ++ mantissa ++
    (if e = 0 then "" else "E" ++ (if 0 < e then "+" else "") ++ toString e)

example : (mul ⟨false, 100, -2⟩ ⟨false, 9200000000, -10⟩).str = "0.920000000000" := by decide
example : (div ⟨false, 1, 0⟩ ⟨false, 30000000000, -10⟩).map str =
    some "0.3333333333333333333333333333" := by decide

/-! ## Signs -/

@[simp] theorem ofInt_neg (i : Int) : (ofInt i).neg = decide (i < 0) := rfl

@[simp] theorem fix_neg (a : Decimal) : (fix a).neg = a.neg := by
  simp only [fix]
  split_ifs <;> rfl

@[simp] theorem mul_neg (a b : Decimal) : (mul a b).neg = (a.neg ^^ b.neg) := by
  simp [mul]

theorem div_neg {a b c : Decimal} (h : div a b = some c) : c.neg = (a.neg ^^ b.neg) := by
  simp only [div] at h
  split_ifs at h
  · cases h; rfl
  · cases h; simp
  · cases h; simp
  · cases h; simp

theorem quantizeInt_neg {a c : Decimal} (h : quantizeInt a = some c) : c.neg = a.neg := by
  simp only [quantizeInt] at h
  split_ifs at h <;> cases h <;> rfl

/-- A number without a minus sign is not below zero. -/
theorem toInt_nonneg {a : Decimal} (h : a.neg = false) : 0 ≤ a.toInt := by
  simp only [toInt, h]
  exact Int.natCast_nonneg _

end Decimal
