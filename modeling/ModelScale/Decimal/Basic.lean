import ModelScale.Decimal.Fault

/-!
# Decimals

A decimal is a sign, a coefficient and an exponent of ten.  Several decimals denote one number: the
exponent keeps how many fractional digits were written, and zero has a sign.  Comparison is by the
number denoted and never expands an exponent further than it has to.
-/

namespace ModelScale

/-- The number `± coefficient * 10 ^ exponent`, with the digits it was written with. -/
structure Decimal where
  negative : Bool
  coefficient : Nat
  exponent : Int
  deriving DecidableEq, Repr

namespace Decimal

/-! ## 1. Digits -/

/-- The decimal digits of a natural number; zero has one. -/
def digits (n : Nat) : Text :=
  Nat.toDigits 10 n

/-- How many decimal digits a natural number has; zero has one. -/
def digitCount (n : Nat) : Nat :=
  (digits n).length

/-- The exponent of the leading digit. -/
def adjusted (d : Decimal) : Int :=
  d.exponent + digitCount d.coefficient - 1

/-- A power of ten, which moves the digits of a number to the left. -/
def powerOfTen (k : Nat) : Nat :=
  Nat.pow 10 k

/-! ## 2. Sign and zero -/

/-- The decimal one. -/
def one : Decimal := ⟨false, 1, 0⟩

/-- The decimal denotes zero. -/
def isZero (d : Decimal) : Bool :=
  d.coefficient == 0

/-- The decimal with the opposite sign. -/
def neg (d : Decimal) : Decimal :=
  { d with negative := !d.negative }

/-- The decimal without its sign. -/
def magnitude (d : Decimal) : Decimal :=
  { d with negative := false }

/-- The fractional digits with which the decimal was written. -/
def places (d : Decimal) : Nat :=
  (-d.exponent).toNat

/-! ## 3. Comparison -/

/-- The order of two magnitudes.  Where their leading digits stand at different powers of ten these
decide, so a huge exponent is never written out. -/
def compareMagnitude (a b : Decimal) : Ordering :=
  if a.isZero || b.isZero then compare a.coefficient b.coefficient
  else if a.adjusted ≠ b.adjusted then compare a.adjusted b.adjusted
  else
    compare (a.coefficient * powerOfTen (a.exponent - b.exponent).toNat)
      (b.coefficient * powerOfTen (b.exponent - a.exponent).toNat)

/-- The order of the numbers that two decimals denote. -/
def compareValue (a b : Decimal) : Ordering :=
  match a.isZero, b.isZero with
  | true, true => .eq
  | true, false => if b.negative then .gt else .lt
  | false, true => if a.negative then .lt else .gt
  | false, false =>
    match a.negative, b.negative with
    | false, false => compareMagnitude a b
    | true, true => compareMagnitude b a
    | true, false => .lt
    | false, true => .gt

/-- The first decimal denotes the smaller number. -/
def isLess (a b : Decimal) : Bool :=
  compareValue a b == .lt

/-- The decimals denote one number. -/
def sameValue (a b : Decimal) : Bool :=
  compareValue a b == .eq

end Decimal

end ModelScale
