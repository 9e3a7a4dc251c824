import ModelScale.Decimal.Basic

/-!
# Decimal arithmetic

Results are exact where they fit and rounded otherwise.  A context fixes how many digits a result
may have; the exponent range is the same for all contexts.  `finish` brings an exact result into a
context: to the nearest decimal of that precision, with ties to the even digit, or to an overflow.
Every operation is an exact calculation followed by `finish`, save for `quantize`, which rounds to a
given exponent and fails rather than lose a leading digit.
-/

namespace ModelScale

/-! ## 1. Rounding -/

/-- Where a value exactly between two neighbours goes. -/
inductive Tie where
  /-- To the neighbour with an even last digit. -/
  | even
  /-- To the neighbour farther from zero. -/
  | away
  deriving DecidableEq, Repr

/-- The natural number nearest to `n / d`. -/
def roundQuotient (tie : Tie) (n d : Nat) : Nat :=
  let q := n / d
  let twice := 2 * (n % d)
  if twice < d then q
  else if d < twice then q + 1
  else match tie with
    | .even => q + q % 2
    | .away => q + 1

/-- A natural number without its last `k` decimal digits, rounded.  One that is shorter than that
is less than half a unit, and the power of ten need not be formed. -/
def dropDigits (tie : Tie) (n k : Nat) : Nat :=
  if Decimal.digitCount n < k then 0 else roundQuotient tie n (Decimal.powerOfTen k)

/-! ## 2. Contexts -/

/-- How many digits the results of a calculation may have. -/
structure Context where
  precision : Nat
  deriving DecidableEq, Repr

namespace Context

/-- The context of comparisons and of displayed values. -/
def standard : Context := ⟨28⟩

/-- The context in which literals are scaled. -/
def extended : Context := ⟨50⟩

/-- The largest exponent that a leading digit may have. -/
def maxExponent : Int := 999999

/-- The smallest exponent that a leading digit may have at full precision. -/
def minExponent : Int := -999999

/-- The smallest exponent of all: below `minExponent` digits are lost until this one is reached. -/
def tiniest (ctx : Context) : Int :=
  minExponent - (ctx.precision - 1)

/-- A nonzero decimal rounded to the precision.  Rounding up may carry into one more digit. -/
def shorten (ctx : Context) (d : Decimal) : Decimal :=
  let excess := Decimal.digitCount d.coefficient - ctx.precision
  if excess = 0 then d
  else
    let c := dropDigits .even d.coefficient excess
    if Decimal.digitCount c ≤ ctx.precision then ⟨d.negative, c, d.exponent + excess⟩
    else ⟨d.negative, c / 10, d.exponent + excess + 1⟩

/-- An exact result brought into the context: zeros keep an exponent in range, results below the
normal range are rounded at the smallest exponent, all others to the precision. -/
def finish (ctx : Context) (d : Decimal) : Except Fault Decimal :=
  if d.isZero then .ok { d with exponent := min maxExponent (max ctx.tiniest d.exponent) }
  else if maxExponent < d.adjusted then .error .overflow
  else if d.adjusted < minExponent then
    if d.exponent < ctx.tiniest then
      .ok ⟨d.negative, dropDigits .even d.coefficient (ctx.tiniest - d.exponent).toNat, ctx.tiniest⟩
    else .ok d
  else
    let r := ctx.shorten d
    if maxExponent < r.adjusted then .error .overflow else .ok r

/-! ## 3. Operations -/

/-- The absolute value. -/
def abs (ctx : Context) (d : Decimal) : Except Fault Decimal :=
  ctx.finish d.magnitude

/-- The product. -/
def mul (ctx : Context) (a b : Decimal) : Except Fault Decimal :=
  ctx.finish ⟨a.negative != b.negative, a.coefficient * b.coefficient, a.exponent + b.exponent⟩

/-- A coefficient relieved of trailing zeros, its exponent raised up to a bound. -/
def stripZeros (bound : Int) (coefficient : Nat) (exponent : Int) : Nat × Int :=
  if 0 < coefficient ∧ coefficient % 10 = 0 ∧ exponent < bound then
    stripZeros bound (coefficient / 10) (exponent + 1)
  else (coefficient, exponent)
termination_by coefficient
decreasing_by omega

/-- The quotient.  One that is exact has the difference of the exponents, or the nearest exponent to
it that can represent the quotient; one that is not is carried to one digit beyond the precision,
with a last digit that keeps it off every tie. -/
def div (ctx : Context) (a b : Decimal) : Except Fault Decimal :=
  let negative := a.negative != b.negative
  let ideal := a.exponent - b.exponent
  if b.isZero then .error (if a.isZero then .divisionUndefined else .divisionByZero)
  else if a.isZero then ctx.finish ⟨negative, 0, ideal⟩
  else
    let shift : Int :=
      Decimal.digitCount b.coefficient - Decimal.digitCount a.coefficient + ctx.precision + 1
    let n := a.coefficient * Decimal.powerOfTen shift.toNat
    let d := b.coefficient * Decimal.powerOfTen (-shift).toNat
    let q := n / d
    if n % d = 0 then
      let (c, e) := stripZeros ideal q (ideal - shift)
      ctx.finish ⟨negative, c, e⟩
    else ctx.finish ⟨negative, if q % 5 = 0 then q + 1 else q, ideal - shift⟩

/-- The exact sum of two decimals, at the smaller exponent. -/
def exactSum (a b : Decimal) : Decimal :=
  let e := min a.exponent b.exponent
  let signed (d : Decimal) : Int :=
    let c : Int := d.coefficient * Decimal.powerOfTen (d.exponent - e).toNat
    if d.negative then -c else c
  let s := signed a + signed b
  ⟨s < 0, s.natAbs, e⟩

/-- The part of a small summand that can still change the rounding of a sum.  A summand that lies
wholly below the digits of the other one is replaced by a unit in a place that does as well, so the
distance between the exponents is never written out. -/
def relevant (ctx : Context) (large small : Decimal) : Decimal :=
  let room : Int := Decimal.digitCount large.coefficient - ctx.precision - 1
  let place := large.exponent - 1 + min 0 room
  if small.adjusted < place then ⟨small.negative, 1, place⟩
  else small

/-- The sum. -/
def add (ctx : Context) (a b : Decimal) : Except Fault Decimal :=
  if a.isZero then ctx.finish b
  else if b.isZero then ctx.finish a
  else if a.exponent < b.exponent then ctx.finish (exactSum (ctx.relevant b a) b)
  else ctx.finish (exactSum a (ctx.relevant a b))

/-- The difference. -/
def sub (ctx : Context) (a b : Decimal) : Except Fault Decimal :=
  ctx.add a b.neg

/-- The decimal nearest to `d` with a given exponent.  A zero always fits; anything else must not
need more digits than the precision, nor be rounded up beyond the largest exponent. -/
def quantize (ctx : Context) (tie : Tie) (d : Decimal) (exponent : Int) : Except Fault Decimal :=
  let shift := d.exponent - exponent
  if d.isZero then .ok { d with exponent := exponent }
  else if (ctx.precision : Int) < Decimal.digitCount d.coefficient + shift then
    .error .invalidOperation
  else
    let c :=
      if 0 ≤ shift then d.coefficient * Decimal.powerOfTen shift.toNat
      else dropDigits tie d.coefficient (-shift).toNat
    let r : Decimal := ⟨d.negative, c, exponent⟩
    if ctx.precision < Decimal.digitCount c || maxExponent < r.adjusted then
      .error .invalidOperation
    else .ok r

end Context

end ModelScale
