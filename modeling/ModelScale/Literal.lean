import ModelScale.Decimal.Context
import ModelScale.Decimal.Printer
import ModelScale.Decimal.Quantity

/-!
# Literals

The numbers of a script are texts, and scaling one gives a text again.  A scaled literal keeps the
number of fractional digits it was written with, unless the caller fixes another (`scaleLiteral`); a
literal brought back to scale 1 gets enough of them to lose nothing later (`normalizeLiteral`).  The
scale itself is shown in the shortest way (`compact`).
-/

namespace ModelScale

open Text

/-! ## 1. Scaling a literal -/

/-- The unit in the last of some fractional digits, as an exponent.  Units beyond the reach of the
arithmetic are refused, and those below its smallest exponent become that exponent. -/
def quantumExponent (places : Int) : Except Fault Int :=
  if 2 * (Context.maxExponent + Context.standard.precision) < places.natAbs then
    .error .invalidOperation
  else if Context.maxExponent < -places then .error .overflow
  else .ok (max Context.standard.tiniest (-places))

/-- A decimal times a factor, rounded to a unit with halves away from zero.  A zero loses its
sign. -/
def scaleDecimal (d factor : Decimal) (exponent : Int) : Except Fault Decimal := do
  let product ← Context.extended.mul d factor
  let rounded ← Context.extended.quantize .away product exponent
  pure (if rounded.isZero then rounded.magnitude else rounded)

/-- The number of fractional digits that a scaled literal gets: the one asked for, or as many as the
literal was written with. -/
def targetPlaces (literal : Text) : Option Int → Except Fault Int
  | some places => .ok places
  | none => (Decimal.read literal).map fun d => d.places

/-- A literal times a factor.  Where the literal had a minus sign and the result has none, a blank
stands in its column.  A negative number of fractional digits is of no use for writing a result. -/
def scaleLiteral (written : Text) (factor : Quantity) (places? : Option Int) :
    Except Fault Text := do
  let literal := trim written
  let places ← targetPlaces literal places?
  let exponent ← quantumExponent places
  let d ← Decimal.read literal
  let f ← factor.value
  let scaled ← scaleDecimal d f exponent
  if places < 0 then throw .negativePlaces
  let result := scaled.toPlaces places.toNat
  pure (if literal.head? = some '-' && !scaled.negative then ' ' :: result else result)

/-! ## 2. Showing a value -/

/-- A text without the trailing zeros of its fraction, and without a point that nothing follows. -/
def trimFraction (t : Text) : Text :=
  if t.contains '.' then
    ((t.reverse.dropWhile (· == '0')).dropWhile (· == '.')).reverse
  else t

/-- A number written in full with no superfluous digit: no trailing zeros, no dangling point, no
negative zero. -/
def compact (d : Decimal) : Text :=
  let t := trimFraction d.toPlain
  if t = ['-', '0'] || t.isEmpty then ['0'] else t

/-- A factor with at most three fractional digits. -/
def compactFactor (d : Decimal) : Except Fault Text :=
  (Context.standard.quantize .away d (-3)).map compact

/-! ## 3. Back to scale 1 -/

/-- The value that a literal authored at a previous scale has at scale 1, with at least
`leastPlaces` fractional digits. -/
def normalizeLiteral (literal : Text) (previous : Quantity) (leastPlaces : Int) :
    Except Fault Text := do
  let previous ← previous.value
  let text := trim literal
  let d ← Decimal.read text
  let places := max (d.places : Int) leastPlaces
  let factor ←
    if previous.sameValue .one then pure .one else Context.extended.div .one previous
  trim <$> scaleLiteral text factor (some places)

end ModelScale
