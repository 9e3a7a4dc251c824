import ModelScale.Decimal.Basic
import ModelScale.Text.Digit

/-!
# Numerals

The written form of a decimal: an optional sign, digits with an optional point, and an optional
exponent.  At least one digit stands before or after the point; the digits may be of any script.
One grammar serves the fields of a line, which must be numerals as they stand, and numbers that a
caller gives as text, in which blanks around and underscores anywhere are passed over.  A number
whose exponent is out of all reach is refused when it is read.
-/

namespace ModelScale

/-- The parts of a numeral. -/
structure Numeral where
  negative : Bool
  /-- The digits before the point. -/
  whole : Text
  /-- The digits after the point. -/
  fraction : Text
  /-- The power of ten written at the end, zero when there is none. -/
  power : Int
  deriving DecidableEq, Repr

namespace Numeral

open Text

/-! ## 1. Reading -/

/-- A sign at the start of a text, and what follows it. -/
def takeSign : Text → Bool × Text
  | '-' :: t => (true, t)
  | '+' :: t => (false, t)
  | t => (false, t)

/-- The exponent part: nothing, or an `e` of either case, an optional sign and digits. -/
def power? : Text → Option Int
  | [] => some 0
  | e :: t =>
    let (negative, digits) := takeSign t
    if (e == 'e' || e == 'E') && !digits.isEmpty && digits.all isDigit then
      some (if negative then -(digitsValue digits : Int) else digitsValue digits)
    else none

/-- The parts of a text that is a numeral from end to end. -/
def parse? (t : Text) : Option Numeral :=
  let (negative, body) := takeSign t
  let (whole, rest) := body.span isDigit
  let (fraction, rest) :=
    match rest with
    | '.' :: r => r.span isDigit
    | r => ([], r)
  if whole.isEmpty && fraction.isEmpty then none
  else (power? rest).map fun power => ⟨negative, whole, fraction, power⟩

/-- The decimal that a numeral writes. -/
def toDecimal (n : Numeral) : Decimal :=
  ⟨n.negative, digitsValue (n.whole ++ n.fraction), n.power - n.fraction.length⟩

end Numeral

/-- The text is a numeral from end to end. -/
def isNumeral (t : Text) : Bool :=
  (Numeral.parse? t).isSome

namespace Decimal

open Text

/-! ## 2. Numbers given as text -/

/-- The names of infinity and of not-a-number, which may carry a payload of digits. -/
def isSpecialName (t : Text) : Bool :=
  let name := (Numeral.takeSign t).2.map Char.toLower
  name == "inf".toList || name == "infinity".toList ||
    ("nan".toList.isPrefixOf name && (name.drop 3).all isDigit) ||
    ("snan".toList.isPrefixOf name && (name.drop 4).all isDigit)

/-- The largest power of ten that the leading digit of a number given as text may stand for. -/
def greatestAdjusted : Int := 999999999999999999

/-- The smallest exponent that a number given as text may have. -/
def leastExponent : Int := -1999999999999999997

/-- The exponent of a decimal is within reach. -/
def inReach (d : Decimal) : Bool :=
  d.adjusted ≤ greatestAdjusted && leastExponent ≤ d.exponent

/-- The decimal that a text gives.  Blanks around it and underscores anywhere are passed over; a
fault shows the whole text. -/
def read (t : Text) : Except Fault Decimal :=
  let written := (trim t).filter (· != '_')
  match Numeral.parse? written with
  | some n => if n.toDecimal.inReach then .ok n.toDecimal else .error (.notANumber t)
  | none => .error (if isSpecialName written then .notFinite t else .notANumber t)

/-- A text gives a decimal exactly when, once trimmed and rid of underscores, it is a numeral whose
exponent is within reach. -/
theorem read_eq_ok_iff {t : Text} {d : Decimal} :
    read t = .ok d ↔
      ∃ n, Numeral.parse? ((trim t).filter (· != '_')) = some n ∧ n.toDecimal.inReach ∧
        n.toDecimal = d := by
  simp only [read]
  split
  · split <;> simp_all
  · simp_all

end Decimal

/-! ## 3. Integers -/

/-- The number that some digits write, unless there are too many of them. -/
def readInteger (digits : Text) : Except Fault Nat :=
  if digitLimit < digits.length then .error (.tooManyDigits digits.length)
  else .ok (Text.digitsValue digits)

end ModelScale
