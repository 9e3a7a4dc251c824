import ModelScale.Line.Token
import ModelScale.Settings

/-!
# Records of the marker block

Values at scale 1 are stored in comments: a tag, the helper, for an offset its number among the
helper's triggers, and three coordinates.
-/

namespace ModelScale

open Text

/-- The words of a line comment. -/
def commentWords? (line : Text) : Option (List Text) :=
  match trimStart line with
  | '/' :: '/' :: t => some (words t)
  | _ => none

/-- A line comment with these words. -/
def commentOf (fields : List Text) : Text :=
  join [' '] (['/', '/'] :: fields)

/-- Three words that are numbers. -/
def tripleOf? (x y z : Text) : Option Triple :=
  if isNumeral x && isNumeral y && isNumeral z then some ⟨x, y, z⟩ else none

/-! ## 1. Rest positions -/

/-- A helper's rest position at scale 1. -/
structure StoredRest where
  helper : Text
  values : Triple
  deriving DecidableEq, Repr

namespace StoredRest

/-- The tag by which a stored rest position is recognised. -/
def tag : Text := "QCSCALE_BASEPOS".toList

/-- A line that stores a rest position. -/
def read? (line : Text) : Option StoredRest :=
  match commentWords? line with
  | some [head, helper, x, y, z] =>
    if head = tag then (tripleOf? x y z).map (⟨helper, ·⟩) else none
  | _ => none

/-- The line that stores a rest position. -/
def toLine (settings : Settings) (r : StoredRest) : Text :=
  commentOf ([settings.restTag, r.helper] ++ r.values.toList)

end StoredRest

/-! ## 2. Offsets -/

/-- An offset at scale 1, numbered from zero within its helper. -/
structure StoredOffset where
  helper : Text
  index : Nat
  values : Triple
  deriving DecidableEq, Repr

namespace StoredOffset

/-- The tag by which a stored offset is recognised. -/
def tag : Text := "QCSCALE_TRANSLATION".toList

/-- A line that stores an offset.  One whose number has too many digits is recognised, but cannot be
read. -/
def read? (line : Text) : Option (Except Fault StoredOffset) :=
  match commentWords? line with
  | some [head, helper, index, x, y, z] =>
    if head = tag && index.all isDigit then
      (tripleOf? x y z).map fun values => (readInteger index).map (⟨helper, ·, values⟩)
    else none
  | _ => none

/-- The line that stores an offset. -/
def toLine (settings : Settings) (r : StoredOffset) : Text :=
  commentOf ([settings.offsetTag, r.helper, Decimal.digits r.index] ++ r.values.toList)

end StoredOffset

end ModelScale
