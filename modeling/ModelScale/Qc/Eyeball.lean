import ModelScale.Line.Token
import ModelScale.Literal

/-!
# Eyeballs

An eyeball line gives a name, a bone, a position, a material, a diameter, an angle, possibly a pupil
size, an iris material and an iris scale; the keyword in front may be missing.  A quotation mark can
start a quoted name or an ordinary word, so a line can be read in several ways, and the first that
accounts for the whole line is taken: with the keyword before without it, quotations before words,
earlier names first.
-/

namespace ModelScale

open Text

/-- An eyeball line, every field as it is written. -/
structure Eyeball where
  /-- Leading blanks, with the keyword and the blanks after it if it is there. -/
  lead : Text
  name : Text
  bone : Text
  position : Triple
  material : Text
  diameter : Text
  angle : Text
  pupil : Option Text
  irisMaterial : Text
  irisScale : Text
  /-- What follows the last field. -/
  trail : Text
  deriving DecidableEq, Repr

namespace Eyeball

/-! ## 1. Reading -/

/-- The keyword of the line. -/
def spelling : Text := "eyeball".toList

/-- The end of the line: the iris material, the iris scale and the rest. -/
def readIris? (t : Text) : Option (Text × Text × Text) :=
  (names t).findSome? fun (material, rest) => do
    let (scale, rest) ← takeNumber? rest
    let trail ← tailOfLine? rest
    pure (material, scale, trail)

/-- The fields after the lead. -/
def readFields? (lead t : Text) : Option Eyeball :=
  (names t).findSome? fun (name, rest) =>
    (names rest).findSome? fun (bone, rest) => do
      let (position, rest) ← takeTriple? rest
      (names rest).findSome? fun (material, rest) => do
        let (diameter, rest) ← takeNumber? rest
        let (angle, rest) ← takeNumber? rest
        let (pupil, rest) :=
          match takeNumber? rest with
          | some (pupil, rest) => (some pupil, rest)
          | none => (none, rest)
        let (irisMaterial, irisScale, trail) ← readIris? rest
        pure ⟨lead, name, bone, position, material, diameter, angle, pupil, irisMaterial, irisScale,
          trail⟩

/-- A line that is an eyeball. -/
def read? (line : Text) : Option Eyeball :=
  ((takeHead? spelling line).bind fun (lead, rest) => readFields? lead rest) <|>
    readFields? (line.takeWhile isBlank) (trimStart line)

/-! ## 2. Writing -/

/-- The fields in the order of the line. -/
def tokens (e : Eyeball) : List Text :=
  [e.name, e.bone] ++ e.position.toList ++ [e.material, e.diameter, e.angle] ++ e.pupil.toList ++
    [e.irisMaterial, e.irisScale]

/-- The line with one space between fields and nothing blank at its end. -/
def toLine (e : Eyeball) : Text :=
  trimEnd (e.lead ++ join [' '] e.tokens ++ e.trail)

/-! ## 3. Scaling -/

/-- The eyeball with every length multiplied by a factor.  The angle is a rotation and stays. -/
def rescale (e : Eyeball) (factor : Quantity) (places : Int) : Except Fault Eyeball := do
  let scaled (t : Text) : Except Fault Text := trim <$> scaleLiteral t factor (some places)
  let x ← scaled e.position.x
  let y ← scaled e.position.y
  let z ← scaled e.position.z
  let diameter ← scaled e.diameter
  let pupil ← e.pupil.mapM scaled
  let irisScale ← scaled e.irisScale
  pure { e with position := ⟨x, y, z⟩, diameter, pupil, irisScale }

end Eyeball

end ModelScale
