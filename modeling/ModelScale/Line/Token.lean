import ModelScale.Decimal.Numeral
import ModelScale.Text.Letter
import ModelScale.Text.Search

/-!
# Tokens of a line

The fields that lines are made of.  A *number* is a whole word that is a numeral.  A *name* is
either text between double quotation marks, blanks and all, or a word that does not begin like a
number; since a quotation mark may also be an ordinary part of a word, a text that starts with one
can be a name in two ways (`names`).
-/

namespace ModelScale

open Text

/-! ## 1. Numbers -/

/-- Three coordinates, as they are written. -/
structure Triple where
  x : Text
  y : Text
  z : Text
  deriving DecidableEq, Repr

namespace Triple

/-- The coordinates in order. -/
def toList (t : Triple) : List Text := [t.x, t.y, t.z]

/-- The coordinates with a space between each two. -/
def joined (t : Triple) : Text := join [' '] t.toList

end Triple

/-- A number at the start of a text, leading blanks skipped, and the text after it. -/
def takeNumber? (t : Text) : Option (Text × Text) :=
  let (word, rest) := nextWord t
  if isNumeral word then some (word, rest) else none

/-- Three numbers at the start of a text, and the text after them. -/
def takeTriple? (t : Text) : Option (Triple × Text) := do
  let (x, rest) ← takeNumber? t
  let (y, rest) ← takeNumber? rest
  let (z, rest) ← takeNumber? rest
  pure (⟨x, y, z⟩, rest)

/-- Three numbers at the end of a text, trailing blanks skipped, and the text before them. -/
def takeLastTriple? (t : Text) : Option (Text × Triple) :=
  let (z, before) := lastWord t
  let (y, before) := lastWord before
  let (x, before) := lastWord before
  if isNumeral x && isNumeral y && isNumeral z then some (before, ⟨x, y, z⟩) else none

/-! ## 2. Names -/

/-- The word begins with a digit, after a sign and a point at most. -/
def startsNumeric (word : Text) : Bool :=
  match (Numeral.takeSign word).2 with
  | '.' :: c :: _ => isDigit c
  | c :: _ => isDigit c
  | [] => false

/-- A blank comes first. -/
def startsBlank : Text → Bool
  | [] => false
  | c :: _ => isBlank c

/-- The text between quotation marks that opens a text, the marks included, and what follows. -/
def takeQuoted? : Text → Option (Text × Text)
  | '"' :: t => (splitFirst? '"' t).map fun (inside, rest) => ('"' :: inside ++ ['"'], rest)
  | _ => none

/-- The ways in which a name with a blank after it can start a text, leading blanks skipped: a
quotation first, then a word. -/
def names (t : Text) : List (Text × Text) :=
  let body := trimStart t
  let quoted := (takeQuoted? body).toList
  let word := body.span isInk
  let words := if word.1.isEmpty || startsNumeric word.1 then [] else [word]
  (quoted ++ words).filter fun (_, rest) => startsBlank rest

/-- A path at the start of a text: between quotation marks, or a word without any.  The marks are
not part of the path; whether there were any is told first. -/
def takePath? (t : Text) : Option (Bool × Text × Text) :=
  match t with
  | '"' :: r => (splitFirst? '"' r).map fun (path, rest) => (true, path, rest)
  | _ =>
    let (path, rest) := t.span fun c => isInk c && c != '"'
    if path.isEmpty then none else some (false, path, rest)

/-- A keyword with a blank after it at the start of a text, leading blanks skipped: the blanks, the
keyword and the blanks after it together, and the text after them. -/
def takeHead? (keyword t : Text) : Option (Text × Text) := do
  let (lead, body) := t.span isBlank
  let (word, rest) ← takeKeyword? keyword body
  let (gap, rest) := rest.span isBlank
  if gap.isEmpty then none else some (lead ++ word ++ gap, rest)

end ModelScale
