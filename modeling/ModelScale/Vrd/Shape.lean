import ModelScale.Line.Token

/-!
# Live lines of a procedural-bones script

A script is a sequence of helpers.  A helper's section opens with its name; in it one line holds the
rest position and others hold triggers, each with an offset as its last three numbers.  The
numbers are kept as they are written, and the text around them is left alone.
-/

namespace ModelScale

open Text

/-- A line that holds three coordinates in the midst of other text. -/
structure TripleLine where
  before : Text
  values : Triple
  after : Text
  deriving DecidableEq, Repr

namespace TripleLine

/-! ## 1. Rest positions -/

/-- The tag of a rest position. -/
def restTag : Text := "<basepos>".toList

/-- Three numbers right after a tag, blanks skipped, with nothing else but a rest of line. -/
def readAfterTag? (tag t : Text) : Option TripleLine := do
  let gap := t.takeWhile isBlank
  let (values, rest) ← takeTriple? t
  let after ← tailOfLine? rest
  pure ⟨tag ++ gap, values, after⟩

/-- A line that holds a rest position: the first tag on it that three numbers follow. -/
def readRest? : Text → Option TripleLine
  | [] => none
  | c :: t =>
    ((takeKeyword? restTag (c :: t)).bind fun (tag, rest) => readAfterTag? tag rest) <|>
      if c = '\n' then none
      else (readRest? t).map fun l => { l with before := c :: l.before }

/-! ## 2. Offsets -/

/-- The tag of a trigger. -/
def triggerTag : Text := "<trigger>".toList

/-- A line that holds a trigger: its last three words are numbers, and the text before them, which
is on one line, holds the tag. -/
def readOffset? (line : Text) : Option TripleLine := do
  let (rest, values) ← takeLastTriple? line
  let before := trimEnd rest
  if !before.contains '\n' && containsKeyword triggerTag before then
    pure ⟨before, values, trailingBlanks line⟩
  else none

/-! ## 3. Writing -/

/-- The line with other coordinates, one space before them and between each two. -/
def withValues (l : TripleLine) (values : Triple) : Text :=
  trimEnd l.before ++ ' ' :: values.joined ++ l.after

end TripleLine

/-! ## 4. Helpers -/

/-- The tag that opens a helper's section. -/
def helperTag : Text := "<helper>".toList

/-- The name of the helper whose section a line opens. -/
def readHelper? (line : Text) : Option Text := do
  let (_, rest) ← takeHead? helperTag line
  let (name, _) := nextWord rest
  if name.isEmpty then none else some name

end ModelScale
