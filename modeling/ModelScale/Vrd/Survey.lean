import ModelScale.Comment
import ModelScale.Vrd.Record
import ModelScale.Vrd.Shape

/-!
# Surveying a procedural-bones script

What each line of a script is.  Records of a marker block are recognised first, since they are
comments, and leave the comment region as it was.  Then inert lines fall out, and the live shapes
are tried in order (`classify`).  A record that cannot be read is a shape of its own, so that the
fault comes up in its place among the lines.

A survey tells for each rest position and each offset which helper it belongs to, namely the
one named last, and numbers the offsets of every helper, over all of its sections.  Capturing
values and writing them back both follow the same survey.
-/

namespace ModelScale

/-! ## 1. Shapes -/

/-- What a line can be recognised as. -/
inductive VrdShape where
  | helper (name : Text)
  | rest (line : TripleLine)
  | offset (line : TripleLine)
  | storedRest (record : StoredRest)
  | storedOffset (record : StoredOffset)
  /-- A record that cannot be read. -/
  | unreadable (fault : Fault)
  deriving DecidableEq, Repr

namespace VrdShape

/-- A record of a marker block. -/
def record? (line : Text) : Option VrdShape :=
  (StoredRest.read? line).map storedRest <|>
    (StoredOffset.read? line).map fun
      | .ok record => storedOffset record
      | .error fault => unreadable fault

/-- A shape that a live line can have. -/
def live? (line : Text) : Option VrdShape :=
  (readHelper? line).map helper <|> (TripleLine.readRest? line).map rest <|>
    (TripleLine.readOffset? line).map offset

end VrdShape

/-- The shape of a line that begins in a region, and the region at its end. -/
def classify (start : Region) (line : Text) : Option VrdShape × Region :=
  match VrdShape.record? line with
  | some shape => (some shape, start)
  | none =>
    (if Comment.inert start line then none else VrdShape.live? line, Comment.advance start line)

/-- The shapes of all lines. -/
def classifyAll (start : Region) : List Text → List (Option VrdShape)
  | [] => []
  | line :: rest => (classify start line).1 :: classifyAll (classify start line).2 rest

/-! ## 2. Sites -/

/-- What a line is to a rescale. -/
inductive Site where
  /-- A line without coordinates of its own. -/
  | other
  /-- A rest position, with its helper. -/
  | rest (owner : Option Text) (line : TripleLine)
  /-- An offset, with its helper and its number among the helper's offsets. -/
  | offset (owner : Option Text) (ordinal : Nat) (line : TripleLine)
  /-- A record that cannot be read. -/
  | unreadable (fault : Fault)
  deriving DecidableEq, Repr

/-- The sites of classified lines.  `owner` is the helper named last, and `earlier` holds the helper
of every offset so far. -/
def sitesFrom (owner : Option Text) (earlier : List Text) : List (Option VrdShape) → List Site
  | [] => []
  | some (.helper name) :: rest => .other :: sitesFrom (some name) earlier rest
  | some (.rest line) :: rest => .rest owner line :: sitesFrom owner earlier rest
  | some (.offset line) :: rest =>
    .offset owner ((owner.map earlier.count).getD 0) line ::
      sitesFrom owner (owner.toList ++ earlier) rest
  | some (.unreadable fault) :: rest => .unreadable fault :: sitesFrom owner earlier rest
  | _ :: rest => .other :: sitesFrom owner earlier rest

/-- The sites of the lines of a script. -/
def survey (lines : List Text) : List Site :=
  sitesFrom none [] (classifyAll .code lines)

namespace Site

/-- The line holds a rest position. -/
def isRest : Site → Bool
  | rest _ _ => true
  | _ => false

/-- The line holds an offset. -/
def isOffset : Site → Bool
  | offset _ _ _ => true
  | _ => false

end Site

@[simp] theorem classifyAll_length (start : Region) (lines : List Text) :
    (classifyAll start lines).length = lines.length := by
  induction lines generalizing start with
  | nil => rfl
  | cons line rest ih => simp [classifyAll, ih]

@[simp] theorem sitesFrom_length (owner : Option Text) (earlier : List Text)
    (shapes : List (Option VrdShape)) :
    (sitesFrom owner earlier shapes).length = shapes.length := by
  induction shapes generalizing owner earlier with
  | nil => rfl
  | cons shape rest ih => rcases shape with _ | (_ | _ | _ | _ | _ | _) <;> simp [sitesFrom, ih]

/-- There is one site for each line. -/
@[simp] theorem survey_length (lines : List Text) : (survey lines).length = lines.length := by
  simp [survey]

end ModelScale
