import ModelScale.Qc.Eyeball
import ModelScale.Qc.ModelName
import ModelScale.Qc.Request

/-!
# Rescaling a model script

The scale directive covers meshes, bones and attachments; what it does not cover is scaled with
it.  A rescale sets the directive (`placeDirective`), multiplies the eyeballs by the relative scale
(`scaleEyeballs`) and, on demand, puts the scale into the model name (`setModelName`).
-/

namespace ModelScale

open Text

/-! ## 1. The directive -/

/-- How the directive came to its line. -/
inductive Placement where
  /-- An existing directive got a new argument. -/
  | replaced
  /-- A line was added. -/
  | inserted
  /-- A blank line gave way. -/
  | replacedBlank
  deriving DecidableEq, Repr

/-- Lines with a directive in force, how it was placed, and its index. -/
structure Placed where
  lines : List Text
  placement : Placement
  index : Nat
  deriving DecidableEq, Repr

/-- The first live line that is not blank. -/
def firstContent? (lines : List Text) : Option Nat :=
  (Comment.firstLive? (fun line => if isEmptyLine line then none else some ()) lines).map (·.1)

/-- Sets the scale.  The first live directive gets a new argument; without one, a directive goes
right above the first live line with content, on a blank line if there is one just before it, or to
the top of a script that holds nothing but comments. -/
def placeDirective (settings : Settings) (lines : List Text) (scale : Decimal) : Placed :=
  match firstDirective? lines with
  | some (i, directive) => ⟨lines.set i (directive.setArgument (compact scale)), .replaced, i⟩
  | none =>
    let line := settings.scaleKeyword ++ ' ' :: compact scale
    let i := (firstContent? lines).getD 0
    match lines[i - 1]? with
    | some above =>
      if 0 < i ∧ isEmptyLine above then ⟨lines.set (i - 1) line, .replacedBlank, i - 1⟩
      else ⟨lines.insertIdx i line, .inserted, i⟩
    | none => ⟨lines.insertIdx i line, .inserted, i⟩

/-! ## 2. Eyeballs -/

/-- An eyeball before and after scaling, with its line number. -/
structure EyeballEdit where
  line : Nat
  before : Eyeball
  after : Eyeball
  deriving DecidableEq, Repr

/-- An eyeball on a live line, as it is and as it becomes. -/
def scaledEyeball (settings : Settings) (factor : Quantity) (line? : Option Text) :
    Except Fault (Option (Eyeball × Eyeball)) :=
  match line?.bind Eyeball.read? with
  | none => .ok none
  | some e => do
    let after ← e.rescale factor settings.eyeballPlaces
    pure (some (e, after))

/-- Multiplies the eyeballs outside comments by a factor.  The changes are those that change the
text of their line. -/
def scaleEyeballs (settings : Settings) (lines : List Text) (factor : Quantity) :
    Except Fault (List Text × List EyeballEdit) := do
  let eyeballs ← (Comment.liveLines .code lines).mapM (scaledEyeball settings factor)
  let rows := lines.zip eyeballs
  let written := rows.map fun (line, eyeball?) => (eyeball?.map (·.2.toLine)).getD line
  let changes := rows.zipIdx.filterMap fun ((line, eyeball?), i) =>
    (eyeball?.filter fun (_, after) => after.toLine ≠ line).map fun (before, after) =>
      ⟨i + 1, before, after⟩
  pure (written, changes)

/-! ## 3. The model name -/

/-- The path of the model before and after, with the number of its line. -/
structure PathEdit where
  line : Nat
  old : Text
  new : Text
  deriving DecidableEq, Repr

/-- The rename changes the path. -/
def PathEdit.changes (r : PathEdit) : Bool :=
  r.old != r.new

/-- Puts the scale into the path of the first live line that names the model, if there is one. -/
def setModelName (settings : Settings) (lines : List Text) (scale : Quantity) :
    Except Fault (List Text × Option PathEdit) :=
  match Comment.firstLive? ModelName.read? lines with
  | none => .ok (lines, none)
  | some (i, model) => do
    let scale ← scale.value
    let path := ModelPath.withScale model.path scale settings.suffixLead
    let rename : PathEdit := ⟨i + 1, model.path, path⟩
    pure (if rename.changes then lines.set i (model.setPath path) else lines, some rename)

/-! ## 4. The whole script -/

/-- What a rescale of a model script did. -/
structure RescaledScript where
  lines : List Text
  placement : Placement
  /-- The number of the directive's line. -/
  directiveLine : Nat
  changes : List EyeballEdit
  rename : Option PathEdit
  deriving DecidableEq, Repr

/-- Carries out a request on the lines of a model script. -/
def rescaleScript (settings : Settings) (lines : List Text) (request : Request)
    (rename : Bool) : Except Fault RescaledScript := do
  let placed := placeDirective settings lines request.new
  let relative ← request.relative
  let (scaled, changes) ← scaleEyeballs settings placed.lines relative
  let (final, renamed) ←
    if rename then setModelName settings scaled request.new else pure (scaled, none)
  pure ⟨final, placed.placement, placed.index + 1, changes, renamed⟩

end ModelScale
