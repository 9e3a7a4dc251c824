import ModelScale.Qc.Rescale
import ModelScale.Report.Message
import ModelScale.Vrd.Rescale

/-!
# Summaries

What is said about a rescale: the references it does not reach, the changes to a model script line
by line, and the changes to a procedural-bones script with warnings about one that looks odd.
-/

namespace ModelScale.Summary

open Message

/-! ## 1. What a rescale does not reach -/

/-- The flex animations that a rescale leaves alone. -/
def flexes (references : List (Nat × Text)) : List Message :=
  warning ("$scale does not affect flex animation (.vta) files. " ++
      "These flexes will keep their original size:").toList ::
    references.map fun (line, name) => atLine line ++ styled .warning name

/-- The eyelid splits that a rescale leaves alone. -/
def eyelidSplits (splits : List (Nat × Text)) : List Message :=
  warning ("Eyelid 'split' values are not affected by $scale and can not be " ++
      "corrected automatically:").toList ::
    splits.map fun (line, value) => atLine line ++ styled .warning ("split ".toList ++ value)

/-! ## 2. Model scripts -/

/-- A field of an eyeball before and after, with its label in front. -/
def fieldChange (label : String) (old new : Text) : Message :=
  text (label.toList ++ ": ".toList) ++ valueChange old new

/-- The pupil before and after, when both lines have one. -/
def pupilChange (before after : Eyeball) : List Message :=
  match before.pupil, after.pupil with
  | some old, some new => [fieldChange "pupil" old new]
  | _, _ => []

/-- The scaled fields of an eyeball, and its angle. -/
def eyeballFields (before after : Eyeball) : List Message :=
  [fieldChange "pos" before.position.joined after.position.joined,
    fieldChange "diameter" before.diameter after.diameter] ++
  pupilChange before after ++
  [fieldChange "angle" before.angle after.angle,
    fieldChange "iris scale" before.irisScale after.irisScale]

/-- One eyeball before and after. -/
def eyeball (change : EyeballEdit) : Message :=
  atLine change.line ++ styled .key change.before.name ++
    (eyeballFields change.before change.after).flatMap fun field => text "  ".toList ++ field

/-- How the scale directive changed. -/
def directive (result : RescaledScript) (request : Request) : Message :=
  let verb := if result.placement = .replaced then "Updated " else "Added "
  text verb.toList ++ styled .key "$scale".toList ++
    text (" on line ".toList ++ Decimal.digits result.directiveLine ++ ": ".toList) ++
    valueChange (compact request.previous) request.shownNew

/-- How the eyeballs changed, if any did. -/
def eyeballs (changes : List EyeballEdit) (request : Request) :
    Except Fault (List Message) :=
  if changes.isEmpty then .ok []
  else do
    let factor ← request.shownRelative
    let heading := "Rescaled ".toList ++ Decimal.digits changes.length ++
      " eyeball(s) by x".toList ++ factor ++ ":".toList
    pure ([text heading] ++ changes.map eyeball ++
      [info "Eyeball values are written with 3 decimals.".toList])

/-- How the model name changed. -/
def rename (r : PathEdit) : Message :=
  if r.changes then
    text "Renamed ".toList ++ styled .key "$modelname".toList ++
      text (" on line ".toList ++ Decimal.digits r.line ++ ": ".toList) ++ valueChange r.old r.new
  else info ("$modelname already is ".toList ++ r.old)

/-- The changes to a model script. -/
def script (result : RescaledScript) (request : Request) : Except Fault (List Message) := do
  let eyeballs ← eyeballs result.changes request
  pure ([directive result request] ++ eyeballs ++ result.rename.toList.map rename)

/-! ## 3. Procedural-bones scripts -/

/-- A script without rest positions was not touched. -/
def leftUnchanged : Message :=
  warning ("No <basepos> lines were found, this does not look like a procedural bones file. " ++
    "It was left unchanged.").toList

/-- A rescaled script has no rest positions. -/
def withoutRest : Message :=
  warning "No <basepos> lines were found in the procedural bones file.".toList

/-- A marker block was appended. -/
def stored : Message :=
  info "Stored scale 1 values in a normalization block at the end of the file.".toList

/-- How many coordinates were written, and at which scale. -/
def rescaled (r : RescaledBones) : Message :=
  text "Rescaled ".toList ++ styled .key (Decimal.digits r.restCount) ++
    text " <basepos> and ".toList ++ styled .key (Decimal.digits r.nonzeroCount) ++
    text " <trigger> translation(s) to scale ".toList ++ styled .newValue (compact r.scale)

/-- Every offset is zero. -/
def onlyZero : Message :=
  warning ("All <trigger> translations are 0 0 0, there is nothing to scale there. " ++
    "Rotations are not affected by scale.").toList

/-- The changes to a procedural-bones script. -/
def bones (r : RescaledBones) : List Message :=
  if r.lacksRest && r.firstRun then [leftUnchanged]
  else
    (if r.lacksRest then [withoutRest] else []) ++
    (if r.markerWritten then [stored] else []) ++
    [rescaled r] ++
    (if r.onlyZeroOffsets then [onlyZero] else [])

end ModelScale.Summary
