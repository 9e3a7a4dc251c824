import ModelScale.Vrd.Baseline

/-!
# Rescaling a procedural-bones script

The coordinates of a script do not say at which scale they were authored, so a rescale never builds
on them twice.  The first rescale captures a baseline, taking the previous scale into account, and
appends it as a marker block; every later one reads the baseline back and has no use for the
coordinates that stand in the script (`rescaleBones`).  Either way the script is written from the
baseline and the new scale alone (`writeBones`).
-/

namespace ModelScale

open Text

/-! ## 1. Results -/

/-- What a rescale did. -/
structure RescaledBones where
  lines : List Text
  scale : Decimal
  /-- The baseline was captured by this rescale. -/
  firstRun : Bool
  /-- A marker block was appended. -/
  markerWritten : Bool
  /-- Live rest positions in the script. -/
  restCount : Nat
  /-- Live offsets in the script. -/
  offsetCount : Nat
  /-- Live offsets that are not zero. -/
  nonzeroCount : Nat
  baseline : Option Baseline
  deriving Repr

namespace RescaledBones

/-- No rest position was found. -/
def lacksRest (r : RescaledBones) : Bool :=
  r.restCount == 0

/-- There are offsets, and all of them are zero. -/
def onlyZeroOffsets (r : RescaledBones) : Bool :=
  0 < r.offsetCount && r.nonzeroCount == 0

end RescaledBones

/-! ## 2. Writing from a baseline -/

/-- Coordinates times a scale, each with the digits it has. -/
def scaleTriple (t : Triple) (scale : Decimal) : Except Fault Triple := do
  let x ← scaleLiteral t.x scale none
  let y ← scaleLiteral t.y scale none
  let z ← scaleLiteral t.z scale none
  pure ⟨x, y, z⟩

/-- All three coordinates are zero. -/
def tripleIsZero (t : Triple) : Except Fault Bool :=
  Quantity.allZero (t.toList.map .written)

/-- A line as it is written, and whether it holds an offset that is not zero. -/
structure WrittenLine where
  text : Text
  nonzero : Bool
  deriving DecidableEq, Repr

/-- One line written from the baseline.  Lines without coordinates, of helpers that the baseline
does not know, and with a stored offset of zero are copied. -/
def writeSite (b : Baseline) (scale : Decimal) (number : Nat) (text : Text) :
    Site → Except BonesError WrittenLine
  | .other => .ok ⟨text, false⟩
  | .unreadable fault => .error (.fault fault)
  | .rest owner line =>
    match owner.bind b.rest.get? with
    | none => .ok ⟨text, false⟩
    | some values => do
      let scaled ← (scaleTriple values scale).mapError .fault
      pure ⟨line.withValues scaled, false⟩
  | .offset owner ordinal line =>
    match owner.filter b.contains with
    | none => do
      let zero ← (tripleIsZero line.values).mapError .fault
      pure ⟨text, !zero⟩
    | some helper =>
      match (b.sequence helper)[ordinal]? with
      | none => .error (.mismatch { helper, index := some ordinal, line := some number })
      | some values => do
        let zero ← (tripleIsZero values).mapError .fault
        if zero then pure ⟨text, false⟩
        else do
          let scaled ← (scaleTriple values scale).mapError .fault
          pure ⟨line.withValues scaled, true⟩

/-- The lines of a script written from a baseline, one by one; `number` counts the lines. -/
def writeSites (b : Baseline) (scale : Decimal) (number : Nat) :
    List (Text × Site) → Except BonesError (List WrittenLine)
  | [] => .ok []
  | (text, site) :: rest => do
    let line ← writeSite b scale number text site
    let others ← writeSites b scale (number + 1) rest
    pure (line :: others)

/-- A script written from a baseline at a scale. -/
def writeBones (lines : List Text) (b : Baseline) (scale : Quantity) :
    Except BonesError RescaledBones := do
  let scale ← scale.value.mapError .fault
  let sites := survey lines
  let written ← writeSites b scale 1 (lines.zip sites)
  pure {
    lines := written.map (·.text)
    scale
    firstRun := false
    markerWritten := false
    restCount := sites.countP Site.isRest
    offsetCount := sites.countP Site.isOffset
    nonzeroCount := written.countP (·.nonzero)
    baseline := some b }

/-! ## 3. Rescaling -/

/-- Lines with a marker block at the end, set off by a blank line. -/
def appendMarker (settings : Settings) (lines : List Text) (b : Baseline) : List Text :=
  let gap := if (lines.getLast?.map isEmptyLine).getD true then [] else [[]]
  lines ++ gap ++ b.markerBlock settings

/-- Rescales a script.  With a marker block its records are the only source of values, and the
previous scale is not used.  Without one the baseline is captured and a marker block appended,
unless the script has no rest position. -/
def rescaleBones (settings : Settings) (lines : List Text) (new previous : Quantity) :
    Except BonesError RescaledBones := do
  match ← Baseline.stored settings lines with
  | some b => writeBones lines b new
  | none =>
    let b ← (Baseline.capture settings lines previous).mapError .fault
    if b.rest.isEmpty then
      let r ← writeBones lines ∅ new
      pure { r with firstRun := true, baseline := none }
    else
      let r ← writeBones lines b new
      pure { r with
        lines := appendMarker settings r.lines b
        firstRun := true
        markerWritten := true }

end ModelScale
