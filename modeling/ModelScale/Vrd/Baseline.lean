import ModelScale.Literal
import ModelScale.Roster
import ModelScale.Vrd.Survey

/-!
# Baselines

A baseline holds the coordinates that a script has at scale 1: a rest position for each helper that
has one, and the offsets of each helper in the order of its triggers.  It is captured from the
live lines of a script once, stored at the end of the script as a marker block, and read back from
there ever after.
-/

namespace ModelScale

open Text

/-! ## 1. The type -/

/-- Coordinates at scale 1, by helper. -/
structure Baseline where
  rest : Roster Text Triple
  offsets : Roster Text (List Triple)
  deriving Repr

namespace Baseline

instance : EmptyCollection Baseline := ⟨⟨∅, ∅⟩⟩

/-- Something is stored for the helper. -/
def contains (b : Baseline) (helper : Text) : Bool :=
  b.rest.contains helper || b.offsets.contains helper

/-- The offsets of a helper. -/
def sequence (b : Baseline) (helper : Text) : List Triple :=
  (b.offsets.get? helper).getD []

/-- The number of offsets of all helpers together. -/
def offsetCount (b : Baseline) : Nat :=
  (b.offsets.entries.flatMap (·.2)).length

/-- The baseline with a rest position. -/
def addRest (b : Baseline) (helper : Text) (values : Triple) : Baseline :=
  { b with rest := b.rest.put helper values }

/-- The baseline with one more offset of a helper. -/
def addOffset (b : Baseline) (helper : Text) (values : Triple) : Baseline :=
  { b with offsets := b.offsets.put helper (b.sequence helper ++ [values]) }

/-! ## 2. Capturing -/

/-- Coordinates brought back to scale 1. -/
def normalizeTriple (settings : Settings) (previous : Quantity) (t : Triple) :
    Except Fault Triple := do
  let x ← normalizeLiteral t.x previous settings.normalizedPlaces
  let y ← normalizeLiteral t.y previous settings.normalizedPlaces
  let z ← normalizeLiteral t.z previous settings.normalizedPlaces
  pure ⟨x, y, z⟩

/-- The baseline with what one site adds.  Coordinates outside any helper add nothing, and a record
that cannot be read ends the capture. -/
def captureSite (settings : Settings) (previous : Quantity) (b : Baseline) :
    Site → Except Fault Baseline
  | .rest (some helper) line => b.addRest helper <$> normalizeTriple settings previous line.values
  | .offset (some helper) _ line =>
    b.addOffset helper <$> normalizeTriple settings previous line.values
  | .unreadable fault => .error fault
  | _ => .ok b

/-- The baseline of a script that was authored at a previous scale. -/
def capture (settings : Settings) (lines : List Text) (previous : Quantity) :
    Except Fault Baseline :=
  (survey lines).foldlM (captureSite settings previous) ∅

/-! ## 3. The marker block -/

/-- The lines of the marker block that stores a baseline. -/
def markerBlock (settings : Settings) (b : Baseline) : List Text :=
  [settings.sentinel, settings.markerNote] ++
    b.rest.entries.map (fun (helper, values) => StoredRest.toLine settings ⟨helper, values⟩) ++
    [[]] ++
    b.offsets.entries.flatMap fun (helper, sequence) =>
      sequence.zipIdx.map fun (values, i) => StoredOffset.toLine settings ⟨helper, i, values⟩

/-- A line comment that opens a marker block. -/
def isSentinel (settings : Settings) (line : Text) : Bool :=
  Comment.lineOpen.isPrefixOf (trimStart line) && occurs settings.sentinelTag line

/-- The script has a marker block. -/
def hasMarker (settings : Settings) (lines : List Text) : Bool :=
  lines.any (isSentinel settings)

end Baseline

/-! ## 4. Reading a marker block -/

/-- How a marker block fails its script: a trigger has no record, or, when no helper is named, there
are no records at all. -/
structure Mismatch where
  helper : Option Text := none
  /-- The number of the trigger within its helper. -/
  index : Option Int := none
  line : Option Int := none
  deriving DecidableEq, Repr

namespace Mismatch

/-- An integer with a minus sign if it is negative. -/
def integer (n : Int) : Text :=
  (if n < 0 then ['-'] else []) ++ Decimal.digits n.natAbs

/-- What is said about a mismatch. -/
def message (m : Mismatch) : Text :=
  (m.line.map fun n => "line ".toList ++ integer n ++ ": ".toList).getD [] ++
    match m.helper with
    | none => "the normalization marker block holds no records".toList
    | some helper =>
      "<trigger> #".toList ++ (m.index.map integer).getD "None".toList ++ " of helper '".toList ++
        helper ++ "' has no matching record in the normalization marker block".toList

end Mismatch

/-- Why the values of a script could not be had: one of its numbers gave out, or its marker block
does not fit. -/
inductive BonesError where
  | fault (fault : Fault)
  | mismatch (mismatch : Mismatch)
  deriving DecidableEq, Repr

namespace Baseline

/-- The numbered offsets of each helper, as the records of a script give them. -/
abbrev Numbered : Type := Roster Text (Roster Nat Triple)

/-- The offset records gathered by helper and number; later ones replace earlier ones. -/
def gather (records : List StoredOffset) : Numbered :=
  records.foldl (fun n r => n.put r.helper (((n.get? r.helper).getD ∅).put r.index r.values)) ∅

/-- The offsets of one helper in order.  With `n` of them the numbers from 0 to `n - 1` must
all be there. -/
def sequenceOf (helper : Text) (numbered : Roster Nat Triple) : Except Mismatch (List Triple) :=
  (List.range numbered.entries.length).mapM fun i =>
    match numbered.get? i with
    | some values => .ok values
    | none => .error { helper, index := some i }

/-- The offsets of all helpers in order. -/
def sequences (numbered : Numbered) : Except Mismatch (Roster Text (List Triple)) :=
  Roster.ofList <$> numbered.entries.mapM fun (helper, records) =>
    (helper, ·) <$> sequenceOf helper records

/-- The rest positions that the records of a script give. -/
def restOf (lines : List Text) : Roster Text Triple :=
  Roster.ofList ((lines.filterMap StoredRest.read?).map fun r => (r.helper, r.values))

/-- The offset records of a script, unless one of them cannot be read. -/
def offsetRecords (lines : List Text) : Except Fault (List StoredOffset) :=
  (lines.filterMap StoredOffset.read?).mapM id

/-- The baseline stored in a script, or nothing if it has no marker block.  Records count wherever
they stand. -/
def stored (settings : Settings) (lines : List Text) : Except BonesError (Option Baseline) := do
  if !hasMarker settings lines then return none
  let records ← (offsetRecords lines).mapError .fault
  let offsets ← (sequences (gather records)).mapError .mismatch
  let b : Baseline := ⟨restOf lines, offsets⟩
  if b.rest.isEmpty && b.offsets.isEmpty then
    let line := (lines.findIdx? (isSentinel settings)).map fun i => (i + 1 : Int)
    throw (.mismatch { line })
  return some b

end Baseline

end ModelScale
