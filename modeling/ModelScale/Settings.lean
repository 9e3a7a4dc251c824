import ModelScale.Decimal.Basic

/-!
# Settings

The words that are written into scripts and the tolerances of a run, gathered in one value with the
usual ones as defaults.  What is recognised in a script does not depend on them.
-/

namespace ModelScale

/-- The tunable parts of a run. -/
structure Settings where
  /-- The keyword of a scale directive that is newly placed. -/
  scaleKeyword : Text := "$scale".toList
  /-- The first line of a marker block. -/
  sentinel : Text := "// QCSCALE_NORMALIZATION_DATA".toList
  /-- What a comment must hold to count as the first line of a marker block. -/
  sentinelTag : Text := "QCSCALE_NORMALIZATION_DATA".toList
  /-- The second line of a marker block. -/
  markerNote : Text :=
    ("// Scale 1 values of <basepos> and <trigger> translations. " ++
      "Delete this block to capture new values.").toList
  /-- The tag under which a rest position is stored. -/
  restTag : Text := "QCSCALE_BASEPOS".toList
  /-- The tag under which an offset is stored. -/
  offsetTag : Text := "QCSCALE_TRANSLATION".toList
  /-- What stands before the scale in the name of a scaled model. -/
  suffixLead : Text := "_x".toList
  /-- The fractional digits of scaled eyeball fields. -/
  eyeballPlaces : Int := 3
  /-- The least fractional digits of a value at scale 1. -/
  normalizedPlaces : Int := 6
  /-- A magnitude below this one counts as zero. -/
  zeroBoundary : Decimal := ⟨false, 1, -3⟩
  /-- Scales below this magnitude make rounding visible. -/
  roundingAdvisory : Decimal := ⟨false, 25, -3⟩
  deriving Repr

end ModelScale
