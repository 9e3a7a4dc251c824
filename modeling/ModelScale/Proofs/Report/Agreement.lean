import ModelScale.Proofs.Vrd.Gaps
import ModelScale.Proofs.Vrd.Restored
import ModelScale.Report.Summary

/-
# What the report of a first rescale says

A first rescale captures the rest positions of the helpers, and without any it writes no marker
block and leaves the script as it is.  The report does not ask for the marker block: it counts the
live rest positions, also those in front of the first helper line, which belong to no helper and
are never captured.  So the two can differ, and this file says exactly where:

* `firstRescale_of_rescaleBones`: a marker block is written if some helper has a rest position;
* `saysUnchanged_bones`: a script is reported as left unchanged if it has no rest position at all;
* `report_agrees_iff`: the report agrees with what was done unless all the rest positions stand in
  front of the first helper line (`report_agrees_iff_orphan`).
-/

namespace ModelScale

open Text Baseline

/-! ## 1. Reports -/

/-- The way in which messages are shown, with colours or without. -/
def Message.rendering (colours : Bool) : Message → Text :=
  if colours then Message.coloured else Message.plain

theorem Message.rendering_append (colours : Bool) (m n : Message) :
    Message.rendering colours (m ++ n) =
      Message.rendering colours m ++ Message.rendering colours n := by
  cases colours <;> exact List.flatMap_append

/-- A report shows that the script was left unchanged, and no summary of a rescale. -/
def SaysUnchanged (colours : Bool) (report : List Message) : Prop :=
  (∃ m ∈ report, "left unchanged".toList <:+: Message.rendering colours m) ∧
    ∀ m ∈ report, ¬ "Rescaled".toList <:+: Message.rendering colours m

theorem rescaled_shown (colours : Bool) (r : RescaledBones) :
    "Rescaled".toList <:+: Message.rendering colours (Summary.rescaled r) := by
  have hhead : Message.rendering colours (Message.text "Rescaled ".toList) =
      "Rescaled".toList ++ [' '] := by
    cases colours <;> rfl
  unfold Summary.rescaled
  simp only [Message.rendering_append, hhead, List.append_assoc]
  exact (List.prefix_append _ _).isInfix

/-- **A script is reported as left unchanged** after a first rescale that counted no rest position,
and only then. -/
theorem saysUnchanged_bones (colours : Bool) (r : RescaledBones) :
    SaysUnchanged colours (Summary.bones r) ↔ r.restCount = 0 ∧ r.firstRun = true := by
  have hlacks : (r.lacksRest && r.firstRun) = true ↔ r.restCount = 0 ∧ r.firstRun = true := by
    rw [Bool.and_eq_true, RescaledBones.lacksRest, beq_iff_eq]
  rw [← hlacks]
  unfold Summary.bones
  split
  · rename_i h
    refine iff_of_true ⟨⟨_, List.mem_singleton_self _, ?_⟩, ?_⟩ h
    · cases colours <;> decide +kernel
    · intro m hm
      rw [List.mem_singleton.mp hm]
      cases colours <;> decide +kernel
  · rename_i h
    refine iff_of_false (fun hreport => ?_) h
    exact hreport.2 (Summary.rescaled r) (by simp) (rescaled_shown colours r)

/-! ## 2. Rest positions -/

/-- Some live line holds a rest position. -/
def HasRest (lines : List Text) : Prop := ∃ i l, shapeAt lines i = some (.rest l)

/-- Some live line holds a rest position, and a helper is named in front of it. -/
def HasOwnedRest (lines : List Text) : Prop :=
  ∃ i l helper, shapeAt lines i = some (.rest l) ∧ helperBefore lines i = some helper

theorem HasOwnedRest.hasRest {lines : List Text} (h : HasOwnedRest lines) : HasRest lines := by
  obtain ⟨i, l, -, hs, -⟩ := h
  exact ⟨i, l, hs⟩

theorem countP_isRest_eq_zero {lines : List Text} :
    (survey lines).countP Site.isRest = 0 ↔ ¬ HasRest lines := by
  rw [List.countP_eq_zero]
  constructor
  · rintro h ⟨i, l, hs⟩
    exact h _ (List.mem_of_getElem? (getElem?_survey_rest.mpr ⟨hs, rfl⟩)) rfl
  · intro h site hsite hrest
    cases site with
    | rest owner l =>
      obtain ⟨i, hi⟩ := List.mem_iff_getElem?.mp hsite
      exact h ⟨i, l, (getElem?_survey_rest.mp hi).1⟩
    | other | offset _ _ _ | unreadable _ => cases hrest

/-- **A capture has a rest position for each helper that has one**, so it is empty without. -/
theorem capture_rest_isEmpty_eq_false_iff {settings : Settings} {lines : List Text}
    {previous : Quantity} {b : Baseline} (h : capture settings lines previous = .ok b) :
    b.rest.isEmpty = false ↔ HasOwnedRest lines := by
  rw [Roster.isEmpty_eq_false]
  constructor
  · rintro ⟨helper, hsome⟩
    obtain ⟨v, hv⟩ := Option.isSome_iff_exists.mp hsome
    obtain ⟨l, hl, -⟩ := exists_rest_of_capture h hv
    obtain ⟨i, hi⟩ := List.mem_iff_getElem?.mp hl
    obtain ⟨hs, ho⟩ := getElem?_survey_rest.mp hi
    exact ⟨i, l, helper, hs, ho⟩
  · rintro ⟨i, l, helper, hs, ho⟩
    have hmem := List.mem_of_getElem? (getElem?_survey_rest.mpr ⟨hs, ho⟩)
    obtain ⟨v, hv⟩ := Roster.contains_eq_true.mp (covers_of_capture h _ hmem)
    exact ⟨helper, by rw [hv]; rfl⟩

/-! ## 3. What was done and what is said -/

/-- What a rescale of a script without a marker block did. -/
structure FirstRescale (lines : List Text) (r : RescaledBones) : Prop where
  firstRun : r.firstRun = true
  restCount : r.restCount = (survey lines).countP Site.isRest
  markerWritten : r.markerWritten = true ↔ HasOwnedRest lines
  /-- Without a marker block nothing is written at all. -/
  unchanged : r.markerWritten = false → r.lines = lines

theorem firstRescale_of_rescaleBones {settings : Settings} {lines : List Text}
    {new previous : Quantity} {r : RescaledBones} (hm : hasMarker settings lines = false)
    (h : rescaleBones settings lines new previous = .ok r) : FirstRescale lines r := by
  obtain ⟨b, hb, ⟨he, w, hw, rfl⟩ | ⟨he, w, hw, rfl⟩⟩ :=
    (rescaleBones_of_none (stored_eq_none_iff.mpr hm)).mp h
  all_goals
    have howned := capture_rest_isEmpty_eq_false_iff hb
    obtain ⟨d, written, -, -, hresult⟩ := writeBones_eq_ok.mp hw
  · have hnone : ¬ HasOwnedRest lines := fun hr => by simp [howned.mpr hr] at he
    have hw' : w.markerWritten = false := by rw [hresult]
    have hlines : w.lines = lines := writeBones_empty hw
    refine ⟨rfl, by rw [hresult], ?_, fun _ => hlines⟩
    exact iff_of_false (by simp [hw']) hnone
  · exact ⟨rfl, by rw [hresult], iff_of_true rfl (howned.mp he), fun hf => nomatch hf⟩

/-- **Where the report agrees with what was done.**  Without a marker block, before and after, the
lines are those of the script.  That the report says so, and nothing of a rescale, agrees with it
just when the script has no rest position or some helper has one; the rest positions in front of
the first helper line are counted, although nothing comes of them. -/
theorem report_agrees_iff {settings : Settings} {lines : List Text} {new previous : Quantity}
    {r : RescaledBones} (hm : hasMarker settings lines = false)
    (h : rescaleBones settings lines new previous = .ok r) (colours : Bool) :
    (r.markerWritten = false → r.lines = lines) ∧
      ((SaysUnchanged colours (Summary.bones r) ↔ r.markerWritten = false) ↔
        (HasRest lines → HasOwnedRest lines)) := by
  have hr := firstRescale_of_rescaleBones hm h
  refine ⟨hr.unchanged, ?_⟩
  have hreport : SaysUnchanged colours (Summary.bones r) ↔ ¬ HasRest lines := by
    rw [saysUnchanged_bones, hr.restCount, countP_isRest_eq_zero, and_iff_left hr.firstRun]
  have hwritten : r.markerWritten = false ↔ ¬ HasOwnedRest lines := by
    rw [← hr.markerWritten, Bool.not_eq_true]
  rw [hreport, hwritten, not_iff_not]
  exact ⟨fun h => h.mp, fun h => ⟨h, HasOwnedRest.hasRest⟩⟩

/-- A script with a trigger and no rest position: it is left alone and reported so. -/
theorem report_agrees_iff_triggers :
    let lines : List Text := ["<helper> h".toList, "<trigger> 90 1 0 0 -1.50".toList]
    hasMarker {} lines = false ∧
      ∃ r, rescaleBones {} lines (.written "3".toList) (.written "2".toList) = .ok r ∧
        r.lines = lines ∧ SaysUnchanged true (Summary.bones r) := by
  intro lines
  have hm : hasMarker {} lines = false := by decide +kernel
  have hsome : (rescaleBones {} lines (.written "3".toList) (.written "2".toList)).toOption.isSome =
      true := by
    decide +kernel
  have hall : ∀ r ∈ (rescaleBones {} lines (.written "3".toList) (.written "2".toList)).toOption,
      r.markerWritten = false := by
    decide +kernel
  have hnone : ¬ HasRest lines := countP_isRest_eq_zero.mp (by decide +kernel)
  obtain ⟨r, hr⟩ := Option.isSome_iff_exists.mp hsome
  have hw := hall r hr
  have hr := toOption_eq_some.mp hr
  obtain ⟨hlines, hiff⟩ := report_agrees_iff hm hr true
  exact ⟨hm, r, hr, hlines hw, (hiff.mpr fun h => absurd h hnone).mpr hw⟩

/-- A script whose only rest position stands in front of the first helper line.  Nothing is changed
and no marker block is written, and the report says that one rest position was rescaled. -/
theorem report_agrees_iff_orphan :
    let lines : List Text := ["<basepos> 1 2 3".toList]
    hasMarker {} lines = false ∧
      ∃ r, rescaleBones {} lines (.written "2".toList) (.written "1".toList) = .ok r ∧
        r.markerWritten = false ∧ r.lines = lines ∧
        ∀ colours, ¬ SaysUnchanged colours (Summary.bones r) := by
  intro lines
  have hsome : (rescaleBones {} lines (.written "2".toList) (.written "1".toList)).toOption.isSome =
      true := by
    decide +kernel
  have hall : ∀ r ∈ (rescaleBones {} lines (.written "2".toList) (.written "1".toList)).toOption,
      r.markerWritten = false ∧ r.lines = lines ∧ r.restCount = 1 := by
    decide +kernel
  obtain ⟨r, hr⟩ := Option.isSome_iff_exists.mp hsome
  obtain ⟨hw, hlines, hcount⟩ := hall r hr
  refine ⟨by decide +kernel, r, toOption_eq_some.mp hr, hw, hlines, fun colours hreport => ?_⟩
  have hzero := ((saysUnchanged_bones colours r).mp hreport).1
  omega

end ModelScale
