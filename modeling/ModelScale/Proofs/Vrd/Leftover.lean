import ModelScale.Proofs.Vrd.Compounding

/-
# Records left over from an earlier block

A block is told by its sentinel, but its records are read wherever they stand.  So when the sentinel
of a block is deleted and its records are not, the next rescale appends a block of its own, and what
is read from the script from then on is the two of them together: records of the new block replace
older ones of the same helper and number, and the others stay.

Main statement:

* `Baseline.stored_of_first_rescale`: what is read back after a first rescale is the baseline that
  it captured exactly if that baseline has a value of its own in the place of every record that the
  script already held.

On the way there the offsets (`sequences_gather_append_iff`) and the whole of a block behind any
lines (`stored_append_markerBlock_iff`) are treated alike.  A script whose old record survives is
`stored_of_first_rescale_leftover`.
-/

namespace ModelScale

open Text

/-! ## 1. The records of a line -/

theorem StoredOffset.read?_of_storedRest {line : Text} {r : StoredRest}
    (h : StoredRest.read? line = some r) : StoredOffset.read? line = none := by
  unfold StoredRest.read? at h
  split at h
  · rename_i hw
    rw [StoredOffset.read?, hw]
  · cases h

theorem record?_eq_storedRest {line : Text} {r : StoredRest} :
    VrdShape.record? line = some (.storedRest r) ↔ StoredRest.read? line = some r := by
  unfold VrdShape.record?
  rcases StoredRest.read? line with _ | s
  · rcases StoredOffset.read? line with _ | _ | _ <;> simp
  · simp

theorem record?_eq_storedOffset {line : Text} {r : StoredOffset} :
    VrdShape.record? line = some (.storedOffset r) ↔ StoredOffset.read? line = some (.ok r) := by
  unfold VrdShape.record?
  rcases hr : StoredRest.read? line with _ | s
  · rcases StoredOffset.read? line with _ | _ | _ <;> simp
  · simp [StoredOffset.read?_of_storedRest hr]

theorem record?_eq_unreadable {line : Text} {fault : Fault} :
    VrdShape.record? line = some (.unreadable fault) ↔
      StoredOffset.read? line = some (.error fault) := by
  unfold VrdShape.record?
  rcases hr : StoredRest.read? line with _ | s
  · rcases StoredOffset.read? line with _ | _ | _ <;> simp
  · simp [StoredOffset.read?_of_storedRest hr]

/-- A record that cannot be read is a site, wherever it stands. -/
theorem unreadable_mem_sitesFrom {lines : List Text} {line : Text} {fault : Fault}
    (hl : line ∈ lines) (h : VrdShape.record? line = some (.unreadable fault)) (g : Region)
    (owner : Option Text) (earlier : List Text) :
    .unreadable fault ∈ sitesFrom owner earlier (classifyAll g lines) := by
  induction lines generalizing g owner earlier with
  | nil => cases hl
  | cons first rest ih =>
    rw [classifyAll_cons, sitesFrom_cons]
    rcases List.mem_cons.mp hl with rfl | hl
    · have hc : (classify g line).1 = some (.unreadable fault) := by
        rw [classify, h]
      rw [hc]
      exact List.mem_cons_self
    · exact List.mem_cons_of_mem _ (ih hl _ _ _)

namespace Baseline

/-- **A script that is captured has no record that cannot be read.** -/
theorem offsetRecords_of_capture {settings : Settings} {lines : List Text} {previous : Quantity}
    {b : Baseline} (h : capture settings lines previous = .ok b) :
    ∃ records, offsetRecords lines = .ok records := by
  obtain ⟨records, hr⟩ : ∃ records : List StoredOffset,
      lines.filterMap StoredOffset.read? = records.map .ok := by
    refine exists_map_ok ?_
    intro x hx
    obtain ⟨line, hl, hx⟩ := List.mem_filterMap.mp hx
    cases x with
    | ok r => exact ⟨r, rfl⟩
    | error fault =>
      have hs := unreadable_mem_sitesFrom hl (record?_eq_unreadable.mpr hx) .code none []
      obtain ⟨c, d, hcd⟩ := foldlM_step_of_eq_ok h hs
      cases hcd
  exact ⟨records, mapM_id_eq_ok.mpr hr⟩

theorem mem_of_offsetRecords {lines : List Text} {records : List StoredOffset}
    (h : offsetRecords lines = .ok records) {r : StoredOffset} :
    r ∈ records ↔ ∃ line ∈ lines, StoredOffset.read? line = some (.ok r) := by
  rw [← List.mem_filterMap, mapM_id_eq_ok.mp h, List.mem_map]
  simp

/-! ## 2. What a block overwrites -/

/-- Two baselines that hold the same, in whatever order. -/
structure Same (b c : Baseline) : Prop where
  rest : ∀ helper, b.rest.get? helper = c.rest.get? helper
  offsets : ∀ helper, b.offsets.get? helper = c.offsets.get? helper

/-- The baseline has a value of its own in the place of a record. -/
def Overwrites (b : Baseline) : VrdShape → Prop
  | .storedRest r => b.rest.contains r.helper = true
  | .storedOffset r => r.index < (b.sequence r.helper).length
  | _ => True

instance (b : Baseline) : (shape : VrdShape) → Decidable (b.Overwrites shape)
  | .storedRest r => inferInstanceAs (Decidable (b.rest.contains r.helper = true))
  | .storedOffset r => inferInstanceAs (Decidable (r.index < (b.sequence r.helper).length))
  | .helper _ | .rest _ | .offset _ | .unreadable _ => inferInstanceAs (Decidable True)

/-- The numbers of the offsets can be read: no helper has so many that their digits are too many. -/
def Legible (b : Baseline) : Prop :=
  ∀ r ∈ b.offsetList, (Decimal.digits r.index).length ≤ digitLimit

instance (b : Baseline) : Decidable b.Legible :=
  inferInstanceAs (Decidable (∀ r ∈ b.offsetList, (Decimal.digits r.index).length ≤ digitLimit))

theorem legible_iff {b : Baseline} :
    b.Legible ↔ ∀ r ∈ b.offsetList, readInteger (Decimal.digits r.index) = .ok r.index := by
  refine forall₂_congr ?_
  intro r _
  rw [readInteger, Decimal.digitsValue_digits]
  split
  · rename_i h
    exact iff_of_false (by omega) (by simp)
  · rename_i h
    exact iff_of_true (by omega) rfl

/-- Every record of the lines is overwritten, seen kind by kind. -/
theorem forall_overwrites_iff {b : Baseline} {lines : List Text} {older : List StoredOffset}
    (ho : offsetRecords lines = .ok older) :
    (∀ line ∈ lines, ∀ shape ∈ VrdShape.record? line, b.Overwrites shape) ↔
      (∀ helper, (restOf lines).contains helper = true → b.rest.contains helper = true) ∧
        ∀ r ∈ older, r.index < (b.sequence r.helper).length := by
  constructor
  · intro h
    constructor
    · intro helper hc
      obtain ⟨e, he, rfl⟩ := Roster.contains_ofList.mp hc
      obtain ⟨r, hr, rfl⟩ := List.mem_map.mp he
      obtain ⟨line, hl, hr⟩ := List.mem_filterMap.mp hr
      exact h line hl _ (record?_eq_storedRest.mpr hr)
    · intro r hr
      obtain ⟨line, hl, hr⟩ := (mem_of_offsetRecords ho).mp hr
      exact h line hl _ (record?_eq_storedOffset.mpr hr)
  · rintro ⟨hrest, hoffset⟩ line hl shape hs
    rcases record?_cases hs with ⟨r, rfl⟩ | ⟨r, rfl⟩ | ⟨f, rfl⟩
    · refine hrest r.helper (Roster.contains_ofList.mpr ⟨(r.helper, r.values), ?_, rfl⟩)
      refine List.mem_map.mpr ⟨r, List.mem_filterMap.mpr ⟨line, hl, ?_⟩, rfl⟩
      exact record?_eq_storedRest.mp hs
    · exact hoffset r ((mem_of_offsetRecords ho).mpr ⟨line, hl, record?_eq_storedOffset.mp hs⟩)
    · trivial

/-! ## 3. Reading behind other records -/

/-- The records of a block come behind those of the script, if they can be read at all. -/
theorem offsetRecords_append_markerBlock_iff {b : Baseline} (hb : b.Writable) {lines : List Text}
    {older records : List StoredOffset} (ho : offsetRecords lines = .ok older) :
    offsetRecords (lines ++ b.markerBlock {}) = .ok records ↔
      b.Legible ∧ records = older ++ b.offsetList := by
  have hread : b.Legible →
      offsetRecords (lines ++ b.markerBlock {}) = .ok (older ++ b.offsetList) := by
    intro hl
    have hblock : (b.offsetList.map fun r => (readInteger (Decimal.digits r.index)).map fun i =>
        (⟨r.helper, i, r.values⟩ : StoredOffset)) = b.offsetList.map .ok := by
      refine List.map_congr_left ?_
      intro r hr
      rw [legible_iff.mp hl r hr]
      rfl
    rw [offsetRecords, mapM_id_eq_ok, List.filterMap_append, mapM_id_eq_ok.mp ho,
      readOffset?_markerBlock hb, hblock, List.map_append]
  constructor
  · intro h
    have hl := legible_iff.mpr (offsetRecords_append_markerBlock hb h).2
    rw [hread hl] at h
    exact ⟨hl, (Except.ok.inj h).symm⟩
  · rintro ⟨hl, rfl⟩
    exact hread hl

/-- Sequences with a place for every older record are what is gathered with their records last. -/
theorem look_gather_append_offsetList {b : Baseline} {older : List StoredOffset}
    (h : ∀ r ∈ older, r.index < (b.sequence r.helper).length) (helper : Text) (index : Nat) :
    (gather (older ++ b.offsetList)).look helper index = (b.sequence helper)[index]? := by
  rw [look_gather_append, look_gather_offsetList]
  cases hv : (b.sequence helper)[index]? with
  | some v => rfl
  | none =>
    rw [Option.none_or, ← Option.not_isSome_iff_eq_none, isSome_look_gather]
    rintro ⟨r, hr, rfl, rfl⟩
    rw [List.getElem?_eq_none_iff] at hv
    exact absurd (h r hr) (by omega)

/-- Sequences that are the same where there is none count as empty are the same, if none is empty. -/
theorem eq_of_getD_nil_eq {α : Type} {x y : Option (List α)} (h : x.getD [] = y.getD [])
    (hx : x ≠ some []) (hy : y ≠ some []) : x = y := by
  cases x with
  | none =>
    cases y with
    | none => rfl
    | some t => exact absurd (congrArg some h.symm) hy
  | some s =>
    cases y with
    | none => exact absurd (congrArg some h) hx
    | some t => exact congrArg some h

/-- **The offsets come back exactly if every older record is overwritten.** -/
theorem sequences_gather_append_iff {b : Baseline} (hne : ∀ helper, b.offsets.get? helper ≠ some [])
    {older : List StoredOffset} :
    (∃ offsets, sequences (gather (older ++ b.offsetList)) = .ok offsets ∧
        ∀ helper, offsets.get? helper = b.offsets.get? helper) ↔
      ∀ r ∈ older, r.index < (b.sequence r.helper).length := by
  constructor
  · rintro ⟨offsets, hs, hsame⟩ r hr
    have hlook := (get?_sequences hs r.helper).2 r.index
    have hsome : ((gather (older ++ b.offsetList)).look r.helper r.index).isSome = true :=
      isSome_look_gather.mpr ⟨r, List.mem_append_left _ hr, rfl, rfl⟩
    rw [← hlook, hsame, Option.isSome_iff_ne_none, Ne, List.getElem?_eq_none_iff,
      Nat.not_le] at hsome
    exact hsome
  · intro h
    have hlook := look_gather_append_offsetList h
    obtain ⟨offsets, hs⟩ : ∃ offsets, sequences (gather (older ++ b.offsetList)) = .ok offsets := by
      refine exists_sequences ?_
      intro helper n hn
      refine ⟨b.sequence helper, ?_⟩
      intro i
      rw [← hlook, Numbered.look, hn]
      rfl
    refine ⟨offsets, hs, ?_⟩
    intro helper
    obtain ⟨hsome, hget⟩ := get?_sequences hs helper
    have hseq : (offsets.get? helper).getD [] = b.sequence helper := by
      refine List.ext_getElem? ?_
      intro i
      rw [hget, hlook]
    refine eq_of_getD_nil_eq hseq ?_ (hne helper)
    -- a helper with a record has a sequence that is not empty
    intro ho
    rw [ho] at hsome hseq
    obtain ⟨r, hr, rfl⟩ := isSome_get?_gather.mp hsome.symm
    have hl := isSome_look_gather.mpr ⟨r, hr, rfl, rfl⟩
    rw [hlook, ← hseq] at hl
    cases hl

/-- **What is read from lines with a block behind them is the baseline of the block** exactly if the
baseline overwrites every record of the lines. -/
theorem stored_append_markerBlock_iff {b : Baseline} (hb : b.Writable)
    (hne : ∀ helper, b.offsets.get? helper ≠ some []) (hrest : b.rest.isEmpty = false)
    {lines : List Text} {older : List StoredOffset} (ho : offsetRecords lines = .ok older) :
    (∃ c, stored {} (lines ++ b.markerBlock {}) = .ok (some c) ∧ c.Same b) ↔
      b.Legible ∧ ∀ line ∈ lines, ∀ shape ∈ VrdShape.record? line, b.Overwrites shape := by
  rw [forall_overwrites_iff ho, ← sequences_gather_append_iff hne]
  have hget := get?_restOf_append_markerBlock hb lines
  constructor
  · rintro ⟨⟨rest, offsets⟩, hs, hsame⟩
    obtain ⟨-, ⟨records, hr, hs⟩, rfl, -⟩ := stored_eq_ok_some.mp hs
    obtain ⟨hl, rfl⟩ := (offsetRecords_append_markerBlock_iff hb ho).mp hr
    refine ⟨hl, ?_, offsets, hs, hsame.offsets⟩
    intro helper hc
    have h := hsame.rest helper
    rw [hget] at h
    cases hv : b.rest.get? helper with
    | some v => rw [Roster.contains, hv]; rfl
    | none =>
      rw [hv, Option.none_or] at h
      rw [Roster.contains, h] at hc
      cases hc
  · rintro ⟨hl, hrests, offsets, hs, hsame⟩
    have hr := (offsetRecords_append_markerBlock_iff hb ho).mpr ⟨hl, rfl⟩
    have hsameRest : ∀ helper,
        (restOf (lines ++ b.markerBlock {})).get? helper = b.rest.get? helper := by
      intro helper
      rw [hget]
      cases hv : b.rest.get? helper with
      | some v => rfl
      | none =>
        have hn : (restOf lines).contains helper ≠ true := by
          intro hc
          have := hrests helper hc
          rw [Roster.contains, hv] at this
          cases this
        rw [Option.none_or, ← Option.not_isSome_iff_eq_none]
        exact hn
    have hfull : (restOf (lines ++ b.markerBlock {})).isEmpty = false := by
      simp only [Roster.isEmpty_eq_false, hsameRest] at hrest ⊢
      exact hrest
    refine ⟨⟨restOf (lines ++ b.markerBlock {}), offsets⟩, stored_eq_ok_some.mpr
      ⟨hasMarker_append_markerBlock b lines, ⟨_, hr, hs⟩, rfl, ?_⟩, ⟨hsameRest, hsame⟩⟩
    simp only [hfull, Bool.false_and]

/-! ## 4. The first rescale of a script -/

/-- A helper of a captured baseline that has offsets at all has one. -/
theorem offsets_ne_nil_of_capture {settings : Settings} {lines : List Text} {previous : Quantity}
    {b : Baseline} (h : capture settings lines previous = .ok b) (helper : Text) :
    b.offsets.get? helper ≠ some [] := by
  revert helper
  have hempty : ∀ helper, (∅ : Baseline).offsets.get? helper ≠ some [] := by
    intro helper h
    cases h
  refine foldlM_induction (P := fun b : Baseline => ∀ helper, b.offsets.get? helper ≠ some []) ?_
    hempty h
  intro site _ c d hc hd helper
  rcases captureSite_cases hd with
    rfl | ⟨name, line, v, -, -, rfl⟩ | ⟨name, ordinal, line, v, -, -, rfl⟩
  · exact hc helper
  · exact hc helper
  · rw [addOffset, Roster.get?_put]
    split
    · simp
    · exact hc helper

/-- A script with a block appended is some lines with the records of the script, and the block. -/
theorem exists_front_appendMarker (b : Baseline) (lines : List Text) :
    ∃ front, appendMarker {} lines b = front ++ b.markerBlock {} ∧
      markerLines {} front = markerLines {} lines := by
  refine ⟨lines ++ if (lines.getLast?.map isEmptyLine).getD true then [] else [[]], ?_, ?_⟩
  · rw [appendMarker]
  · rw [markerLines, List.filter_append]
    split
    · rw [List.filter_nil, List.append_nil]
      rfl
    · rw [show ([[]] : List Text).filter (isMarkerLine {}) = [] by decide, List.append_nil]
      rfl

theorem mem_of_markerLines {settings : Settings} {lines lines' : List Text}
    (h : markerLines settings lines = markerLines settings lines') {line : Text}
    {shape : VrdShape} (hs : VrdShape.record? line = some shape) (hl : line ∈ lines) :
    line ∈ lines' := by
  have hm : isMarkerLine settings line = true := by
    rw [isMarkerLine, hs]
    rfl
  have hmem : line ∈ markerLines settings lines := List.mem_filter.mpr ⟨hl, hm⟩
  rw [h] at hmem
  exact (List.mem_filter.mp hmem).1

/-- **What is read back after the first rescale of a script is what that rescale captured, exactly
if every record that the script held before is overwritten.**  A record of a helper without a rest
position, or of a trigger that the helper does not have, is read along with the new block. -/
theorem stored_of_first_rescale {lines : List Text} {new previous : Quantity} {r : RescaledBones}
    (hm : hasMarker {} lines = false) (h : rescaleBones {} lines new previous = .ok r)
    (hw : r.markerWritten = true) :
    ∃ b, r.baseline = some b ∧
      ((∃ c, stored {} r.lines = .ok (some c) ∧ c.Same b) ↔
        b.Legible ∧ ∀ line ∈ lines, ∀ shape ∈ VrdShape.record? line, b.Overwrites shape) := by
  have hnone : stored {} lines = .ok none := by
    rw [stored_eq, hm]
    rfl
  obtain ⟨b, hcap, hcase⟩ := (rescaleBones_of_none hnone).mp h
  rcases hcase with ⟨-, w, hwrite, rfl⟩ | ⟨hrest, w, hwrite, rfl⟩
  · obtain ⟨d, written, -, -, rfl⟩ := writeBones_eq_ok.mp hwrite
    cases hw
  · obtain ⟨d, written, -, hsites, rfl⟩ := writeBones_eq_ok.mp hwrite
    refine ⟨b, rfl, ?_⟩
    obtain ⟨front, happ, hfront⟩ := exists_front_appendMarker b (written.map (·.text))
    -- the lines in front of the block hold the records of the script
    have hsame : markerLines {} front = markerLines {} lines :=
      hfront.trans ((recasts_of_writeSites hsites).markerLines_eq {})
    obtain ⟨older, ho⟩ := offsetRecords_of_capture hcap
    have ho' : offsetRecords front = .ok older := by
      rw [← offsetRecords_markerLines {}, hsame, offsetRecords_markerLines, ho]
    show (∃ c, stored {} (appendMarker {} (written.map (·.text)) b) = .ok (some c) ∧ c.Same b) ↔ _
    rw [happ, stored_append_markerBlock_iff (writable_of_capture hcap)
      (offsets_ne_nil_of_capture hcap) hrest ho']
    refine and_congr_right fun _ => ⟨?_, ?_⟩
    · intro hall line hl shape hs
      exact hall line (mem_of_markerLines hsame.symm hs hl) shape hs
    · intro hall line hl shape hs
      exact hall line (mem_of_markerLines hsame hs hl) shape hs

/-- A script whose old records are of a helper and a trigger that it still has. -/
theorem stored_of_first_rescale_overwritten :
    let lines : List Text := ["<helper> h".toList, "<basepos> 2 0 4".toList,
      "<trigger> 90 1 0 0 -1.50".toList, "// QCSCALE_BASEPOS h 9 9 9".toList,
      "// QCSCALE_TRANSLATION h 0 9 9 9".toList]
    hasMarker {} lines = false ∧
      ∃ r b c, rescaleBones {} lines (.written "3".toList) (.written "2".toList) = .ok r ∧
        r.markerWritten = true ∧ r.baseline = some b ∧ stored {} r.lines = .ok (some c) ∧
        c.Same b := by
  intro lines
  have hm : hasMarker {} lines = false := by decide +kernel
  have hsome : (rescaleBones {} lines (.written "3".toList) (.written "2".toList)).toOption.isSome =
      true := by
    decide +kernel
  have hall : ∀ r ∈ (rescaleBones {} lines (.written "3".toList) (.written "2".toList)).toOption,
      r.markerWritten = true ∧ ∀ b ∈ r.baseline, b.Legible ∧
        ∀ line ∈ lines, ∀ shape ∈ VrdShape.record? line, b.Overwrites shape := by
    decide +kernel
  obtain ⟨r, hr⟩ := Option.isSome_iff_exists.mp hsome
  obtain ⟨hw, hover⟩ := hall r hr
  have hr := toOption_eq_some.mp hr
  obtain ⟨b, hb, hiff⟩ := stored_of_first_rescale hm hr hw
  obtain ⟨c, hc, hsame⟩ := hiff.mpr (hover b hb)
  exact ⟨hm, r, b, c, hr, hw, hb, hc, hsame⟩

/-- A script with a record of a helper that it no longer has: the record is read back as if the
rescale had captured it. -/
theorem stored_of_first_rescale_leftover :
    let lines : List Text := ["<helper> h".toList, "<basepos> 1 0 0".toList,
      "// QCSCALE_BASEPOS old 9 9 9".toList]
    hasMarker {} lines = false ∧
      ∃ r b c, rescaleBones {} lines (.written "2".toList) (.written "1".toList) = .ok r ∧
        r.markerWritten = true ∧ r.baseline = some b ∧ stored {} r.lines = .ok (some c) ∧
        b.rest.get? "old".toList = none ∧
        c.rest.get? "old".toList = some ⟨"9".toList, "9".toList, "9".toList⟩ := by
  intro lines
  have hsome : (rescaleBones {} lines (.written "2".toList) (.written "1".toList)).toOption.isSome =
      true := by
    decide +kernel
  have hall : ∀ r ∈ (rescaleBones {} lines (.written "2".toList) (.written "1".toList)).toOption,
      r.markerWritten = true ∧ (∃ b ∈ r.baseline, b.rest.get? "old".toList = none) ∧
        ∃ c? ∈ (stored {} r.lines).toOption, ∃ c ∈ c?,
          c.rest.get? "old".toList = some ⟨"9".toList, "9".toList, "9".toList⟩ := by
    decide +kernel
  obtain ⟨r, hr⟩ := Option.isSome_iff_exists.mp hsome
  obtain ⟨hw, ⟨b, hb, hbn⟩, c?, hc?, c, hc, hcv⟩ := hall r hr
  obtain rfl := Option.mem_def.mp hc
  exact ⟨by decide +kernel, r, b, c, toOption_eq_some.mp hr, hw, hb, toOption_eq_some.mp hc?, hbn,
    hcv⟩

end Baseline

end ModelScale
