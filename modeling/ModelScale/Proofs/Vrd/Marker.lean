import ModelScale.Proofs.Vrd.Survey

/-
# The marker block stays

A marker block is found by its lines: records, and comments with the sentinel's tag.  The stored
baseline is a function of these lines, in their order, and of nothing else (`stored_congr`).  A
rescale never makes such a line, nor unmakes one (`Recasts.markerLines_eq`): a record is recognised
before any live shape, and a line with coordinates is live, so neither the line nor what a rescale
makes of it is a comment.

So a script that has a marker block keeps it through every session of rescales and edits that leave
the lines of the block alone, whatever they do to the comments and helpers around it
(`marker_block_invariant`).
-/

namespace ModelScale

open Text Baseline

/-! ## 1. Marker lines -/

/-- A line of a marker block: a record, or a comment that opens a block. -/
def isMarkerLine (settings : Settings) (line : Text) : Bool :=
  (VrdShape.record? line).isSome || isSentinel settings line

/-- The lines of the marker blocks of a script, in order. -/
def markerLines (settings : Settings) (lines : List Text) : List Text :=
  lines.filter (isMarkerLine settings)

/-- A reader that accepts nothing but marker lines need not see the others. -/
theorem filterMap_markerLines {α : Type} {settings : Settings} {f : Text → Option α}
    (hf : ∀ line, (f line).isSome = true → isMarkerLine settings line = true) (lines : List Text) :
    (markerLines settings lines).filterMap f = lines.filterMap f := by
  rw [markerLines, List.filterMap_filter]
  refine List.filterMap_congr ?_
  intro line _
  cases hm : isMarkerLine settings line with
  | true => rfl
  | false =>
    cases h : f line with
    | none => rfl
    | some a =>
      have := hf line (by rw [h]; rfl)
      rw [hm] at this
      cases this

theorem isMarkerLine_of_storedRest {settings : Settings} {line : Text}
    (h : (StoredRest.read? line).isSome = true) : isMarkerLine settings line = true := by
  obtain ⟨r, hr⟩ := Option.isSome_iff_exists.mp h
  rw [isMarkerLine, VrdShape.record?, hr]
  rfl

theorem isMarkerLine_of_storedOffset {settings : Settings} {line : Text}
    (h : (StoredOffset.read? line).isSome = true) : isMarkerLine settings line = true := by
  obtain ⟨r, hr⟩ := Option.isSome_iff_exists.mp h
  rw [isMarkerLine, VrdShape.record?, hr]
  cases StoredRest.read? line <;> rfl

/-! ## 2. What is stored is in the marker lines -/

theorem hasMarker_markerLines (settings : Settings) (lines : List Text) :
    hasMarker settings (markerLines settings lines) = hasMarker settings lines := by
  rw [hasMarker, hasMarker, markerLines, List.any_filter]
  congr 1
  funext line
  cases h : isSentinel settings line <;> simp [isMarkerLine, h]

theorem restOf_markerLines (settings : Settings) (lines : List Text) :
    restOf (markerLines settings lines) = restOf lines := by
  rw [restOf, restOf, filterMap_markerLines fun _ => isMarkerLine_of_storedRest]

theorem offsetRecords_markerLines (settings : Settings) (lines : List Text) :
    offsetRecords (markerLines settings lines) = offsetRecords lines := by
  rw [offsetRecords, offsetRecords, filterMap_markerLines fun _ => isMarkerLine_of_storedOffset]

/-- The error without the number of the line it is reported at. -/
def BonesError.withoutLine : BonesError → BonesError
  | .fault f => .fault f
  | .mismatch m => .mismatch { m with line := none }

/-- The steps of reading what is stored, one by one. -/
theorem stored_eq (settings : Settings) (lines : List Text) :
    stored settings lines =
      if hasMarker settings lines then
        match offsetRecords lines with
        | .error f => .error (.fault f)
        | .ok records =>
          match sequences (gather records) with
          | .error m => .error (.mismatch m)
          | .ok offsets =>
            if (restOf lines).isEmpty && offsets.isEmpty then
              .error (.mismatch
                { line := (lines.findIdx? (isSentinel settings)).map fun i => (i + 1 : Int) })
            else .ok (some ⟨restOf lines, offsets⟩)
      else .ok none := by
  unfold stored
  cases hasMarker settings lines with
  | false => rfl
  | true =>
    rcases offsetRecords lines with f | records
    · rfl
    · rcases h : sequences (gather records) with m | offsets
      · simp [Except.mapError, bind, Except.bind, h]
      · simp only [Bool.not_true, Bool.false_eq_true, if_false, if_true, Except.mapError, bind,
          Except.bind, h]
        split <;> rfl

/-- A baseline is read from a script with a marker if all its records fit, and there is one. -/
theorem stored_eq_ok_some {settings : Settings} {lines : List Text} {c : Baseline} :
    stored settings lines = .ok (some c) ↔
      hasMarker settings lines = true ∧
        (∃ records, offsetRecords lines = .ok records ∧
          sequences (gather records) = .ok c.offsets) ∧
        c.rest = restOf lines ∧ (c.rest.isEmpty && c.offsets.isEmpty) = false := by
  rw [stored_eq]
  cases hasMarker settings lines with
  | false => simp
  | true =>
    rcases offsetRecords lines with f | records
    · simp
    · rcases hs : sequences (gather records) with m | offsets
      · simp [hs]
      · obtain ⟨rest, o⟩ := c
        simp only [if_true, true_and, Except.ok.injEq, exists_eq_left', hs]
        cases he : (restOf lines).isEmpty && offsets.isEmpty with
        | true =>
          rw [if_pos rfl]
          refine iff_of_false (by simp) ?_
          rintro ⟨rfl, rfl, h⟩
          rw [he] at h
          cases h
        | false =>
          rw [if_neg (by simp), Except.ok.injEq, Option.some.injEq, mk.injEq]
          constructor
          · rintro ⟨rfl, rfl⟩
            exact ⟨rfl, rfl, he⟩
          · rintro ⟨rfl, rfl, -⟩
            exact ⟨rfl, rfl⟩

/-- What is stored is a function of the records and of the presence of a block, up to the number of
the line at which an empty block is reported. -/
theorem stored_congr_of_records {settings : Settings} {lines lines' : List Text}
    (hm : hasMarker settings lines = hasMarker settings lines')
    (ho : offsetRecords lines = offsetRecords lines') (hr : restOf lines = restOf lines') :
    (stored settings lines).mapError BonesError.withoutLine =
      (stored settings lines').mapError BonesError.withoutLine := by
  rw [stored_eq, stored_eq, hm, ho, hr]
  cases hasMarker settings lines' with
  | false => rfl
  | true =>
    rcases offsetRecords lines' with f | records
    · rfl
    · dsimp only
      rcases sequences (gather records) with m | offsets
      · rfl
      · dsimp only
        cases (restOf lines').isEmpty && offsets.isEmpty <;> rfl

theorem stored_markerLines (settings : Settings) (lines : List Text) :
    (stored settings (markerLines settings lines)).mapError BonesError.withoutLine =
      (stored settings lines).mapError BonesError.withoutLine :=
  stored_congr_of_records (hasMarker_markerLines settings lines)
    (offsetRecords_markerLines settings lines) (restOf_markerLines settings lines)

/-- **Scripts with the same marker lines store the same baseline**, or fail for the same reason. -/
theorem stored_congr {settings : Settings} {lines lines' : List Text}
    (h : markerLines settings lines = markerLines settings lines') :
    (stored settings lines).mapError BonesError.withoutLine =
      (stored settings lines').mapError BonesError.withoutLine := by
  rw [← stored_markerLines, h, stored_markerLines]

theorem stored_eq_ok_congr {settings : Settings} {lines lines' : List Text}
    (h : markerLines settings lines = markerLines settings lines') {b? : Option Baseline}
    (hs : stored settings lines = .ok b?) : stored settings lines' = .ok b? := by
  have hc := stored_congr h
  rw [hs] at hc
  exact mapError_eq_ok.mp hc.symm

/-! ## 3. Rescales -/

theorem isMarkerLine_of_not_inert {settings : Settings} {g : Region} {line : Text}
    (h : Comment.inert g line = false) : isMarkerLine settings line = false := by
  rw [isMarkerLine, record?_eq_none_of_not_inert h, isSentinel]
  cases g with
  | block => cases h
  | code =>
    rw [Comment.inert, Bool.or_eq_false_iff] at h
    simp [h.1]

/-- A line that holds a tag in front of its coordinates is no comment, whatever the coordinates. -/
theorem inert_withValues {g : Region} {line : Text} {l : TripleLine} (hp : l.before <+: line)
    (ht : '>' ∈ l.before) (v : Triple) :
    Comment.inert g (l.withValues v) = Comment.inert g line := by
  obtain ⟨r, rfl⟩ := hp
  have hm : '>' ∈ trimEnd l.before := by
    rw [← trimEnd_append_trailingBlanks l.before] at ht
    rcases List.mem_append.mp ht with h | h
    · exact h
    · exact absurd (blanks_trailingBlanks _ _ h) (by decide)
  have e : l.before ++ r = trimEnd l.before ++ (trailingBlanks l.before ++ r) := by
    rw [← List.append_assoc, trimEnd_append_trailingBlanks]
  rw [TripleLine.withValues_eq, e]
  exact Comment.inert_append_congr hm (by decide) (by decide) g _ _

/-- A recast line is the line itself, or neither of the two is a marker line. -/
theorem Recast.isMarkerLine_eq {g : Region} {line line' : Text} (h : Recast g line line')
    (settings : Settings) :
    line' = line ∨ isMarkerLine settings line = false ∧ isMarkerLine settings line' = false := by
  cases h with
  | same => exact Or.inl rfl
  | @rest l v h _ =>
    obtain ⟨hi, -, hl⟩ := classify_eq_live (Prod.ext h rfl) trivial
    obtain ⟨hp, ht⟩ := TripleLine.readRest?_before (live?_eq_rest.mp hl).2
    have hi' := (inert_withValues hp ht v).trans hi
    exact Or.inr ⟨isMarkerLine_of_not_inert hi, isMarkerLine_of_not_inert hi'⟩
  | @offset l v h _ =>
    obtain ⟨hi, -, hl⟩ := classify_eq_live (Prod.ext h rfl) trivial
    obtain ⟨hp, ht⟩ := TripleLine.readOffset?_before (live?_eq_offset.mp hl).2.2
    have hi' := (inert_withValues hp ht v).trans hi
    exact Or.inr ⟨isMarkerLine_of_not_inert hi, isMarkerLine_of_not_inert hi'⟩

/-- **Recasting lines changes no marker line, makes none and unmakes none.** -/
theorem Recasts.markerLines_eq {g : Region} {lines lines' : List Text} (h : Recasts g lines lines')
    (settings : Settings) : markerLines settings lines' = markerLines settings lines := by
  unfold markerLines
  induction h with
  | nil => rfl
  | @cons g line line' rest rest' h _ ih =>
    rcases h.isMarkerLine_eq settings with rfl | ⟨h1, h2⟩
    · rw [List.filter_cons, List.filter_cons, ih]
    · rw [List.filter_cons_of_neg (by simp [h2]), List.filter_cons_of_neg (by simp [h1]), ih]

/-- What comes of a script that is written from a baseline. -/
theorem writeBones_eq_ok {lines : List Text} {b : Baseline} {scale : Quantity} {r : RescaledBones} :
    writeBones lines b scale = .ok r ↔
      ∃ d written, scale.value = .ok d ∧
        writeSites b d 1 (lines.zip (survey lines)) = .ok written ∧
        r = {
          lines := written.map (·.text)
          scale := d
          firstRun := false
          markerWritten := false
          restCount := (survey lines).countP Site.isRest
          offsetCount := (survey lines).countP Site.isOffset
          nonzeroCount := written.countP (·.nonzero)
          baseline := some b } := by
  unfold writeBones
  rw [bind_eq_ok]
  constructor
  · rintro ⟨d, hd, h⟩
    obtain ⟨written, hw, h⟩ := bind_eq_ok.mp h
    exact ⟨d, written, mapError_eq_ok.mp hd, hw, (pure_eq_ok.mp h).symm⟩
  · rintro ⟨d, written, hd, hw, rfl⟩
    exact ⟨d, mapError_eq_ok.mpr hd, bind_eq_ok.mpr ⟨written, hw, pure_eq_ok.mpr rfl⟩⟩

/-- What is written from a baseline is the script, recast. -/
theorem recasts_of_writeBones {lines : List Text} {b : Baseline} {scale : Quantity}
    {r : RescaledBones} (h : writeBones lines b scale = .ok r) : Recasts .code lines r.lines := by
  obtain ⟨d, written, -, hw, rfl⟩ := writeBones_eq_ok.mp h
  exact recasts_of_writeSites hw

/-- A script with a marker block is written from what is stored in it. -/
theorem rescaleBones_of_stored {settings : Settings} {lines : List Text} {b : Baseline}
    (h : stored settings lines = .ok (some b)) (new previous : Quantity) :
    rescaleBones settings lines new previous = writeBones lines b new := by
  rw [rescaleBones, h]
  rfl

theorem stored_of_hasMarker {settings : Settings} {lines : List Text}
    (h : hasMarker settings lines = true) : stored settings lines ≠ .ok none := by
  intro hs
  rw [stored_eq, h, if_pos rfl] at hs
  split at hs
  · cases hs
  · split at hs
    · cases hs
    · split at hs <;> cases hs

/-- What comes of a script that has no marker block yet. -/
theorem rescaleBones_of_none {settings : Settings} {lines : List Text} {new previous : Quantity}
    {r : RescaledBones} (h : stored settings lines = .ok none) :
    rescaleBones settings lines new previous = .ok r ↔
      ∃ b, capture settings lines previous = .ok b ∧
        (b.rest.isEmpty = true ∧
            (∃ w, writeBones lines ∅ new = .ok w ∧
              r = { w with firstRun := true, baseline := none }) ∨
          b.rest.isEmpty = false ∧ ∃ w, writeBones lines b new = .ok w ∧
            r = { w with lines := appendMarker settings w.lines b, firstRun := true,
                         markerWritten := true }) := by
  unfold rescaleBones
  rw [h]
  simp only [bind, Except.bind]
  cases hc : capture settings lines previous with
  | error f => simp [Except.mapError]
  | ok b =>
    simp only [Except.mapError, Except.ok.injEq, exists_eq_left']
    cases he : b.rest.isEmpty with
    | true =>
      cases hw : writeBones lines ∅ new with
      | error e => simp
      | ok w => simp [pure, Except.pure, eq_comm]
    | false =>
      cases hw : writeBones lines b new with
      | error e => simp
      | ok w => simp [pure, Except.pure, eq_comm]

/-- A rescale that comes to an end, by what it found in the script. -/
inductive Rescales (settings : Settings) (lines : List Text) (new previous : Quantity) :
    RescaledBones → Prop where
  /-- A marker block, which is the only source of values. -/
  | stored {b : Baseline} {w : RescaledBones} (hs : stored settings lines = .ok (some b))
    (hw : writeBones lines b new = .ok w) : Rescales settings lines new previous w
  /-- Neither a marker block nor a rest position: nothing is scaled. -/
  | copied {b : Baseline} {w : RescaledBones} (hs : stored settings lines = .ok none)
    (hcap : capture settings lines previous = .ok b) (hrest : b.rest.isEmpty = true)
    (hw : writeBones lines ∅ new = .ok w) :
    Rescales settings lines new previous { w with firstRun := true, baseline := none }
  /-- A rest position: what is captured is kept in a new block. -/
  | captured {b : Baseline} {w : RescaledBones} (hs : stored settings lines = .ok none)
    (hcap : capture settings lines previous = .ok b) (hrest : b.rest.isEmpty = false)
    (hw : writeBones lines b new = .ok w) :
    Rescales settings lines new previous
      { w with lines := appendMarker settings w.lines b, firstRun := true, markerWritten := true }

/-- **There are three ways to rescale a script.** -/
theorem rescaleBones_eq_ok {settings : Settings} {lines : List Text} {new previous : Quantity}
    {r : RescaledBones} :
    rescaleBones settings lines new previous = .ok r ↔ Rescales settings lines new previous r := by
  constructor
  · intro h
    cases hs : stored settings lines with
    | error e =>
      rw [rescaleBones, hs] at h
      cases h
    | ok b? =>
      cases b? with
      | some b =>
        rw [rescaleBones_of_stored hs] at h
        exact .stored hs h
      | none =>
        obtain ⟨b, hcap, ⟨hrest, w, hw, rfl⟩ | ⟨hrest, w, hw, rfl⟩⟩ :=
          (rescaleBones_of_none hs).mp h
        · exact .copied hs hcap hrest hw
        · exact .captured hs hcap hrest hw
  · intro h
    cases h with
    | stored hs hw => rw [rescaleBones_of_stored hs, hw]
    | copied hs hcap hrest hw =>
      exact (rescaleBones_of_none hs).mpr ⟨_, hcap, Or.inl ⟨hrest, _, hw, rfl⟩⟩
    | captured hs hcap hrest hw =>
      exact (rescaleBones_of_none hs).mpr ⟨_, hcap, Or.inr ⟨hrest, _, hw, rfl⟩⟩

/-- With a marker block there is only one. -/
theorem exists_stored_of_hasMarker {settings : Settings} {lines : List Text}
    {new previous : Quantity} {r : RescaledBones} (hm : hasMarker settings lines = true)
    (h : rescaleBones settings lines new previous = .ok r) :
    ∃ b, stored settings lines = .ok (some b) ∧ writeBones lines b new = .ok r := by
  cases rescaleBones_eq_ok.mp h with
  | stored hs hw => exact ⟨_, hs, hw⟩
  | copied hs => exact absurd hs (stored_of_hasMarker hm)
  | captured hs => exact absurd hs (stored_of_hasMarker hm)

/-- A rescale of a script with a marker block leaves the marker lines as they are. -/
theorem markerLines_rescaleBones {settings : Settings} {lines : List Text} {new previous : Quantity}
    {r : RescaledBones} (hm : hasMarker settings lines = true)
    (h : rescaleBones settings lines new previous = .ok r) :
    markerLines settings r.lines = markerLines settings lines := by
  obtain ⟨b, -, hw⟩ := exists_stored_of_hasMarker hm h
  exact (recasts_of_writeBones hw).markerLines_eq settings

/-! ## 4. Sessions -/

/-- A step of a session on a script. -/
inductive ScriptStep where
  /-- A rescale.  One that fails leaves the script as it is. -/
  | rescale (new previous : Quantity)
  /-- A line is put in front of the one with an index, or at the end. -/
  | insert (index : Nat) (line : Text)
  | delete (index : Nat)
  | set (index : Nat) (line : Text)
  deriving DecidableEq, Repr

namespace ScriptStep

/-- What a step makes of a script. -/
def apply (settings : Settings) (lines : List Text) : ScriptStep → List Text
  | rescale new previous =>
    match rescaleBones settings lines new previous with
    | .ok r => r.lines
    | .error _ => lines
  | insert index line => lines.take index ++ line :: lines.drop index
  | delete index => lines.eraseIdx index
  | set index line => lines.set index line

/-- The step leaves the marker lines alone: it adds none, and takes none away. -/
def SparesMarker (settings : Settings) (lines : List Text) : ScriptStep → Prop
  | rescale _ _ => True
  | insert _ line => isMarkerLine settings line = false
  | delete index => ∀ line ∈ lines[index]?, isMarkerLine settings line = false
  | set index line =>
    isMarkerLine settings line = false ∧
      ∀ old ∈ lines[index]?, isMarkerLine settings old = false

instance (settings : Settings) (lines : List Text) :
    (s : ScriptStep) → Decidable (s.SparesMarker settings lines)
  | rescale _ _ => inferInstanceAs (Decidable True)
  | insert _ line => inferInstanceAs (Decidable (isMarkerLine settings line = false))
  | delete index =>
    inferInstanceAs (Decidable (∀ line ∈ lines[index]?, isMarkerLine settings line = false))
  | set index line =>
    inferInstanceAs (Decidable (isMarkerLine settings line = false ∧
      ∀ old ∈ lines[index]?, isMarkerLine settings old = false))

/-- The steps of a session all spare the marker lines, each of the script as it then is. -/
def SpareMarker (settings : Settings) : List Text → List ScriptStep → Prop
  | _, [] => True
  | lines, s :: steps =>
    s.SparesMarker settings lines ∧ SpareMarker settings (s.apply settings lines) steps

/-- The script at all points of a session, from its start to its end. -/
def points (settings : Settings) : List Text → List ScriptStep → List (List Text)
  | lines, [] => [lines]
  | lines, s :: steps => lines :: points settings (s.apply settings lines) steps

/-- One step. -/
theorem markerLines_apply {settings : Settings} {lines : List Text}
    (hm : hasMarker settings lines = true) {s : ScriptStep} (h : s.SparesMarker settings lines) :
    markerLines settings (s.apply settings lines) = markerLines settings lines := by
  cases s with
  | rescale new previous =>
    simp only [apply]
    split
    · rename_i r hr
      exact markerLines_rescaleBones hm hr
    · rfl
  | insert index line =>
    have h : isMarkerLine settings line = false := h
    simp only [apply, markerLines]
    rw [List.filter_append, List.filter_cons_of_neg (by simp [h]), ← List.filter_append,
      List.take_append_drop]
  | delete index =>
    simp only [apply, markerLines]
    rcases Nat.lt_or_ge index lines.length with hi | hi
    · have h : isMarkerLine settings lines[index] = false :=
        h lines[index] (List.getElem?_eq_getElem hi)
      conv_rhs => rw [← List.take_append_drop index lines, List.drop_eq_getElem_cons hi]
      rw [List.eraseIdx_eq_take_drop_succ, List.filter_append, List.filter_append,
        List.filter_cons_of_neg (by simp [h])]
    · rw [List.eraseIdx_of_length_le hi]
  | set index line =>
    simp only [apply, markerLines]
    rcases Nat.lt_or_ge index lines.length with hi | hi
    · have h1 : isMarkerLine settings line = false := h.1
      have h2 : isMarkerLine settings lines[index] = false :=
        h.2 lines[index] (List.getElem?_eq_getElem hi)
      conv_rhs => rw [← List.take_append_drop index lines, List.drop_eq_getElem_cons hi]
      rw [List.set_eq_take_append_cons_drop, if_pos hi, List.filter_append, List.filter_append,
        List.filter_cons_of_neg (by simp [h1]), List.filter_cons_of_neg (by simp [h2])]
    · rw [List.set_eq_of_length_le hi]

/-- **A marker block never changes once it is there.**  At every point of a session whose edits
spare the marker lines, these are what they were at its start, and so is what is stored in them. -/
theorem marker_block_invariant (settings : Settings) (lines : List Text) (steps : List ScriptStep)
    (hm : hasMarker settings lines = true) (hs : SpareMarker settings lines steps) :
    ∀ point ∈ points settings lines steps,
      markerLines settings point = markerLines settings lines ∧
        (stored settings point).mapError BonesError.withoutLine =
          (stored settings lines).mapError BonesError.withoutLine := by
  suffices h : ∀ point ∈ points settings lines steps,
      markerLines settings point = markerLines settings lines from
    fun point hp => ⟨h point hp, stored_congr (h point hp)⟩
  induction steps generalizing lines with
  | nil =>
    intro point hp
    obtain rfl := List.mem_singleton.mp hp
    rfl
  | cons s steps ih =>
    intro point hp
    rcases List.mem_cons.mp hp with rfl | hp
    · rfl
    · have hstep := markerLines_apply hm hs.1
      have hm' : hasMarker settings (s.apply settings lines) = true := by
        rw [← hasMarker_markerLines, hstep, hasMarker_markerLines, hm]
      exact (ih _ hm' hs.2 point hp).trans hstep

/-- The invariant on a short script: a comment is opened above its block, a line of it is deleted,
and then it is rescaled. -/
theorem marker_block_invariant_commented_out :
    let lines : List Text := ["<helper> h".toList, "<basepos> 2 0 4".toList,
      "// QCSCALE_NORMALIZATION_DATA".toList, "// QCSCALE_BASEPOS h 1.000000 0 2.0".toList]
    let steps : List ScriptStep := [.insert 0 "/*".toList, .delete 1,
      .rescale (.written "3".toList) (.written "2".toList)]
    ∀ point ∈ points {} lines steps, markerLines {} point = markerLines {} lines ∧
      (stored {} point).mapError BonesError.withoutLine =
        (stored {} lines).mapError BonesError.withoutLine :=
  marker_block_invariant {} _ _ (by decide) ⟨by decide, by decide, trivial, trivial⟩

end ScriptStep

end ModelScale
