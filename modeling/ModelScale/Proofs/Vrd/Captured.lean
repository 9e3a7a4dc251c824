import ModelScale.Proofs.Vrd.Restored

/-
# Capturing and writing go through a script in step

A capture appends to the sequences of the helpers and overwrites their rest positions; a writing
takes from the sequences in order and looks the rest positions up.  The two are loops of their own.
That what the one puts down is what the other picks up, on the same line, rests on three facts:

* `counts_of_capture`: the sequence of a helper is as long as it has triggers, over all of its
  sections, so a writing never runs out of offsets and none is left over;
* `Baseline.stores_of_capture`: the offset of a trigger stands at the number of this trigger;
* `exists_lastRest_of_capture`: the rest position of a helper is that of the last line with one.

The main statement, `writeBones_of_capture`, puts them together.  It is about any script that can be
captured: helpers may have several sections or none with a rest position, sections may be
interleaved, and lines may stand in front of the first helper.
-/

namespace ModelScale

open Text Baseline

/-! ## 1. As many offsets as triggers -/

namespace Baseline

variable {settings : Settings} {previous : Quantity}

/-- The sequences are as long as the lines so far have offsets, at the end as at the start. -/
theorem captureSites_counts {b c : Baseline} {owner : Option Text} {earlier : List Text}
    {shapes : List (Option VrdShape)} (hb : b.Counts earlier)
    (h : (sitesFrom owner earlier shapes).foldlM (captureSite settings previous) b = .ok c) :
    c.Counts (placeAfter (owner, earlier) shapes).2 := by
  induction shapes generalizing b owner earlier with
  | nil =>
    obtain rfl := pure_eq_ok.mp h
    exact hb
  | cons shape shapes ih =>
    rw [sitesFrom_cons, List.foldlM_cons] at h
    obtain ⟨d, hd, h⟩ := bind_eq_ok.mp h
    exact ih (captureSite_spec hb hd).2.2 h

/-- **The sequence of a helper is as long as the helper has triggers.** -/
theorem counts_of_capture {lines : List Text} {b : Baseline}
    (h : capture settings lines previous = .ok b) (helper : Text) :
    (b.sequence helper).length = (triggersOf lines helper).length := by
  have hempty : (∅ : Baseline).Counts [] := fun _ => rfl
  have hcount := captureSites_counts hempty h helper
  have hall : (classifyAll .code lines).take lines.length = classifyAll .code lines := by
    rw [List.take_of_length_le]
    rw [classifyAll_length]
  have hplace := count_placeAfter lines helper le_rfl
  rw [hall] at hplace
  rw [hcount, hplace, triggersOf, List.countP_eq_length_filter]

/-! ## 2. The last rest position -/

/-- Sites without a rest position of the helper leave it as it is. -/
theorem get?_rest_of_captureSites {sites : List Site} {helper : Text}
    (hs : ∀ l, Site.rest (some helper) l ∉ sites) {b c : Baseline}
    (h : sites.foldlM (captureSite settings previous) b = .ok c) :
    c.rest.get? helper = b.rest.get? helper := by
  refine foldlM_induction (P := fun d : Baseline => d.rest.get? helper = b.rest.get? helper) ?_ rfl h
  intro site hmem d e hd he
  rcases captureSite_cases he with
    rfl | ⟨other, l, v, rfl, -, rfl⟩ | ⟨other, k, l, v, rfl, -, rfl⟩
  · exact hd
  · have hne : helper ≠ other := by
      rintro rfl
      exact hs l hmem
    rw [addRest, Roster.get?_put, if_neg hne, hd]
  · exact hd

/-- A helper with a rest position among some sites has the last of them stored. -/
theorem exists_last_of_captureSites {sites : List Site} {helper : Text} {b c : Baseline}
    (h : sites.foldlM (captureSite settings previous) b = .ok c) {l : TripleLine}
    (hl : Site.rest (some helper) l ∈ sites) :
    ∃ pre m post v, sites = pre ++ .rest (some helper) m :: post ∧
      (∀ l, Site.rest (some helper) l ∉ post) ∧
      normalizeTriple settings previous m.values = .ok v ∧ c.rest.get? helper = some v := by
  induction sites generalizing b l with
  | nil => cases hl
  | cons site sites ih =>
    rw [List.foldlM_cons] at h
    obtain ⟨d, hd, h⟩ := bind_eq_ok.mp h
    by_cases hlater : ∃ m, Site.rest (some helper) m ∈ sites
    · obtain ⟨m, hm⟩ := hlater
      obtain ⟨pre, n, post, v, rfl, hpost, hv, hget⟩ := ih h hm
      exact ⟨site :: pre, n, post, v, rfl, hpost, hv, hget⟩
    · have hpost : ∀ m, Site.rest (some helper) m ∉ sites := fun m hm => hlater ⟨m, hm⟩
      obtain rfl : Site.rest (some helper) l = site :=
        (List.mem_cons.mp hl).resolve_right (hpost l)
      obtain ⟨v, hv, rfl⟩ := map_eq_ok.mp hd
      refine ⟨[], l, sites, v, rfl, hpost, hv, ?_⟩
      rw [get?_rest_of_captureSites hpost h, addRest, Roster.get?_put, if_pos rfl]

end Baseline

/-- The last live rest position of a helper, by its line. -/
structure LastRest (lines : List Text) (helper : Text) (i : Nat) (l : TripleLine) : Prop where
  shape : shapeAt lines i = some (.rest l)
  owner : helperBefore lines i = some helper
  last : ∀ j m, shapeAt lines j = some (.rest m) → helperBefore lines j = some helper → j ≤ i

/-- **The rest position stored for a helper is that of the last line with one.** -/
theorem exists_lastRest_of_capture {settings : Settings} {lines : List Text} {previous : Quantity}
    {b : Baseline} (h : capture settings lines previous = .ok b) {i : Nat} {l : TripleLine}
    {helper : Text} (hs : shapeAt lines i = some (.rest l))
    (ho : helperBefore lines i = some helper) :
    ∃ j m v, LastRest lines helper j m ∧ normalizeTriple settings previous m.values = .ok v ∧
      b.rest.get? helper = some v := by
  have hmem := List.mem_of_getElem? (getElem?_survey_rest.mpr ⟨hs, ho⟩)
  obtain ⟨pre, m, post, v, hsurvey, hpost, hv, hget⟩ := exists_last_of_captureSites h hmem
  have hj : (survey lines)[pre.length]? = some (.rest (some helper) m) := by
    rw [hsurvey, List.getElem?_append_right le_rfl, Nat.sub_self]
    rfl
  obtain ⟨hshape, howner⟩ := getElem?_survey_rest.mp hj
  refine ⟨pre.length, m, v, ⟨hshape, howner, ?_⟩, hv, hget⟩
  intro k n hshape' howner'
  have hk := getElem?_survey_rest.mpr ⟨hshape', howner'⟩
  by_contra hle
  obtain ⟨d, rfl⟩ := Nat.exists_eq_add_of_lt (Nat.lt_of_not_le hle)
  rw [hsurvey, List.getElem?_append_right (by omega), Nat.add_assoc, Nat.add_sub_cancel_left,
    List.getElem?_cons_succ] at hk
  exact hpost n (List.mem_of_getElem? hk)

/-! ## 3. Both together -/

/-- The line is the trigger of a helper that has the number `k`: `k` others stand in front of it. -/
def IsTrigger (lines : List Text) (helper : Text) (k i : Nat) : Prop :=
  isTriggerOf lines helper i = true ∧ (List.range i).countP (isTriggerOf lines helper) = k

instance (lines : List Text) (helper : Text) (k i : Nat) :
    Decidable (IsTrigger lines helper k i) :=
  inferInstanceAs (Decidable (_ ∧ _))

theorem getElem?_triggersOf {lines : List Text} {helper : Text} {k i : Nat} :
    (triggersOf lines helper)[k]? = some i ↔ IsTrigger lines helper k i := by
  rw [triggersOf, getElem?_filter_range]
  refine ⟨fun h => h.2, fun h => ⟨?_, h⟩⟩
  obtain ⟨⟨l, hl⟩, -⟩ := isTriggerOf_iff.mp h.1
  exact lt_length_of_shapeAt hl

/-- What is written from a baseline that was captured from the same lines. -/
structure WrittenInStep (settings : Settings) (previous : Quantity) (scale : Decimal)
    (lines : List Text) (b : Baseline) (out : List Text) : Prop where
  length : out.length = lines.length
  /-- A trigger of a helper gets the offset that was captured from its own line, scaled, unless the
  offset is zero. -/
  offset : ∀ i l helper, shapeAt lines i = some (.offset l) → helperBefore lines i = some helper →
    ∃ k v, IsTrigger lines helper k i ∧ (b.sequence helper)[k]? = some v ∧
      normalizeTriple settings previous l.values = .ok v ∧
      (tripleIsZero v = .ok true ∧ out[i]? = lines[i]? ∨
        tripleIsZero v = .ok false ∧
          ∃ w, scaleTriple v scale = .ok w ∧ out[i]? = some (l.withValues w))
  /-- A captured offset goes to exactly one trigger. -/
  once : ∀ helper k v, (b.sequence helper)[k]? = some v → ∃! i, IsTrigger lines helper k i
  /-- A rest position of a helper gets what was captured from the last one of this helper. -/
  rest : ∀ i l helper, shapeAt lines i = some (.rest l) → helperBefore lines i = some helper →
    ∃ j m v w, LastRest lines helper j m ∧ normalizeTriple settings previous m.values = .ok v ∧
      b.rest.get? helper = some v ∧ scaleTriple v scale = .ok w ∧ out[i]? = some (l.withValues w)

section Capture

variable {settings : Settings} {lines : List Text} {previous : Quantity} {b : Baseline}

/-- A captured baseline is not short of offsets. -/
theorem writeBones_ne_mismatch_of_capture (h : capture settings lines previous = .ok b)
    (scale : Quantity) (m : Mismatch) : writeBones lines b scale ≠ .error (.mismatch m) := by
  intro hm
  obtain ⟨helper, i, hs, -⟩ := firstSurplus_of_writeBones hm
  exact (short_of_firstSurplus hs).ne (counts_of_capture h helper)

/-- What is stored for a trigger is what was captured from its line. -/
theorem exists_stored_of_isTrigger (h : capture settings lines previous = .ok b) {helper : Text}
    {k i : Nat} {l : TripleLine} (hk : IsTrigger lines helper k i)
    (hs : shapeAt lines i = some (.offset l)) :
    ∃ v, (b.sequence helper)[k]? = some v ∧ normalizeTriple settings previous l.values = .ok v :=
  stores_of_capture h _
    (List.mem_of_getElem? (getElem?_survey_offset.mpr ⟨hs, getElem?_triggersOf.mpr hk⟩))

theorem existsUnique_isTrigger (h : capture settings lines previous = .ok b) {helper : Text}
    {k : Nat} {v : Triple} (hv : (b.sequence helper)[k]? = some v) :
    ∃! i, IsTrigger lines helper k i := by
  obtain ⟨hlt, -⟩ := List.getElem?_eq_some_iff.mp hv
  rw [counts_of_capture h helper] at hlt
  have hi := List.getElem?_eq_getElem hlt
  refine ⟨_, getElem?_triggersOf.mp hi, ?_⟩
  intro j hj
  rw [getElem?_triggersOf.mpr hj] at hi
  exact Option.some.inj hi

/-- What is written by position from a captured baseline is written in step with the capture. -/
theorem writtenInStep_of_writtenByPosition (h : capture settings lines previous = .ok b)
    {scale : Decimal} {out : List Text} (hw : WrittenByPosition b scale lines out) :
    WrittenInStep settings previous scale lines b out where
  length := hw.length
  offset := by
    intro i l helper hs ho
    have hk : IsTrigger lines helper _ i := ⟨isTriggerOf_iff.mpr ⟨⟨l, hs⟩, ho⟩, rfl⟩
    obtain ⟨v, hv, hn⟩ := exists_stored_of_isTrigger h hk hs
    obtain ⟨v', hv', hout⟩ :=
      hw.offset helper _ i l (contains_of_sequence hv) (getElem?_triggersOf.mpr hk) hs
    rw [hv] at hv'
    obtain rfl := Option.some.inj hv'
    exact ⟨_, v, hk, hv, hn, hout⟩
  once := fun helper k v => existsUnique_isTrigger h
  rest := by
    intro i l helper hs ho
    obtain ⟨j, m, v, hlast, hn, hget⟩ := exists_lastRest_of_capture h hs ho
    obtain ⟨w, hscale, hout⟩ := hw.rest i l helper v hs ho hget
    exact ⟨j, m, v, w, hlast, hn, hget, hscale, hout⟩

/-- **Capturing and writing go through a script in step.**  A script is never found at odds with the
baseline that was captured from it, whatever the scale, and where no number gives out every line is
written from what was captured from it. -/
theorem writeBones_of_capture (h : capture settings lines previous = .ok b) (scale : Quantity) :
    (∀ m, writeBones lines b scale ≠ .error (.mismatch m)) ∧
      ((∀ fault, writeBones lines b scale ≠ .error (.fault fault)) →
        ∃ r d, writeBones lines b scale = .ok r ∧ scale.value = .ok d ∧
          WrittenInStep settings previous d lines b r.lines) := by
  refine ⟨writeBones_ne_mismatch_of_capture h scale, ?_⟩
  intro hf
  cases hr : writeBones lines b scale with
  | ok r =>
    obtain ⟨d, hd, hpos⟩ := writtenByPosition_of_writeBones hr
    exact ⟨r, d, rfl, hd, writtenInStep_of_writtenByPosition h hpos⟩
  | error e =>
    cases e with
    | fault f => exact absurd hr (hf f)
    | mismatch m => exact absurd hr (writeBones_ne_mismatch_of_capture h scale m)

end Capture

/-- A line before any helper, a helper with two sections and two rest positions, and in between one
with a trigger but no rest position.  Both rest positions are written from the second. -/
theorem writeBones_of_capture_interleaved :
    let lines : List Text := ["<trigger> 90 9 9 9".toList, "<helper> a".toList,
      "<basepos> 1 2 3".toList, "<trigger> 90 1 0 0".toList, "<helper> b".toList,
      "<trigger> 90 0 0 0".toList, "<helper> a".toList, "<basepos> 4 0 0".toList,
      "<trigger> 90 0 2 0".toList]
    ∃ b r d, capture {} lines (.written "2".toList) = .ok b ∧
      writeBones lines b (.written "3".toList) = .ok r ∧
      WrittenInStep {} (.written "2".toList) d lines b r.lines ∧
      LastRest lines "a".toList 7 ⟨"<basepos> ".toList, ⟨"4".toList, "0".toList, "0".toList⟩, []⟩ ∧
      r.lines[2]? = some "<basepos> 6.000000 0.000000 0.000000".toList := by
  intro lines
  have hsome : (capture {} lines (.written "2".toList)).toOption.isSome := by decide +kernel
  have hrun : ((capture {} lines (.written "2".toList)).toOption.bind fun b =>
      (writeBones lines b (.written "3".toList)).toOption.bind (·.lines[2]?)) =
      some "<basepos> 6.000000 0.000000 0.000000".toList := by
    decide +kernel
  obtain ⟨b, hb⟩ := Option.isSome_iff_exists.mp hsome
  obtain ⟨-, hwrite⟩ := writeBones_of_capture (toOption_eq_some.mp hb) (.written "3".toList)
  rw [hb, Option.bind_some] at hrun
  obtain ⟨r, hr, hline⟩ := Option.bind_eq_some_iff.mp hrun
  have hr := toOption_eq_some.mp hr
  obtain ⟨r', d, hr', -, hstep⟩ := hwrite (by
    intro fault hf
    rw [hr] at hf
    cases hf)
  rw [hr] at hr'
  obtain rfl := Except.ok.inj hr'
  refine ⟨b, r, d, toOption_eq_some.mp hb, hr, hstep, ⟨by decide +kernel, by decide +kernel, ?_⟩,
    hline⟩
  rintro j m hs -
  have hj := lt_length_of_shapeAt hs
  have hlen : lines.length = 9 := rfl
  by_contra hlt
  obtain rfl : j = 8 := by omega
  have hlast : shapeAt lines 8 = some (.offset
      ⟨"<trigger> 90".toList, ⟨"0".toList, "2".toList, "0".toList⟩, []⟩) := by
    decide +kernel
  rw [hlast] at hs
  cases hs

end ModelScale
