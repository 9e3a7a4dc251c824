import ModelScale.Proofs.Vrd.Stored

/-
# Rescales do not compound

However often a script is rescaled, the coordinates are those of one rescale from the original to
the scale asked for last.  The proof has three cases, after what the first rescale finds
(`Rescales`):

* a marker block: it is the same after the rescale (`Recasts.markerLines_eq`);
* no block, but a rest position: a block is appended, and what is read from it agrees with what was
  captured (`writeBones_of_appendMarker`);
* neither: the script is left as it is, and so it is the second time.

In each of them the second rescale writes from a baseline that agrees with the first one on every
site, and writing a written script again is writing the original (`writeSites_written`).
`rescale_twice` puts the cases together, and `rescale_run` follows by induction on the number of
rescales.
-/

namespace ModelScale

open Text Baseline

/-! ## 1. The end of a script -/

theorem withValues_not_blank {l : TripleLine} {v : Triple} (h : v.Scaled) :
    isEmptyLine (l.withValues v) = false := by
  obtain ⟨⟨w, b, c, d, hw, -, -, -, -, -, e⟩, -⟩ := h.coordinates
  rw [← Bool.not_eq_true, blanks_iff, TripleLine.withValues_eq, e]
  intro hb
  obtain ⟨a, x, hx⟩ := List.exists_cons_of_ne_nil (Numeral.ne_nil_of_isNumeral hw.1)
  have hm := hb a (by simp [hx])
  have hi := Numeral.inked_of_isNumeral hw.1 a (by simp [hx])
  rw [hm] at hi
  cases hi

/-- A line with coordinates is not blank. -/
theorem not_blank_of_hasCoordinates {g : Region} {line : Text} {shape : VrdShape}
    (h : (classify g line).1 = some shape) (hs : shape.HasCoordinates) :
    isEmptyLine line = false := by
  rw [← Bool.not_eq_true, blanks_iff]
  intro hb
  obtain ⟨hi, -, hl⟩ := classify_eq_live (Prod.ext h rfl) hs
  have hmem : ∀ {l : TripleLine}, l.before <+: line → '>' ∈ l.before → False := by
    intro l hp ht
    exact absurd (hb '>' (hp.subset ht)) (by decide)
  cases shape with
  | rest l =>
    obtain ⟨hp, ht⟩ := TripleLine.readRest?_before (live?_eq_rest.mp hl).2
    exact hmem hp ht
  | offset l =>
    obtain ⟨t, rfl, ht, -⟩ := TripleLine.readOffset?_eq_some (live?_eq_offset.mp hl).2.2
    obtain ⟨v, b, c, d, hv, -, -, -, -, -, rfl⟩ := ht
    obtain ⟨a, x, hx⟩ := List.exists_cons_of_ne_nil (Numeral.ne_nil_of_isNumeral hv.1)
    have hm := hb a (by simp [hx])
    have hi := Numeral.inked_of_isNumeral hv.1 a (by simp [hx])
    rw [hm] at hi
    cases hi
  | _ => cases hs

theorem Recast.isEmptyLine_eq {g : Region} {line line' : Text} (h : Recast g line line') :
    isEmptyLine line' = isEmptyLine line := by
  cases h with
  | same => rfl
  | @rest l v h hv =>
    rw [withValues_not_blank hv, not_blank_of_hasCoordinates h trivial]
  | @offset l v h hv =>
    rw [withValues_not_blank hv, not_blank_of_hasCoordinates h trivial]

theorem Recasts.getLast?_eq {g : Region} {lines lines' : List Text} (h : Recasts g lines lines') :
    lines'.getLast?.map isEmptyLine = lines.getLast?.map isEmptyLine := by
  induction h with
  | nil => rfl
  | @cons g line line' rest rest' h hr ih =>
    cases hr with
    | nil => simp [h.isEmptyLine_eq]
    | cons _ _ => rwa [List.getLast?_cons_cons, List.getLast?_cons_cons]

/-- A marker block is set off from a recast script as from the script itself. -/
theorem exists_tail_appendMarker (b : Baseline) (lines : List Text) :
    ∃ tail, (∀ line ∈ tail, line ∈ [] :: b.markerBlock {}) ∧
      (∃ gap, tail = gap ++ b.markerBlock {}) ∧
      ∀ {lines' : List Text}, lines'.getLast?.map isEmptyLine = lines.getLast?.map isEmptyLine →
        appendMarker {} lines' b = lines' ++ tail := by
  refine ⟨(if (lines.getLast?.map isEmptyLine).getD true then [] else [[]]) ++ b.markerBlock {},
    ?_, ⟨_, rfl⟩, ?_⟩
  · intro line hl
    rcases List.mem_append.mp hl with hl | hl
    · split at hl
      · cases hl
      · rw [List.mem_singleton.mp hl]
        exact List.mem_cons_self
    · exact List.mem_cons_of_mem _ hl
  · intro lines' h
    rw [appendMarker, h, List.append_assoc]

/-- A script has a marker block once one is appended. -/
theorem hasMarker_appendMarker (b : Baseline) (lines : List Text) :
    hasMarker {} (appendMarker {} lines b) = true :=
  hasMarker_append_markerBlock b _

/-! ## 2. Writing from a baseline -/

/-- Two rescales that made the same of a script: its lines, and what was counted on them. -/
structure RescaledBones.SameScript (r s : RescaledBones) : Prop where
  lines : r.lines = s.lines
  restCount : r.restCount = s.restCount
  offsetCount : r.offsetCount = s.offsetCount
  nonzeroCount : r.nonzeroCount = s.nonzeroCount

theorem countP_of_sameFrame {s t : List Site} (h : List.Forall₂ Site.SameFrame s t) :
    s.countP Site.isRest = t.countP Site.isRest ∧
      s.countP Site.isOffset = t.countP Site.isOffset := by
  induction h with
  | nil => exact ⟨rfl, rfl⟩
  | @cons a b s t hab _ ih =>
    have hk : a.isRest = b.isRest ∧ a.isOffset = b.isOffset := by
      cases a <;> cases b <;> first | exact ⟨rfl, rfl⟩ | cases hab
    rw [List.countP_cons, List.countP_cons, List.countP_cons, List.countP_cons, ih.1, ih.2, hk.1,
      hk.2]
    exact ⟨rfl, rfl⟩

/-- A written script, written again. -/
theorem writeBones_written {b : Baseline} {first second : Quantity} {lines : List Text}
    {r s : RescaledBones} (hu : ∀ line ∈ lines, Unbroken line)
    (h1 : writeBones lines b first = .ok r) (h2 : writeBones r.lines b second = .ok s) :
    ∃ t, writeBones lines b second = .ok t ∧ t.SameScript s := by
  obtain ⟨d, written, -, hw, rfl⟩ := writeBones_eq_ok.mp h1
  obtain ⟨e, again, he, ha, rfl⟩ := writeBones_eq_ok.mp h2
  have hsame := writeSites_written hu hw e 1
  obtain ⟨hc1, hc2⟩ :=
    countP_of_sameFrame ((recasts_of_writeSites hw).survey_sameFrame hu none []).1
  exact ⟨_, writeBones_eq_ok.mpr ⟨e, again, he, hsame.symm.trans ha, rfl⟩, rfl, hc1.symm, hc2.symm,
    rfl⟩

/-- Lines behind a script that are nothing to a rescale are copied behind what is written. -/
theorem writeBones_append_quiet {b : Baseline} {new : Quantity} {lines tail : List Text}
    {s : RescaledBones} (hq : ∀ line ∈ tail, ∀ g, VrdShape.Quiet (classify g line).1)
    (h : writeBones (lines ++ tail) b new = .ok s) :
    ∃ t, writeBones lines b new = .ok t ∧
      RescaledBones.SameScript { t with lines := t.lines ++ tail } s := by
  have hsurvey : survey (lines ++ tail) = survey lines ++ List.replicate tail.length .other :=
    survey_append_quiet hq
  obtain ⟨d, written, hd, hw, rfl⟩ := writeBones_eq_ok.mp h
  rw [hsurvey, List.zip_append (by simp)] at hw
  obtain ⟨ws, vs, hws, hvs, rfl⟩ := writeSites_append_eq_ok.mp hw
  rw [writeSites_other] at hvs
  obtain rfl := Except.ok.inj hvs
  have hzero : ∀ p : Site → Bool, p .other = false →
      (List.replicate tail.length Site.other).countP p = 0 := by
    intro p hp
    rw [List.countP_replicate]
    simp [hp]
  refine ⟨_, writeBones_eq_ok.mpr ⟨d, ws, hd, hws, rfl⟩, ?_, ?_, ?_, ?_⟩
  · simp [List.map_append, Function.comp_def]
  · dsimp only
    rw [hsurvey, List.countP_append, hzero _ rfl, Nat.add_zero]
  · dsimp only
    rw [hsurvey, List.countP_append, hzero _ rfl, Nat.add_zero]
  · rw [List.countP_append]
    simp [List.countP_map, Function.comp_def]

/-- Baselines that agree on a script make the same of it. -/
theorem writeBones_congr {b c : Baseline} {new : Quantity} {lines : List Text} {s : RescaledBones}
    (ha : ∀ site ∈ survey lines, b.Agree c site) (h : writeBones lines c new = .ok s) :
    ∃ t, writeBones lines b new = .ok t ∧ t.SameScript s := by
  obtain ⟨d, written, hd, hw, rfl⟩ := writeBones_eq_ok.mp h
  have hc : writeSites b d 1 (lines.zip (survey lines)) =
      writeSites c d 1 (lines.zip (survey lines)) :=
    writeSites_congr (fun p hp => ha p.2 (List.of_mem_zip hp).2) d 1
  exact ⟨_, writeBones_eq_ok.mpr ⟨d, written, hd, hc.trans hw, rfl⟩, rfl, rfl, rfl, rfl⟩

theorem agree_of_sameFrame {b c : Baseline} {s t : List Site} (h : List.Forall₂ Site.SameFrame s t)
    (ha : ∀ site ∈ t, b.Agree c site) : ∀ site ∈ s, b.Agree c site := by
  induction h with
  | nil => exact ha
  | cons hf _ ih =>
    intro site hs
    rcases List.mem_cons.mp hs with rfl | hs
    · exact (ha _ List.mem_cons_self).of_sameFrame hf
    · exact ih (fun u hu => ha u (List.mem_cons_of_mem _ hu)) site hs

theorem RescaledBones.SameScript.trans {r s t : RescaledBones} (h : r.SameScript s)
    (h' : s.SameScript t) : r.SameScript t :=
  ⟨h.lines.trans h'.lines, h.restCount.trans h'.restCount, h.offsetCount.trans h'.offsetCount,
    h.nonzeroCount.trans h'.nonzeroCount⟩

/-! ## 3. The first rescale of a script -/

/-- Without a baseline every line is copied. -/
theorem writeBones_empty {new : Quantity} {lines : List Text} {r : RescaledBones}
    (h : writeBones lines ∅ new = .ok r) : r.lines = lines := by
  obtain ⟨d, written, -, hw, rfl⟩ := writeBones_eq_ok.mp h
  dsimp only
  have hsite : ∀ {n : Nat} {text : Text} {site : Site} {w : WrittenLine},
      writeSite ∅ d n text site = .ok w → w.text = text :=
    writeSite_copied (fun _ _ _ => rfl) (fun _ _ _ _ => rfl)
  have hall : ∀ (lines : List Text) (sites : List Site) (n : Nat) (written : List WrittenLine),
      lines.length = sites.length → writeSites ∅ d n (lines.zip sites) = .ok written →
      written.map (·.text) = lines := by
    intro lines
    induction lines with
    | nil =>
      intro sites n written _ hw
      cases hw
      rfl
    | cons line lines ih =>
      intro sites n written hl hw
      cases sites with
      | nil => cases hl
      | cons site sites =>
        obtain ⟨w, ws, h1, h2, rfl⟩ := writeSites_cons_eq_ok.mp hw
        rw [List.map_cons, hsite h1, ih sites (n + 1) ws (Nat.succ.inj hl) h2]
  exact hall lines (survey lines) 1 written (survey_length lines).symm hw

/-- A capture that finds no rest position finds none at any previous scale. -/
theorem capture_rest_isEmpty {settings : Settings} {lines : List Text} {p q : Quantity}
    {b c : Baseline} (hb : capture settings lines p = .ok b) (hc : capture settings lines q = .ok c)
    (h : b.rest.isEmpty = true) : c.rest.isEmpty = true := by
  have hno : ∀ site ∈ survey lines, ∀ helper line, site ≠ .rest (some helper) line := by
    rintro site hs helper line rfl
    obtain ⟨v, hv⟩ := Roster.contains_eq_true.mp (covers_of_capture hb _ hs)
    have hm := Roster.mem_of_get? hv
    rw [Roster.isEmpty, List.isEmpty_iff] at h
    rw [h] at hm
    cases hm
  have hsite : ∀ site ∈ survey lines, ∀ d e : Baseline, d.rest.isEmpty = true →
      captureSite settings q d site = .ok e → e.rest.isEmpty = true := by
    intro site hs d e hd he
    rcases captureSite_cases he with
      rfl | ⟨helper, line, v, rfl, -, -⟩ | ⟨helper, ordinal, line, v, -, -, rfl⟩
    · exact hd
    · exact absurd rfl (hno _ hs helper line)
    · exact hd
  exact foldlM_induction (P := fun b : Baseline => b.rest.isEmpty = true) hsite rfl hc

/-! ## 4. Two rescales and more -/

/-- **A script with the block of what was captured behind it** is written from the block as it would
be written from what was captured. -/
theorem writeBones_of_appendMarker {lines : List Text} (hu : ∀ line ∈ lines, Unbroken line)
    {base : Baseline} {a b p q : Quantity} {w s : RescaledBones}
    (hcap : capture {} lines p = .ok base) (hw : writeBones lines base a = .ok w)
    (h : rescaleBones {} (appendMarker {} w.lines base) b q = .ok s) :
    ∃ t, writeBones lines base b = .ok t ∧
      RescaledBones.SameScript { t with lines := appendMarker {} t.lines base } s := by
  obtain ⟨stored?, hs, h⟩ := exists_stored_of_hasMarker (hasMarker_appendMarker base w.lines) h
  have hrec := recasts_of_writeBones hw
  have hwritable := writable_of_capture hcap
  obtain ⟨tail, htail, ⟨gap, hgap⟩, happ⟩ := exists_tail_appendMarker base lines
  rw [happ hrec.getLast?_eq] at hs h
  rw [hgap, ← List.append_assoc] at hs
  obtain ⟨hagree, hread⟩ := agree_of_stored hwritable hs
  have hquiet : ∀ line ∈ tail, ∀ g, VrdShape.Quiet (classify g line).1 := by
    intro line hl
    exact quiet_markerBlock hwritable hread line (htail line hl)
  have hsites : ∀ site ∈ survey w.lines, base.Agree stored? site :=
    agree_of_sameFrame (hrec.survey_sameFrame hu none []).1 fun site hs =>
      hagree site (covers_of_capture hcap site hs)
  obtain ⟨t₁, ht₁, hsame₁⟩ := writeBones_append_quiet hquiet h
  obtain ⟨t₂, ht₂, hsame₂⟩ := writeBones_congr hsites ht₁
  obtain ⟨t, ht, hsame⟩ := writeBones_written hu hw ht₂
  have hsame := hsame.trans hsame₂
  refine ⟨t, ht, ?_, hsame.restCount.trans hsame₁.restCount,
    hsame.offsetCount.trans hsame₁.offsetCount, hsame.nonzeroCount.trans hsame₁.nonzeroCount⟩
  rw [happ (recasts_of_writeBones ht).getLast?_eq, hsame.lines]
  exact hsame₁.lines

/-- **A rescale of a rescaled script makes of it what it makes of the original.** -/
theorem rescale_twice {lines : List Text} (hu : ∀ line ∈ lines, Unbroken line)
    {a b p q : Quantity} {r s : RescaledBones} (h1 : rescaleBones {} lines a p = .ok r)
    (h2 : rescaleBones {} r.lines b q = .ok s) :
    ∃ t, rescaleBones {} lines b p = .ok t ∧ t.SameScript s := by
  cases rescaleBones_eq_ok.mp h1 with
  | stored hs hw =>
    -- a marker block, which the rescale leaves as it is
    have hs' := stored_eq_ok_congr ((recasts_of_writeBones hw).markerLines_eq {}).symm hs
    rw [rescaleBones_of_stored hs'] at h2
    rw [rescaleBones_of_stored hs]
    exact writeBones_written hu hw h2
  | copied hs hcap hrest hw =>
    -- nothing to scale: the script is what it was
    rw [writeBones_empty hw] at h2
    cases rescaleBones_eq_ok.mp h2 with
    | stored hs' =>
      rw [hs] at hs'
      cases hs'
    | copied _ _ _ hv =>
      exact ⟨_, rescaleBones_eq_ok.mpr (.copied hs hcap hrest hv), rfl, rfl, rfl, rfl⟩
    | captured _ hcap' hrest' =>
      rw [capture_rest_isEmpty hcap hcap' hrest] at hrest'
      cases hrest'
  | captured hs hcap hrest hw =>
    -- the block that was appended stores what was captured
    obtain ⟨t, ht, hsame⟩ := writeBones_of_appendMarker hu hcap hw h2
    exact ⟨_, rescaleBones_eq_ok.mpr (.captured hs hcap hrest ht), hsame.lines, hsame.restCount,
      hsame.offsetCount, hsame.nonzeroCount⟩

/-- Rescales one after another, each to a new scale and with a previous one. -/
def rescaleAll (lines : List Text) (steps : List (Quantity × Quantity)) :
    Except BonesError (List Text) :=
  steps.foldlM (fun lines (new, previous) => (·.lines) <$> rescaleBones {} lines new previous) lines

/-- What a run of rescales leaves is what its last scale and its first previous scale make of the
original. -/
theorem rescale_run {lines : List Text} (hu : ∀ line ∈ lines, Unbroken line)
    (first : Quantity × Quantity) (later : List (Quantity × Quantity)) {final : List Text}
    (h : rescaleAll lines (first :: later) = .ok final) :
    ∃ t, rescaleBones {} lines ((first :: later).getLast (by simp)).1 first.2 = .ok t ∧
      t.lines = final := by
  induction later using List.reverseRecOn generalizing final with
  | nil =>
    rw [rescaleAll, List.foldlM_cons] at h
    obtain ⟨ls, hls, h⟩ := bind_eq_ok.mp h
    obtain ⟨t, ht, rfl⟩ := map_eq_ok.mp hls
    exact ⟨t, ht, pure_eq_ok.mp h⟩
  | append_singleton later last ih =>
    rw [rescaleAll, ← List.cons_append, List.foldlM_append] at h
    obtain ⟨middle, hm, h⟩ := bind_eq_ok.mp h
    obtain ⟨t, ht, rfl⟩ := ih hm
    rw [List.foldlM_cons] at h
    obtain ⟨ls, hls, h⟩ := bind_eq_ok.mp h
    obtain ⟨s, hs, rfl⟩ := map_eq_ok.mp hls
    obtain ⟨u, hr, hsame⟩ := rescale_twice hu ht hs
    refine ⟨u, ?_, hsame.lines.trans (pure_eq_ok.mp h)⟩
    rw [← hr]
    congr 2
    simp

/-- **Rescales do not compound.**  A second rescale makes of a script what it would have made of the
original, taking the first one's previous scale; and so does the last of any run of rescales. -/
theorem rescales_do_not_compound (lines : List Text) (hu : ∀ line ∈ lines, Unbroken line) :
    (∀ (a b p q : Quantity) (r s : RescaledBones), rescaleBones {} lines a p = .ok r →
      rescaleBones {} r.lines b q = .ok s →
        ∃ t, rescaleBones {} lines b p = .ok t ∧ t.SameScript s) ∧
    ∀ (first : Quantity × Quantity) (later : List (Quantity × Quantity)) (final : List Text),
      rescaleAll lines (first :: later) = .ok final →
        ∃ t, rescaleBones {} lines ((first :: later).getLast (by simp)).1 first.2 = .ok t ∧
          t.lines = final :=
  ⟨fun _ _ _ _ _ _ h1 h2 => rescale_twice hu h1 h2,
    fun first later _ h => rescale_run hu first later h⟩

/-- A small script taken from 2 to 3 and on to 0.5, as against one step. -/
theorem rescales_do_not_compound_small :
    let lines : List Text := ["<helper> h".toList, "<basepos> 2 0 4".toList,
      "<trigger> 90 1 0 0 -1.50".toList, "<trigger> 90 0 0 0".toList]
    ∃ r s t, rescaleBones {} lines (.written "3".toList) (.written "2".toList) = .ok r ∧
      rescaleBones {} r.lines (.written "0.5".toList) (.written "3".toList) = .ok s ∧
      rescaleBones {} lines (.written "0.5".toList) (.written "2".toList) = .ok t ∧
      t.SameScript s := by
  intro lines
  have hboth : ((rescaleBones {} lines (.written "3".toList) (.written "2".toList)).toOption.bind
      fun r => (rescaleBones {} r.lines (.written "0.5".toList) (.written "3".toList)).toOption
      ).isSome = true := by
    decide +kernel
  obtain ⟨s, hs⟩ := Option.isSome_iff_exists.mp hboth
  obtain ⟨r, hr, hs⟩ := Option.bind_eq_some_iff.mp hs
  have hr := toOption_eq_some.mp hr
  have hs := toOption_eq_some.mp hs
  obtain ⟨t, ht, hsame⟩ :=
    (rescales_do_not_compound lines (by decide)).1 _ _ _ _ r s hr hs
  exact ⟨r, s, t, hr, hs, ht, hsame⟩

end ModelScale
