import ModelScale.Proofs.Line.Numbers
import ModelScale.Proofs.Vrd.Gaps
import ModelScale.Proofs.Vrd.Restored

/-
# The faults of a rescale

A rescale reads the coordinates on the lines of a script and in its records, brings them to scale 1,
writes them into a marker block, reads them back and scales them.  At each of these stations the
texts are numbers that can be read (`Baseline.Readable`), so nothing can go wrong but the arithmetic
and a marker block that does not fit; and a record whose index has too many digits, which is no
number of the decimals.  Main statements:

* `readable_of_stored`, `readable_of_capture`, `rewritten_of_writeBones`: what is passed on;
* `rescaleBones_fault`: the faults of a rescale.
-/

namespace ModelScale

open Text

/-! ## 1. Three coordinates -/

theorem scaleTriple_fault {v : Triple} {scale : Decimal} {fault : Fault} (hv : v.Readable)
    (h : scaleTriple v scale = .error fault) : fault.Arithmetic := by
  obtain ⟨t, ht, h⟩ := Triple.each_eq_error (f := fun t => scaleLiteral t scale none) h
  refine scaleLiteral_fault (hv t ht) rfl ?_ h
  intro places hp
  cases hp

theorem readable_of_scaleTriple {v w : Triple} {scale : Decimal}
    (h : scaleTriple v scale = .ok w) : w.Readable := by
  obtain ⟨hx, hy, hz⟩ := scaleTriple_steps h
  exact Triple.readable_iff.mpr
    ⟨readable_of_scaleLiteral hx, readable_of_scaleLiteral hy, readable_of_scaleLiteral hz⟩

/-- To tell whether coordinates are zero nothing is calculated. -/
theorem exists_tripleIsZero {v : Triple} (hv : v.Readable) : ∃ zero, tripleIsZero v = .ok zero := by
  obtain ⟨⟨x, hx⟩, ⟨y, hy⟩, ⟨z, hz⟩⟩ := Triple.readable_iff.mp hv
  simp only [tripleIsZero, Triple.toList, List.map_cons, List.map_nil, Quantity.allZero,
    Quantity.value_written, hx, hy, hz, bind, Except.bind]
  split_ifs <;> exact ⟨_, rfl⟩

namespace Baseline

variable {settings : Settings} {previous : Quantity}

theorem normalizeTriple_fault {v : Triple} {p : Decimal} {fault : Fault} (hv : v.Readable)
    (hp : previous.value = .ok p) (hz : p.toRat ≠ 0)
    (h : normalizeTriple settings previous v = .error fault) : fault.Arithmetic := by
  obtain ⟨t, ht, h⟩ :=
    Triple.each_eq_error (f := fun t => normalizeLiteral t previous settings.normalizedPlaces) h
  exact normalizeLiteral_fault (hv t ht) hp hz h

theorem readable_of_normalizeTriple {v w : Triple}
    (h : normalizeTriple settings previous v = .ok w) : w.Readable := by
  obtain ⟨hx, hy, hz⟩ := normalizeTriple_steps h
  exact Triple.readable_iff.mpr ⟨readable_of_normalizeLiteral hx, readable_of_normalizeLiteral hy,
    readable_of_normalizeLiteral hz⟩

/-! ## 2. Baselines -/

/-- Whatever the baseline holds can be read. -/
structure Readable (b : Baseline) : Prop where
  rest : ∀ helper v, b.rest.get? helper = some v → v.Readable
  offsets : ∀ helper, ∀ v ∈ b.sequence helper, v.Readable

theorem readable_empty : (∅ : Baseline).Readable :=
  ⟨fun _ _ h => (nomatch h), fun _ _ h => (nomatch h)⟩

theorem Readable.addRest {b : Baseline} (hb : b.Readable) (helper : Text) {v : Triple}
    (hv : v.Readable) : (b.addRest helper v).Readable := by
  refine ⟨fun k w hw => ?_, hb.offsets⟩
  rw [Baseline.addRest, Roster.get?_put] at hw
  split at hw
  · exact Option.some.inj hw ▸ hv
  · exact hb.rest k w hw

theorem Readable.addOffset {b : Baseline} (hb : b.Readable) (helper : Text) {v : Triple}
    (hv : v.Readable) : (b.addOffset helper v).Readable := by
  refine ⟨hb.rest, fun k w hw => ?_⟩
  rw [sequence_addOffset] at hw
  split at hw
  · rcases List.mem_append.mp hw with hw | hw
    · exact hb.offsets _ w hw
    · exact List.mem_singleton.mp hw ▸ hv
  · exact hb.offsets k w hw

/-- **What is captured can be read**, even if it is not what stands on the lines. -/
theorem readable_of_capture {lines : List Text} {b : Baseline}
    (h : capture settings lines previous = .ok b) : b.Readable := by
  refine foldlM_induction (P := Readable) (fun site _ c d hc hd => ?_) readable_empty h
  rcases captureSite_cases hd with
    rfl | ⟨helper, line, v, -, hv, rfl⟩ | ⟨helper, ordinal, line, v, -, hv, rfl⟩
  · exact hc
  · exact hc.addRest helper (readable_of_normalizeTriple hv)
  · exact hc.addOffset helper (readable_of_normalizeTriple hv)

/-- **What is stored can be read**, since the records hold numbers. -/
theorem readable_of_stored {lines : List Text} {b : Baseline} (hr : WithinReach lines)
    (h : stored settings lines = .ok (some b)) : b.Readable := by
  constructor
  · intro helper v hv
    rw [(getLast?_of_stored h helper).1] at hv
    obtain ⟨line, hl, hline⟩ := List.mem_filterMap.mp (List.mem_of_getLast? hv)
    obtain ⟨r, hread, hrest⟩ := Option.bind_eq_some_iff.mp hline
    split at hrest
    · obtain rfl := Option.some.inj hrest
      exact Triple.readable_of_mem_triplesOn hr hl (by simp [triplesOn, hread])
    · cases hrest
  · intro helper v hv
    obtain ⟨i, hi⟩ := List.mem_iff_getElem?.mp hv
    rw [(getLast?_of_stored h helper).2 i] at hi
    obtain ⟨line, hl, hline⟩ := List.mem_filterMap.mp (List.mem_of_getLast? hi)
    obtain ⟨record, hread, hoffset⟩ := Option.bind_eq_some_iff.mp hline
    obtain ⟨r, hrecord, hvalues⟩ := Option.bind_eq_some_iff.mp hoffset
    obtain ⟨w, hw, ⟨r', rfl, rfl⟩ | ⟨count, rfl, -⟩⟩ := StoredOffset.read?_cases hread
    · obtain rfl := Option.some.inj hrecord
      unfold StoredOffset.valuesFor at hvalues
      split at hvalues
      · obtain rfl := Option.some.inj hvalues
        exact Triple.readable_of_mem_triplesOn hr hl (by simp [triplesOn, hw])
      · cases hvalues
    · cases hrecord

end Baseline

/-! ## 3. Sites -/

open Baseline

theorem StoredOffset.read?_of_classify {g : Region} {line : Text} {fault : Fault}
    (h : (classify g line).1 = some (.unreadable fault)) : read? line = some (.error fault) := by
  refine record?_eq_unreadable.mp ?_
  unfold classify at h
  cases hr : VrdShape.record? line with
  | some record =>
    rw [hr] at h
    exact h
  | none =>
    rw [hr] at h
    dsimp only at h
    split at h
    · cases h
    · simp only [VrdShape.live?, Option.orElse_eq_orElse, Option.orElse_eq_or,
        Option.or_eq_some_iff, Option.map_eq_some_iff] at h
      simp at h

/-- A site that cannot be read is a record that cannot be read. -/
theorem Fault.ofIndex_of_survey {lines : List Text} {fault : Fault}
    (h : Site.unreadable fault ∈ survey lines) : fault.OfIndex lines := by
  obtain ⟨i, hi⟩ := List.mem_iff_getElem?.mp h
  obtain ⟨line, hline⟩ := exists_text hi
  obtain ⟨g, owner, earlier, hs⟩ := exists_shape_of_survey hline hi
  refine Fault.ofIndex_of_read? (List.mem_of_getElem? hline) ?_
  refine StoredOffset.read?_of_classify (g := g) ?_
  generalize (classify g line).1 = shape at hs
  rcases shape with _ | (_ | _ | _ | _ | _ | _) <;> cases hs
  rfl

/-- The coordinates of a site are taken from its line. -/
theorem readable_of_survey {lines : List Text} (hr : WithinReach lines) {site : Site}
    (hs : site ∈ survey lines) {l : TripleLine} (hl : site.line? = some l) : l.values.Readable := by
  obtain ⟨i, hi⟩ := List.mem_iff_getElem?.mp hs
  obtain ⟨line, hline⟩ := exists_text hi
  refine Triple.readable_of_mem_triplesOn hr (List.mem_of_getElem? hline) ?_
  rcases read?_of_survey hline hi hl with h | h <;> simp [triplesOn, h]

/-- **A site is captured**, or the arithmetic fails. -/
theorem captureSite_fault {settings : Settings} {previous : Quantity} {b : Baseline} {site : Site}
    {p : Decimal} {fault : Fault} (hs : ∀ l ∈ site.line?, l.values.Readable)
    (hp : previous.value = .ok p) (hz : p.toRat ≠ 0)
    (h : captureSite settings previous b site = .error fault) :
    fault.Arithmetic ∨ site = .unreadable fault := by
  rcases site with _ | ⟨_ | helper, l⟩ | ⟨_ | helper, ordinal, l⟩ | f
  case unreadable => exact Or.inr (Except.error.inj h ▸ rfl)
  case rest.some => exact Or.inl (normalizeTriple_fault (hs l rfl) hp hz (map_eq_error.mp h))
  case offset.some => exact Or.inl (normalizeTriple_fault (hs l rfl) hp hz (map_eq_error.mp h))
  all_goals cases h

/-- **A site is written**, or the arithmetic fails, or the baseline does not fit. -/
theorem writeSite_fault {b : Baseline} {scale : Decimal} {n : Nat} {text : Text} {site : Site}
    {fault : Fault} (hb : b.Readable) (hs : ∀ l ∈ site.line?, l.values.Readable)
    (h : writeSite b scale n text site = .error (.fault fault)) :
    fault.Arithmetic ∨ site = .unreadable fault := by
  cases writeSite_eq_iff.mp h with
  | unreadable => exact Or.inr rfl
  | restFault hv hf =>
    obtain ⟨helper, -, hv⟩ := Option.bind_eq_some_iff.mp hv
    exact Or.inl (scaleTriple_fault (hb.rest helper _ hv) hf)
  | foreignFault _ hf =>
    obtain ⟨zero, hzero⟩ := exists_tripleIsZero (hs _ rfl)
    rw [hzero] at hf
    cases hf
  | zeroFault _ hk hf =>
    obtain ⟨zero, hzero⟩ := exists_tripleIsZero (hb.offsets _ _ (List.mem_of_getElem? hk))
    rw [hzero] at hf
    cases hf
  | offsetFault _ hk _ hf =>
    exact Or.inl (scaleTriple_fault (hb.offsets _ _ (List.mem_of_getElem? hk)) hf)

/-! ## 4. Scripts -/

/-- A line of a script as it is written from a baseline: the line as it was, or coordinates that
can be read in the place of its own. -/
inductive Rewritten (line : Text) : Text → Prop where
  | copied : Rewritten line line
  | rebuilt {l : TripleLine} {v : Triple}
    (hl : TripleLine.readRest? line = some l ∨ TripleLine.readOffset? line = some l)
    (hv : v.Readable) : Rewritten line (l.withValues v)

/-- **What is written can be read.** -/
theorem rewritten_of_writeBones {lines : List Text} {b : Baseline} {scale : Quantity}
    {r : RescaledBones} (h : writeBones lines b scale = .ok r) :
    List.Forall₂ Rewritten lines r.lines := by
  obtain ⟨d, written, -, hw, rfl⟩ := writeBones_eq_ok.mp h
  have hlen := (getElem?_writeSites hw).1
  rw [List.forall₂_iff_get]
  refine ⟨by simp [hlen], fun i hi hj => ?_⟩
  have hline : lines[i]? = some lines[i] := List.getElem?_eq_getElem hi
  obtain ⟨site, hs⟩ : ∃ site, (survey lines)[i]? = some site :=
    ⟨_, List.getElem?_eq_getElem (by rwa [survey_length])⟩
  obtain ⟨w, hw, hwrite⟩ := exists_written_line hw hline hs
  have hget : (written.map (·.text))[i] = w.text :=
    Option.some.inj ((List.getElem?_eq_getElem hj).symm.trans hw)
  simp only [List.get_eq_getElem]
  rw [hget]
  rcases text_of_writeSite hwrite with ht | ⟨l, values, v, hl, hv, ht⟩
  · rw [ht]
    exact .copied
  · rw [ht]
    exact .rebuilt (read?_of_survey hline hs hl) (readable_of_scaleTriple hv)

theorem writeBones_fault {lines : List Text} (hr : WithinReach lines) {b : Baseline}
    (hb : b.Readable) {scale : Quantity} {n : Decimal} (hn : scale.value = .ok n) {fault : Fault}
    (h : writeBones lines b scale = .error (.fault fault)) :
    fault.Arithmetic ∨ fault.OfIndex lines := by
  unfold writeBones at h
  rw [hn] at h
  obtain ⟨d, -, h⟩ := (bind_eq_error.mp h).resolve_left fun h => nomatch h
  rcases bind_eq_error.mp h with h | ⟨written, -, h⟩
  · obtain ⟨i, text, site, hp, hsite, -⟩ := exists_writeSite_eq_error h
    have hs := List.mem_of_getElem? (List.getElem?_zip_eq_some.mp hp).2
    refine (writeSite_fault hb (fun l hl => readable_of_survey hr hs hl) hsite).imp id ?_
    rintro rfl
    exact Fault.ofIndex_of_survey hs
  · exact absurd h pure_ne_error

theorem capture_fault {settings : Settings} {lines : List Text} (hr : WithinReach lines)
    {previous : Quantity} {p : Decimal} (hp : previous.value = .ok p) (hz : p.toRat ≠ 0)
    {fault : Fault} (h : capture settings lines previous = .error fault) :
    fault.Arithmetic ∨ fault.OfIndex lines := by
  obtain ⟨site, hs, b, hsite⟩ := foldlM_eq_error h
  refine (captureSite_fault (fun l hl => readable_of_survey hr hs hl) hp hz hsite).imp id ?_
  rintro rfl
  exact Fault.ofIndex_of_survey hs

/-- **The faults of a rescale** are those of the arithmetic, and that of a record whose index has
too many digits. -/
theorem rescaleBones_fault {settings : Settings} {lines : List Text} (hr : WithinReach lines)
    {new previous : Quantity} {n p : Decimal} (hn : new.value = .ok n) (hp : previous.value = .ok p)
    (hz : p.toRat ≠ 0) {fault : Fault}
    (h : rescaleBones settings lines new previous = .error (.fault fault)) :
    fault.Arithmetic ∨ fault.OfIndex lines := by
  unfold rescaleBones at h
  rcases bind_eq_error.mp h with h | ⟨b?, hb, h⟩
  · obtain ⟨-, pre, line, post, rfl, hline, -⟩ := stored_eq_fault_iff.mp h
    exact Or.inr (Fault.ofIndex_of_read? (by simp) hline)
  cases b? with
  | some b => exact writeBones_fault hr (readable_of_stored hr hb) hn h
  | none =>
    rcases bind_eq_error.mp h with h | ⟨b, hb, h⟩
    · obtain ⟨f, hf, he⟩ := mapError_eq_error.mp h
      exact BonesError.fault.inj he ▸ capture_fault hr hp hz hf
    · split at h
      · rcases bind_eq_error.mp h with h | ⟨w, -, h⟩
        · exact writeBones_fault hr readable_empty hn h
        · exact absurd h pure_ne_error
      · rcases bind_eq_error.mp h with h | ⟨w, -, h⟩
        · exact writeBones_fault hr (readable_of_capture (mapError_eq_ok.mp hb)) hn h
        · exact absurd h pure_ne_error

end ModelScale
