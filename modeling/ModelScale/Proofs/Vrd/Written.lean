import ModelScale.Proofs.Vrd.Compounding

/-
# What a rescale leaves can be written

A rescaled script goes to a file and comes back from it, so its lines have to survive that: each has
to be on one line and faithful.  A line with other coordinates is, since numbers and spaces are
plain and what stands around them was there before.  A record is, since the helper in it was read
from a line of the script.  Main statements:

* `intact_of_rescaleBones`: the lines of a rescaled script are intact if those of the script were;
* `hasMarker_of_changed`: a rescale that changes a script leaves a marker block in it.
-/

namespace ModelScale

open Text Baseline

/-! ## 1. Lines that survive -/

/-- A line that is read back as it was written: it is one line, and no carriers in it spell a
character. -/
structure Intact (line : Text) : Prop where
  unbroken : Unbroken line
  faithful : Faithful line

theorem Intact.of_plain {line : Text} (hu : Unbroken line) (hp : ∀ c ∈ line, Plain c) :
    Intact line :=
  ⟨hu, faithful_of_plain hp⟩

theorem Intact.piece {line part : Text} (h : Intact line) (hp : part <:+: line) : Intact part :=
  ⟨fun hm => h.unbroken (hp.subset hm), h.faithful.piece hp⟩

theorem intact_of_numeralChars {t : Text} (h : ∀ c ∈ t, NumeralChar c) : Intact t :=
  .of_plain (fun hm => (h _ hm).ne (by decide) (by decide) rfl)
    fun c hc => plain_of_numeralChar (h c hc)

theorem intact_of_isNumeral {t : Text} (h : isNumeral t = true) : Intact t :=
  intact_of_numeralChars (Numeral.numeralChars_of_isNumeral h)

/-- Fields joined with spaces. -/
theorem intact_commentOf {fields : List Text} (h : ∀ t ∈ fields, Intact t) :
    Intact (commentOf fields) := by
  have hmark : Intact ['/', '/'] := .of_plain (by decide) (by decide)
  have hall : ∀ t ∈ ['/', '/'] :: fields, Intact t := List.forall_mem_cons.mpr ⟨hmark, h⟩
  exact ⟨unbroken_join (by decide) fun t ht => (hall t ht).unbroken,
    faithful_join (by decide) (by simp) fun t ht => (hall t ht).faithful⟩

/-! ## 2. Recast lines -/

/-- **A recast line** is the line itself, or has other coordinates between what stood around the
old ones. -/
theorem Recast.exists_between {g : Region} {line line' : Text} (h : Recast g line line')
    (hu : Unbroken line) :
    line' = line ∨ ∃ p t u r, line = p ++ (t ++ r) ∧ line' = p ++ (u ++ r) ∧ Coordinates t ∧
      Coordinates u ∧ Unbroken u := by
  cases h with
  | same => exact Or.inl rfl
  | @rest l v h hv =>
    obtain ⟨-, -, hl⟩ := classify_eq_live (Prod.ext h rfl) trivial
    obtain ⟨q, t, rfl, -, hb, ht, -⟩ := TripleLine.readRest?_eq_some hu (live?_eq_rest.mp hl).2
    refine Or.inr ⟨q ++ ['>'], t, ' ' :: v.joined, l.after, by simp, ?_, ht, hv.coordinates⟩
    rw [TripleLine.withValues_eq, hb]
  | @offset l v h hv =>
    obtain ⟨-, -, hl⟩ := classify_eq_live (Prod.ext h rfl) trivial
    obtain ⟨t, e, ht, -, -, hb, -⟩ := TripleLine.readOffset?_eq_some (live?_eq_offset.mp hl).2.2
    refine Or.inr ⟨l.before, t, ' ' :: v.joined, l.after, e, ?_, ht, hv.coordinates⟩
    rw [TripleLine.withValues_eq, hb]

theorem Recast.unbroken {g : Region} {line line' : Text} (h : Recast g line line')
    (hu : Unbroken line) : Unbroken line' := by
  rcases h.exists_between hu with rfl | ⟨p, t, u, r, rfl, rfl, -, -, hv⟩
  · exact hu
  · simp only [unbroken_append] at hu ⊢
    exact ⟨hu.1, hv, hu.2.2⟩

theorem Recast.intact {g : Region} {line line' : Text} (h : Recast g line line')
    (hl : Intact line) : Intact line' := by
  refine ⟨h.unbroken hl.unbroken, ?_⟩
  rcases h.exists_between hl.unbroken with rfl | ⟨p, t, u, r, rfl, rfl, ht, hc, -⟩
  · exact hl.faithful
  · have hp : ∀ c ∈ u, Plain c := by
      intro c hm
      rcases hc.chars c hm with hb | hn
      · exact plain_of_isBlank hb
      · exact plain_of_numeralChar hn
    rw [faithful_append_plain_append hp hc.ne_nil]
    exact ⟨hl.faithful.piece (List.prefix_append _ _).isInfix,
      hl.faithful.piece ((List.suffix_append _ _).trans (List.suffix_append _ _)).isInfix⟩

/-- What a recast keeps on each line it keeps on all of them. -/
theorem Recasts.forall_mem {P : Text → Prop}
    (hP : ∀ {g : Region} {line line' : Text}, Recast g line line' → P line → P line')
    {g : Region} {lines lines' : List Text} (h : Recasts g lines lines')
    (hl : ∀ line ∈ lines, P line) : ∀ line ∈ lines', P line := by
  induction h with
  | nil => exact hl
  | cons h _ ih =>
    obtain ⟨h1, h2⟩ := List.forall_mem_cons.mp hl
    exact List.forall_mem_cons.mpr ⟨hP h h1, ih h2⟩

/-! ## 3. The marker block -/

/-- **The lines of a marker block**, or an empty one in front of it: what holds of the fixed ones
and of every record, its helper given, holds of all of them. -/
theorem forall_markerBlock {P Q : Text → Prop} {b : Baseline} (hb : b.Holds P) (hempty : Q [])
    (hopen : Q ({} : Settings).sentinel) (hnote : Q ({} : Settings).markerNote)
    (hrecord : ∀ (fields : List Text) (v : Triple),
      (∀ t ∈ fields, P t ∨ Unbroken t ∧ ∀ c ∈ t, Plain c) → v.Numerals →
      Q (commentOf (fields ++ v.toList))) :
    ∀ line ∈ [] :: b.markerBlock {}, Q line := by
  intro line hl
  rw [markerBlock_eq] at hl
  simp only [List.mem_cons, List.mem_append, List.mem_map, List.not_mem_nil, or_false] at hl
  rcases hl with rfl | (((rfl | rfl) | ⟨r, hr, rfl⟩) | rfl) | ⟨r, hr, rfl⟩
  · exact hempty
  · exact hopen
  · exact hnote
  · obtain ⟨hh, hv⟩ := hb.restList hr
    refine hrecord [StoredRest.tag, r.helper] r.values ?_ hv
    exact List.forall_mem_cons.mpr ⟨Or.inr ⟨by decide, by decide⟩,
      List.forall_mem_singleton.mpr (Or.inl hh)⟩
  · exact hempty
  · obtain ⟨hh, hv⟩ := hb.offsetList hr
    have hi := intact_of_numeralChars
      fun c hc => Or.inl (Decimal.digits_digits r.index c hc)
    refine hrecord [StoredOffset.tag, r.helper, Decimal.digits r.index] r.values ?_ hv
    refine List.forall_mem_cons.mpr ⟨Or.inr ⟨by decide, by decide⟩, List.forall_mem_cons.mpr
      ⟨Or.inl hh, List.forall_mem_singleton.mpr (Or.inr ⟨hi.unbroken, ?_⟩)⟩⟩
    exact fun c hc => plain_of_numeralChar (Or.inl (Decimal.digits_digits r.index c hc))

/-- A block of helpers whose names are intact is intact. -/
theorem intact_markerBlock {b : Baseline} (hb : b.Holds Intact) :
    ∀ line ∈ [] :: b.markerBlock {}, Intact line := by
  refine forall_markerBlock hb ⟨unbroken_nil, faithful_nil⟩ (.of_plain (by decide) (by decide))
    (.of_plain (by decide) (by decide)) ?_
  intro fields v hf hv
  refine intact_commentOf (List.forall_mem_append.mpr ⟨?_, ?_⟩)
  · intro t ht
    rcases hf t ht with h | ⟨hu, hp⟩
    · exact h
    · exact .of_plain hu hp
  · exact fun t ht => intact_of_isNumeral (Triple.isNumeral_of_mem hv t ht)

/-! ## 4. Rescaled scripts -/

/-- What comes of a script: its lines are recast, and behind them there may be a marker block with
what was captured. -/
theorem exists_recasts_of_rescaleBones {lines : List Text} {new previous : Quantity}
    {r : RescaledBones} (h : rescaleBones {} lines new previous = .ok r) :
    ∃ front tail, Recasts .code lines front ∧ r.lines = front ++ tail ∧
      (r.markerWritten = false ∧ tail = [] ∨
        r.markerWritten = true ∧ ∃ b gap, capture {} lines previous = .ok b ∧
          (∀ line ∈ tail, line ∈ [] :: b.markerBlock {}) ∧ tail = gap ++ b.markerBlock {}) := by
  cases rescaleBones_eq_ok.mp h with
  | stored hs hw =>
    obtain ⟨d, written, -, hsites, rfl⟩ := writeBones_eq_ok.mp hw
    exact ⟨_, [], recasts_of_writeSites hsites, (List.append_nil _).symm, Or.inl ⟨rfl, rfl⟩⟩
  | copied hs hcap hrest hw =>
    obtain ⟨d, written, -, hsites, rfl⟩ := writeBones_eq_ok.mp hw
    exact ⟨_, [], recasts_of_writeSites hsites, (List.append_nil _).symm, Or.inl ⟨rfl, rfl⟩⟩
  | @captured b w hs hcap hrest hw =>
    have hrec := recasts_of_writeBones hw
    obtain ⟨tail, htail, ⟨gap, hgap⟩, happ⟩ := exists_tail_appendMarker b lines
    exact ⟨_, tail, hrec, happ hrec.getLast?_eq, Or.inr ⟨rfl, b, gap, hcap, htail, hgap⟩⟩

/-- **A rescale leaves intact lines.** -/
theorem intact_of_rescaleBones {lines : List Text} (hl : ∀ line ∈ lines, Intact line)
    {new previous : Quantity} {r : RescaledBones}
    (h : rescaleBones {} lines new previous = .ok r) : ∀ line ∈ r.lines, Intact line := by
  obtain ⟨front, tail, hrec, he, htail⟩ := exists_recasts_of_rescaleBones h
  rw [he]
  refine List.forall_mem_append.mpr ⟨hrec.forall_mem Recast.intact hl, ?_⟩
  rcases htail with ⟨-, rfl⟩ | ⟨-, b, gap, hcap, hmem, -⟩
  · intro line hm
    cases hm
  · have hb : b.Holds Intact := holds_of_capture
      (fun line hm name hn => (hl line hm).piece (isWord_of_readHelper? hn).2) hcap
    exact fun line hm => intact_markerBlock hb line (hmem line hm)

/-- **A rescale that changes a script leaves a marker block in it.** -/
theorem hasMarker_of_changed {lines : List Text} {new previous : Quantity} {r : RescaledBones}
    (h : rescaleBones {} lines new previous = .ok r) (hne : r.lines ≠ lines) :
    hasMarker {} r.lines = true := by
  cases rescaleBones_eq_ok.mp h with
  | stored hs hw =>
    have hm : hasMarker {} lines = true := by
      by_contra hm
      rw [stored_eq, if_neg hm] at hs
      cases hs
    rw [← hasMarker_markerLines, markerLines_rescaleBones hm h, hasMarker_markerLines, hm]
  | copied _ _ _ hw => exact absurd (writeBones_empty hw) hne
  | captured => exact hasMarker_appendMarker _ _

end ModelScale
