import ModelScale.Proofs.Vrd.Baseline
import ModelScale.Proofs.Vrd.Gathered
import ModelScale.Proofs.Vrd.Marker

/-
# A marker block gives back what it was made of

The records that a baseline is written as are read as those records (`StoredRest.read?_toLine`,
`StoredOffset.read?_toLine`).  They stand behind everything else that the script may hold, records
left over from an earlier block included, and later records replace earlier ones.  So what is read
from a script with the block appended agrees with the baseline on all that the baseline covers
(`agree_of_stored`).  And nothing in the block is anything to a rescale but a record
(`quiet_markerBlock`).
-/

namespace ModelScale

open Text

/-! ## 1. One record -/

theorem commentWords?_commentOf {fields : List Text} (h : ∀ t ∈ fields, Inked t ∧ t ≠ []) :
    commentWords? (commentOf fields) = some fields := by
  have e : commentOf fields = '/' :: '/' :: fields.flatMap fun u => ' ' :: u := by
    rw [commentOf, join_cons]
    rfl
  rw [commentWords?, e, trimStart_of_inked (by decide)]
  exact congrArg some (words_flatMap_space h)

theorem isWord_of_isNumeral {t : Text} (h : isNumeral t = true) : Baseline.IsWord t :=
  ⟨Numeral.inked_of_isNumeral h, Numeral.ne_nil_of_isNumeral h⟩

theorem isWord_digits (n : Nat) : Baseline.IsWord (Decimal.digits n) :=
  ⟨fun c hc => isBlank_of_isDigit (Decimal.digits_digits n c hc), Decimal.digits_ne_nil n⟩

theorem tripleOf?_of_numerals {v : Triple} (h : v.Numerals) : tripleOf? v.x v.y v.z = some v := by
  obtain ⟨hx, hy, hz⟩ := h
  rw [tripleOf?, hx, hy, hz]
  rfl

theorem StoredRest.toLine_eq (r : StoredRest) : StoredRest.toLine {} r =
    commentOf [StoredRest.tag, r.helper, r.values.x, r.values.y, r.values.z] := rfl

theorem StoredOffset.toLine_eq (r : StoredOffset) : StoredOffset.toLine {} r =
    commentOf [StoredOffset.tag, r.helper, Decimal.digits r.index, r.values.x, r.values.y,
      r.values.z] := rfl

/-- The words of a record of a rest position. -/
theorem commentWords?_storedRest {r : StoredRest} (hh : Baseline.IsWord r.helper)
    (hv : r.values.Numerals) : commentWords? (StoredRest.toLine {} r) =
      some [StoredRest.tag, r.helper, r.values.x, r.values.y, r.values.z] := by
  rw [StoredRest.toLine_eq]
  refine commentWords?_commentOf ?_
  intro t ht
  simp only [List.mem_cons, List.not_mem_nil, or_false] at ht
  rcases ht with rfl | rfl | rfl | rfl | rfl
  · exact ⟨by decide, by decide⟩
  · exact hh
  · exact isWord_of_isNumeral hv.1
  · exact isWord_of_isNumeral hv.2.1
  · exact isWord_of_isNumeral hv.2.2

/-- **A stored rest position is read back.** -/
theorem StoredRest.read?_toLine {r : StoredRest} (hh : Baseline.IsWord r.helper)
    (hv : r.values.Numerals) : StoredRest.read? (StoredRest.toLine {} r) = some r := by
  rw [StoredRest.read?, commentWords?_storedRest hh hv]
  simp [tripleOf?_of_numerals hv]

theorem StoredOffset.read?_storedRest {r : StoredRest} (hh : Baseline.IsWord r.helper)
    (hv : r.values.Numerals) : StoredOffset.read? (StoredRest.toLine {} r) = none := by
  rw [StoredOffset.read?, commentWords?_storedRest hh hv]

/-- The words of a record of an offset. -/
theorem commentWords?_storedOffset {r : StoredOffset} (hh : Baseline.IsWord r.helper)
    (hv : r.values.Numerals) : commentWords? (StoredOffset.toLine {} r) =
      some [StoredOffset.tag, r.helper, Decimal.digits r.index, r.values.x, r.values.y,
        r.values.z] := by
  rw [StoredOffset.toLine_eq]
  refine commentWords?_commentOf ?_
  intro t ht
  simp only [List.mem_cons, List.not_mem_nil, or_false] at ht
  rcases ht with rfl | rfl | rfl | rfl | rfl | rfl
  · exact ⟨by decide, by decide⟩
  · exact hh
  · exact isWord_digits _
  · exact isWord_of_isNumeral hv.1
  · exact isWord_of_isNumeral hv.2.1
  · exact isWord_of_isNumeral hv.2.2

/-- A stored offset is read back, unless its number has too many digits. -/
theorem StoredOffset.read?_toLine {r : StoredOffset} (hh : Baseline.IsWord r.helper)
    (hv : r.values.Numerals) : StoredOffset.read? (StoredOffset.toLine {} r) =
      some ((readInteger (Decimal.digits r.index)).map fun i => ⟨r.helper, i, r.values⟩) := by
  have hd : (Decimal.digits r.index).all isDigit = true :=
    List.all_eq_true.mpr fun c hc => Decimal.digits_digits r.index c hc
  rw [StoredOffset.read?, commentWords?_storedOffset hh hv]
  simp [hd, tripleOf?_of_numerals hv]

theorem StoredRest.read?_storedOffset {r : StoredOffset} (hh : Baseline.IsWord r.helper)
    (hv : r.values.Numerals) : StoredRest.read? (StoredOffset.toLine {} r) = none := by
  rw [StoredRest.read?, commentWords?_storedOffset hh hv]

theorem readInteger_digits {n i : Nat} (h : readInteger (Decimal.digits n) = .ok i) : i = n := by
  unfold readInteger at h
  split at h
  · cases h
  · rw [← Except.ok.inj h, Decimal.digitsValue_digits]

namespace Baseline

/-! ## 2. The records of a baseline -/

/-- The rest positions of a baseline as records. -/
def restList (b : Baseline) : List StoredRest :=
  b.rest.entries.map fun (helper, values) => ⟨helper, values⟩

/-- The offsets of a baseline as records. -/
def offsetList (b : Baseline) : List StoredOffset :=
  b.offsets.entries.flatMap fun (helper, sequence) =>
    sequence.zipIdx.map fun (values, i) => ⟨helper, i, values⟩

theorem markerBlock_eq (b : Baseline) :
    b.markerBlock {} = [({} : Settings).sentinel, ({} : Settings).markerNote] ++
      b.restList.map (StoredRest.toLine {}) ++ [[]] ++
      b.offsetList.map (StoredOffset.toLine {}) := by
  simp only [markerBlock, restList, offsetList, List.map_map, List.map_flatMap]
  rfl

theorem sequence_of_mem {b : Baseline} {e : Text × List Triple} (h : e ∈ b.offsets.entries) :
    b.sequence e.1 = e.2 := by
  rw [sequence, Roster.get?_of_mem h]
  rfl

/-- The records of the offsets are what the sequences hold. -/
theorem mem_offsetList {b : Baseline} {r : StoredOffset} :
    r ∈ b.offsetList ↔ (b.sequence r.helper)[r.index]? = some r.values := by
  unfold offsetList
  rw [List.mem_flatMap]
  constructor
  · rintro ⟨e, he, hr⟩
    obtain ⟨p, hp, rfl⟩ := List.mem_map.mp hr
    rw [sequence_of_mem he]
    exact List.mem_zipIdx_iff_getElem?.mp hp
  · intro h
    cases hs : b.offsets.get? r.helper with
    | none => rw [sequence, hs] at h; cases h
    | some s =>
      rw [sequence, hs] at h
      refine ⟨(r.helper, s), Roster.mem_of_get? hs, List.mem_map.mpr ⟨(r.values, r.index), ?_, rfl⟩⟩
      exact List.mem_zipIdx_iff_getElem?.mpr h

theorem Holds.restList {P : Text → Prop} {b : Baseline} (hb : b.Holds P) {r : StoredRest}
    (h : r ∈ b.restList) : P r.helper ∧ r.values.Numerals := by
  obtain ⟨e, he, rfl⟩ := List.mem_map.mp h
  exact hb.rest e he

theorem Holds.offsetList {P : Text → Prop} {b : Baseline} (hb : b.Holds P) {r : StoredOffset}
    (h : r ∈ b.offsetList) : P r.helper ∧ r.values.Numerals := by
  have hs := mem_offsetList.mp h
  refine ⟨?_, hb.sequence _ _ (List.mem_of_getElem? hs)⟩
  cases ho : b.offsets.get? r.helper with
  | none => rw [Baseline.sequence, ho] at hs; cases hs
  | some s => exact (hb.offsets _ (Roster.mem_of_get? ho)).1

/-! ## 3. Reading the records -/

theorem readRest?_markerBlock {b : Baseline} (hb : b.Writable) :
    (b.markerBlock {}).filterMap StoredRest.read? = b.restList := by
  have h1 : (b.restList.map (StoredRest.toLine {})).filterMap StoredRest.read? = b.restList := by
    rw [List.filterMap_map]
    conv_rhs => rw [← List.filterMap_some (l := b.restList)]
    exact List.filterMap_congr fun r hr =>
      StoredRest.read?_toLine (hb.restList hr).1 (hb.restList hr).2
  have h2 : (b.offsetList.map (StoredOffset.toLine {})).filterMap StoredRest.read? = [] := by
    rw [List.filterMap_map, List.filterMap_eq_nil_iff]
    exact fun r hr => StoredRest.read?_storedOffset (hb.offsetList hr).1 (hb.offsetList hr).2
  have h3 : [({} : Settings).sentinel, ({} : Settings).markerNote].filterMap StoredRest.read? =
      [] :=
    rfl
  rw [markerBlock_eq, List.filterMap_append, List.filterMap_append, List.filterMap_append, h1, h2,
    h3, List.append_nil]
  exact List.append_nil _

theorem readOffset?_markerBlock {b : Baseline} (hb : b.Writable) :
    (b.markerBlock {}).filterMap StoredOffset.read? = b.offsetList.map fun r =>
      (readInteger (Decimal.digits r.index)).map fun i => ⟨r.helper, i, r.values⟩ := by
  have h1 : (b.restList.map (StoredRest.toLine {})).filterMap StoredOffset.read? = [] := by
    rw [List.filterMap_map, List.filterMap_eq_nil_iff]
    exact fun r hr => StoredOffset.read?_storedRest (hb.restList hr).1 (hb.restList hr).2
  have h2 : (b.offsetList.map (StoredOffset.toLine {})).filterMap StoredOffset.read? =
      b.offsetList.map fun r =>
        (readInteger (Decimal.digits r.index)).map fun i => ⟨r.helper, i, r.values⟩ := by
    rw [List.filterMap_map, ← List.filterMap_eq_map]
    exact List.filterMap_congr fun r hr =>
      StoredOffset.read?_toLine (hb.offsetList hr).1 (hb.offsetList hr).2
  have h3 : [({} : Settings).sentinel, ({} : Settings).markerNote].filterMap StoredOffset.read? =
    [] := rfl
  rw [markerBlock_eq, List.filterMap_append, List.filterMap_append, List.filterMap_append, h1, h2,
    h3]
  rfl

/-- The rest positions of a block count before those of the lines in front of it. -/
theorem get?_restOf_append_markerBlock {b : Baseline} (hb : b.Writable) (lines : List Text)
    (helper : Text) :
    (restOf (lines ++ b.markerBlock {})).get? helper =
      (b.rest.get? helper).or ((restOf lines).get? helper) := by
  have hpairs : b.restList.map (fun r => (r.helper, r.values)) = b.rest.entries := by
    rw [restList, List.map_map]
    exact List.map_id _
  rw [restOf, List.filterMap_append, readRest?_markerBlock hb, List.map_append, hpairs,
    Roster.get?_ofList_append]
  rfl

/-- Offsets that are read back without a fault are those that were written. -/
theorem eq_of_mapM_readInteger {l records : List StoredOffset}
    (h : (l.map fun r => (readInteger (Decimal.digits r.index)).map fun i =>
      (⟨r.helper, i, r.values⟩ : StoredOffset)).mapM id = .ok records) :
    records = l ∧ ∀ r ∈ l, readInteger (Decimal.digits r.index) = .ok r.index := by
  induction l generalizing records with
  | nil =>
    cases h
    exact ⟨rfl, fun _ hr => absurd hr (by simp)⟩
  | cons r l ih =>
    rw [List.map_cons, List.mapM_cons] at h
    obtain ⟨s, hs, h⟩ := bind_eq_ok.mp h
    obtain ⟨ss, hss, h⟩ := bind_eq_ok.mp h
    obtain rfl := pure_eq_ok.mp h
    obtain ⟨i, hi, rfl⟩ := exceptMap_eq_ok.mp hs
    obtain ⟨rfl, hall⟩ := ih hss
    obtain rfl := readInteger_digits hi
    refine ⟨rfl, ?_⟩
    intro r' hr'
    rcases List.mem_cons.mp hr' with rfl | hr'
    · exact hi
    · exact hall r' hr'

/-- Where the records of a script with a block behind it can be read, those of the block come
last. -/
theorem offsetRecords_append_markerBlock {b : Baseline} (hb : b.Writable) {lines : List Text}
    {records : List StoredOffset} (h : offsetRecords (lines ++ b.markerBlock {}) = .ok records) :
    (∃ older, records = older ++ b.offsetList) ∧
      ∀ r ∈ b.offsetList, readInteger (Decimal.digits r.index) = .ok r.index := by
  unfold offsetRecords at h
  rw [List.filterMap_append, readOffset?_markerBlock hb, List.mapM_append] at h
  obtain ⟨older, -, h⟩ := bind_eq_ok.mp h
  obtain ⟨newer, hn, h⟩ := bind_eq_ok.mp h
  obtain rfl := pure_eq_ok.mp h
  obtain ⟨rfl, hr⟩ := eq_of_mapM_readInteger hn
  exact ⟨⟨older, rfl⟩, hr⟩

/-! ## 4. The offsets -/

/-- The records of a baseline give its sequences. -/
theorem look_gather_offsetList (b : Baseline) (helper : Text) (index : Nat) :
    (gather b.offsetList).look helper index = (b.sequence helper)[index]? := by
  rw [look_gather]
  cases hf : b.offsetList.reverse.find? fun r => helper = r.helper ∧ index = r.index with
  | some r =>
    have hr := List.find?_some hf
    rw [decide_eq_true_eq] at hr
    obtain ⟨rfl, rfl⟩ := hr
    exact (mem_offsetList.mp (List.mem_reverse.mp (List.mem_of_find?_eq_some hf))).symm
  | none =>
    cases hv : (b.sequence helper)[index]? with
    | none => rfl
    | some v =>
      have hmem : (⟨helper, index, v⟩ : StoredOffset) ∈ b.offsetList.reverse :=
        List.mem_reverse.mpr (mem_offsetList.mpr hv)
      exact absurd (decide_eq_true ⟨rfl, rfl⟩) (List.find?_eq_none.mp hf _ hmem)

/-- **The offsets of a baseline come back in order**, if its records come last. -/
theorem sequences_gather {b : Baseline} {older : List StoredOffset}
    {offsets : Roster Text (List Triple)}
    (h : sequences (gather (older ++ b.offsetList)) = .ok offsets) {helper : Text} {index : Nat}
    (hi : index < (b.sequence helper).length) :
    ∃ s, offsets.get? helper = some s ∧ s[index]? = (b.sequence helper)[index]? := by
  have hget := (get?_sequences h helper).2 index
  rw [look_gather_append, look_gather_offsetList, List.getElem?_eq_getElem hi, Option.some_or]
    at hget
  cases hs : offsets.get? helper with
  | none => rw [hs] at hget; cases hget
  | some s => exact ⟨s, rfl, by rw [hs] at hget; rw [List.getElem?_eq_getElem hi]; exact hget⟩

/-! ## 5. The block -/

theorem hasMarker_append_markerBlock (b : Baseline) (lines : List Text) :
    hasMarker {} (lines ++ b.markerBlock {}) = true := by
  rw [hasMarker, List.any_append, markerBlock_eq, Bool.or_eq_true]
  exact Or.inr (by rw [List.cons_append, List.cons_append, List.cons_append, List.any_cons]; rfl)

/-- **What is read from a script with a block behind it agrees with the baseline of the block**, on
all that this one covers. -/
theorem agree_of_stored {b c : Baseline} (hb : b.Writable) {lines : List Text}
    (h : stored {} (lines ++ b.markerBlock {}) = .ok (some c)) :
    (∀ site, b.Covers site → b.Agree c site) ∧
      ∀ r ∈ b.offsetList, readInteger (Decimal.digits r.index) = .ok r.index := by
  obtain ⟨-, ⟨records, hr, hs⟩, hrest, -⟩ := stored_eq_ok_some.mp h
  obtain ⟨⟨older, rfl⟩, hread⟩ := offsetRecords_append_markerBlock hb hr
  refine ⟨?_, hread⟩
  intro site hc
  cases site with
  | other => trivial
  | unreadable f => trivial
  | rest owner line =>
    cases owner with
    | none => trivial
    | some helper =>
      obtain ⟨v, hv⟩ := Roster.contains_eq_true.mp hc
      show b.rest.get? helper = c.rest.get? helper
      rw [hrest, get?_restOf_append_markerBlock hb, hv]
      rfl
  | offset owner ordinal line =>
    cases owner with
    | none => trivial
    | some helper =>
      have hlt : ordinal < (b.sequence helper).length := hc
      obtain ⟨s, hsg, hsi⟩ := sequences_gather hs hlt
      have hb' : b.contains helper = true := by
        rw [contains, Bool.or_eq_true]
        refine Or.inr (Roster.contains_eq_true.mpr ?_)
        cases ho : b.offsets.get? helper with
        | none => rw [sequence, ho] at hlt; cases hlt
        | some t => exact ⟨t, rfl⟩
      have hc' : c.offsets.contains helper = true := Roster.contains_eq_true.mpr ⟨s, hsg⟩
      refine ⟨?_, ?_⟩
      · rw [hb', contains, hc', Bool.or_true]
      · show (b.sequence helper)[ordinal]? = ((c.offsets.get? helper).getD [])[ordinal]?
        rw [hsg, ← hsi]
        rfl

/-- A comment without a record is nothing to a rescale. -/
theorem quiet_of_lineComment {line : Text} (hr : VrdShape.record? line = none)
    (hc : Comment.lineOpen.isPrefixOf (trimStart line) = true) (g : Region) :
    VrdShape.Quiet (classify g line).1 := by
  have hi : Comment.inert g line = true := by
    cases g with
    | block => rfl
    | code => rw [Comment.inert, hc]; rfl
  rw [classify, hr]
  simp only [hi, if_true]
  trivial

theorem quiet_of_record? {line : Text} (shape : VrdShape) (hr : VrdShape.record? line = some shape)
    (hq : VrdShape.Quiet (some shape)) (g : Region) : VrdShape.Quiet (classify g line).1 := by
  rw [classify, hr]
  exact hq

theorem quiet_nil (g : Region) : VrdShape.Quiet (classify g []).1 := by
  cases g <;> exact trivial

/-- **Nothing in a block is anything to a rescale**, as long as its records can be read. -/
theorem quiet_markerBlock {b : Baseline} (hb : b.Writable)
    (hr : ∀ r ∈ b.offsetList, readInteger (Decimal.digits r.index) = .ok r.index) :
    ∀ line ∈ [] :: b.markerBlock {}, ∀ g, VrdShape.Quiet (classify g line).1 := by
  intro line hl
  rw [markerBlock_eq] at hl
  simp only [List.mem_cons, List.mem_append, List.mem_map, List.not_mem_nil, or_false] at hl
  rcases hl with rfl | (((rfl | rfl) | ⟨r, hr', rfl⟩) | rfl) | ⟨r, hr', rfl⟩
  · exact quiet_nil
  · exact quiet_of_lineComment (by decide) (by decide)
  · exact quiet_of_lineComment (by decide) (by decide)
  · refine quiet_of_record? (.storedRest r) ?_ trivial
    obtain ⟨hh, hv⟩ := hb.restList hr'
    rw [VrdShape.record?, StoredRest.read?_toLine hh hv]
    rfl
  · exact quiet_nil
  · refine quiet_of_record? (.storedOffset r) ?_ trivial
    obtain ⟨hh, hv⟩ := hb.offsetList hr'
    rw [VrdShape.record?, StoredRest.read?_storedOffset hh hv, StoredOffset.read?_toLine hh hv,
      hr r hr']
    rfl

end Baseline

end ModelScale
