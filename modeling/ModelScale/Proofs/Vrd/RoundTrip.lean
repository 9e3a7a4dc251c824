import ModelScale.Proofs.Vrd.Leftover

/-
# A marker block is read back

The lines of a marker block are words with a space between each two, and nothing is quoted.  A helper
may have any name without blanks: a number, a comment opener, the tag of a record.  All the same
the block is read back, among lines without records, as the baseline that it was made of: the same
values, the same order of helpers in both rosters, the same order of offsets.

`Baseline.Same` of `stored_append_markerBlock_iff` compares values and not order.  Here is what is
missing: helpers are gathered in the order of their first records (`keys_gather_offsetList`), and a
roster with the same keys and values is the same roster.  Main statement:

* `stored_around_markerBlock`: the block comes back, unless the number of an offset has too many
  digits to be read.
-/

namespace ModelScale

open Text

namespace Baseline

/-! ## 1. The order of helpers -/

/-- One more record. -/
def gatherOne (n : Numbered) (r : StoredOffset) : Numbered :=
  n.put r.helper (((n.get? r.helper).getD ∅).put r.index r.values)

theorem gather_eq_foldl (records : List StoredOffset) : gather records = records.foldl gatherOne ∅ :=
  rfl

/-- Records of a helper that is there already change no name. -/
theorem keys_foldl_gatherOne_of_mem {helper : Text} {records : List StoredOffset}
    (h : ∀ r ∈ records, r.helper = helper) {n : Numbered} (hn : helper ∈ n.keys) :
    (records.foldl gatherOne n).keys = n.keys := by
  induction records generalizing n with
  | nil => rfl
  | cons r records ih =>
    obtain ⟨rfl, hrest⟩ := List.forall_mem_cons.mp h
    have hkeys : (gatherOne n r).keys = n.keys := Roster.keys_put_of_mem _ hn
    rw [List.foldl_cons, ih hrest (hkeys ▸ hn), hkeys]

/-- The records of a new helper, of which there is one, add its name. -/
theorem keys_foldl_gatherOne_of_not_mem {helper : Text} {records : List StoredOffset}
    (hne : records ≠ []) (h : ∀ r ∈ records, r.helper = helper) {n : Numbered}
    (hn : helper ∉ n.keys) : (records.foldl gatherOne n).keys = n.keys ++ [helper] := by
  cases records with
  | nil => exact absurd rfl hne
  | cons r records =>
    obtain ⟨rfl, hrest⟩ := List.forall_mem_cons.mp h
    have hkeys : (gatherOne n r).keys = n.keys ++ [r.helper] := Roster.keys_put_of_not_mem _ hn
    rw [List.foldl_cons, keys_foldl_gatherOne_of_mem hrest (by rw [hkeys]; simp), hkeys]

/-- The records of several helpers, each with one at least, add their names in order. -/
theorem keys_foldl_flatMap {entries : List (Text × List Triple)}
    (hne : ∀ e ∈ entries, e.2 ≠ []) {n : Numbered} (hd : (n.keys ++ entries.map Prod.fst).Nodup) :
    ((entries.flatMap fun (helper, sequence) =>
        sequence.zipIdx.map fun (values, i) => (⟨helper, i, values⟩ : StoredOffset)).foldl
      gatherOne n).keys = n.keys ++ entries.map Prod.fst := by
  induction entries generalizing n with
  | nil => exact (List.append_nil _).symm
  | cons e entries ih =>
    obtain ⟨helper, sequence⟩ := e
    obtain ⟨hhead, htail⟩ := List.forall_mem_cons.mp hne
    rw [List.flatMap_cons, List.foldl_append]
    dsimp only
    generalize hblock : (sequence.zipIdx.map fun (values, i) =>
      (⟨helper, i, values⟩ : StoredOffset)) = block
    have hblockne : block ≠ [] := by
      rw [← hblock]
      simpa using hhead
    have howner : ∀ r ∈ block, r.helper = helper := by
      rw [← hblock]
      intro r hr
      obtain ⟨p, -, rfl⟩ := List.mem_map.mp hr
      rfl
    have hnew : helper ∉ n.keys := by
      rw [List.map_cons, List.nodup_append] at hd
      intro hmem
      exact hd.2.2 _ hmem _ List.mem_cons_self rfl
    have hkeys : (block.foldl gatherOne n).keys = n.keys ++ [helper] :=
      keys_foldl_gatherOne_of_not_mem hblockne howner hnew
    rw [ih htail, hkeys, List.append_assoc]
    · rfl
    · rw [hkeys, List.append_assoc]
      exact hd

/-- **Helpers are gathered in the order of the baseline.** -/
theorem keys_gather_offsetList {b : Baseline} (hne : ∀ e ∈ b.offsets.entries, e.2 ≠ []) :
    (gather b.offsetList).keys = b.offsets.keys := by
  rw [gather_eq_foldl, offsetList, keys_foldl_flatMap hne]
  · rfl
  · exact b.offsets.distinct

/-- Putting the offsets in order keeps the order of helpers. -/
theorem keys_sequences {numbered : Numbered} {offsets : Roster Text (List Triple)}
    (h : sequences numbered = .ok offsets) : offsets.keys = numbered.keys := by
  obtain ⟨pairs, hp, rfl⟩ := map_eq_ok.mp h
  obtain ⟨hkeys, -⟩ := mapM_snd_eq_ok hp
  let r : Roster Text (List Triple) := ⟨pairs, hkeys ▸ numbered.distinct⟩
  have hr : Roster.ofList pairs = r := Roster.ofList_entries r
  rw [hr]
  exact hkeys

/-- **The offsets of a baseline come back**, in order. -/
theorem sequences_gather_offsetList {b : Baseline} (hne : ∀ e ∈ b.offsets.entries, e.2 ≠ []) :
    sequences (gather b.offsetList) = .ok b.offsets := by
  have hne' : ∀ helper, b.offsets.get? helper ≠ some [] := by
    intro helper h
    exact hne _ (Roster.mem_of_get? h) rfl
  obtain ⟨offsets, hs, hsame⟩ :=
    (@sequences_gather_append_iff b hne' []).mpr fun _ hr => nomatch hr
  have hkeys : offsets.keys = b.offsets.keys :=
    (keys_sequences hs).trans (keys_gather_offsetList hne)
  rw [← Roster.ext_keys hkeys hsame]
  exact hs

/-! ## 2. The block among other lines -/

theorem record?_eq_none {line : Text} :
    VrdShape.record? line = none ↔
      StoredRest.read? line = none ∧ StoredOffset.read? line = none := by
  unfold VrdShape.record?
  rcases StoredRest.read? line with _ | s
  · simp
  · simp

/-- Lines without records have nothing to be read. -/
theorem filterMap_of_record? {lines : List Text}
    (h : ∀ line ∈ lines, VrdShape.record? line = none) :
    lines.filterMap StoredRest.read? = [] ∧ lines.filterMap StoredOffset.read? = [] :=
  ⟨List.filterMap_eq_nil_iff.mpr fun line hl => (record?_eq_none.mp (h line hl)).1,
    List.filterMap_eq_nil_iff.mpr fun line hl => (record?_eq_none.mp (h line hl)).2⟩

/-- The rest positions of a block come back, in order. -/
theorem restOf_around_markerBlock {b : Baseline} (hb : b.Writable) {pre post : List Text}
    (hpre : ∀ line ∈ pre, VrdShape.record? line = none)
    (hpost : ∀ line ∈ post, VrdShape.record? line = none) :
    restOf (pre ++ b.markerBlock {} ++ post) = b.rest := by
  have hpairs : b.restList.map (fun r => (r.helper, r.values)) = b.rest.entries := by
    rw [restList, List.map_map]
    exact List.map_id _
  rw [restOf, List.filterMap_append, List.filterMap_append, (filterMap_of_record? hpre).1,
    (filterMap_of_record? hpost).1, readRest?_markerBlock hb, List.nil_append, List.append_nil,
    hpairs, Roster.ofList_entries]

/-- The offsets of a block can be read if none of their numbers has too many digits. -/
theorem offsetRecords_around_markerBlock {b : Baseline} (hb : b.Writable) {pre post : List Text}
    (hpre : ∀ line ∈ pre, VrdShape.record? line = none)
    (hpost : ∀ line ∈ post, VrdShape.record? line = none) {records : List StoredOffset} :
    offsetRecords (pre ++ b.markerBlock {} ++ post) = .ok records ↔
      b.Legible ∧ records = b.offsetList := by
  have hnil : offsetRecords [] = .ok [] := rfl
  have h := @offsetRecords_append_markerBlock_iff b hb [] [] records hnil
  rw [List.nil_append, List.nil_append] at h
  rw [← h, offsetRecords, offsetRecords, List.filterMap_append, List.filterMap_append,
    (filterMap_of_record? hpre).2, (filterMap_of_record? hpost).2, List.nil_append,
    List.append_nil]

/-- The numbers of the offsets can be read if no sequence is longer than what they count to. -/
theorem legible_iff_of_lt {b : Baseline} {limit : Nat}
    (hl : ∀ n, (Decimal.digits n).length ≤ digitLimit ↔ n < limit) :
    b.Legible ↔ ∀ e ∈ b.offsets.entries, e.2.length ≤ limit := by
  constructor
  · intro h e he
    by_contra hlt
    obtain ⟨v, hv⟩ : ∃ v, e.2[limit]? = some v :=
      ⟨_, List.getElem?_eq_getElem (Nat.lt_of_not_le hlt)⟩
    rw [← sequence_of_mem he] at hv
    have hr : (⟨e.1, limit, v⟩ : StoredOffset) ∈ b.offsetList := mem_offsetList.mpr hv
    exact Nat.lt_irrefl _ ((hl limit).mp (h _ hr))
  · intro h r hr
    obtain ⟨hlt, -⟩ := List.getElem?_eq_some_iff.mp (mem_offsetList.mp hr)
    cases ho : b.offsets.get? r.helper with
    | none => rw [sequence, ho] at hlt; cases hlt
    | some s =>
      rw [sequence, ho] at hlt
      exact (hl _).mpr (hlt.trans_le (h _ (Roster.mem_of_get? ho)))

theorem legible_iff_length {b : Baseline} :
    b.Legible ↔ ∀ e ∈ b.offsets.entries, e.2.length ≤ 10 ^ digitLimit :=
  legible_iff_of_lt fun _ => Decimal.digitCount_le_iff (by decide)

/-- **A marker block is read back.** -/
theorem stored_around_markerBlock {b : Baseline} (hb : b.Writable)
    (hne : ∀ e ∈ b.offsets.entries, e.2 ≠ [])
    (hsome : b.rest.isEmpty = false ∨ b.offsets.isEmpty = false) {pre post : List Text}
    (hpre : ∀ line ∈ pre, VrdShape.record? line = none)
    (hpost : ∀ line ∈ post, VrdShape.record? line = none) :
    stored {} (pre ++ b.markerBlock {} ++ post) = .ok (some b) ↔
      ∀ e ∈ b.offsets.entries, e.2.length ≤ 10 ^ digitLimit := by
  rw [← legible_iff_length, stored_eq_ok_some]
  constructor
  · rintro ⟨-, ⟨records, hr, -⟩, -⟩
    exact ((offsetRecords_around_markerBlock hb hpre hpost).mp hr).1
  · intro hl
    refine ⟨?_, ⟨b.offsetList, ?_, sequences_gather_offsetList hne⟩, ?_, ?_⟩
    · rw [hasMarker, List.any_append, Bool.or_eq_true]
      exact Or.inl (hasMarker_append_markerBlock b pre)
    · exact (offsetRecords_around_markerBlock hb hpre hpost).mpr ⟨hl, rfl⟩
    · exact (restOf_around_markerBlock hb hpre hpost).symm
    · rw [Bool.and_eq_false_iff]
      exact hsome

/-- Helpers named like a tag, a comment opener and a number, in this order, between lines that hold
no record. -/
theorem stored_around_markerBlock_odd :
    let v : Triple := ⟨"1.5".toList, "-2e-3".toList, ".0".toList⟩
    let b : Baseline := ((((∅ : Baseline).addRest "//".toList v).addRest
      "QCSCALE_BASEPOS".toList v).addOffset "0".toList v).addOffset "0".toList v
    stored {} (["<helper> h".toList] ++ b.markerBlock {} ++ ["// end".toList]) = .ok (some b) := by
  intro v b
  have hv : v.Numerals := ⟨by decide, by decide, by decide⟩
  have hword : ∀ t ∈ ["//".toList, "QCSCALE_BASEPOS".toList, "0".toList], IsWord t := by
    intro t ht
    simp only [List.mem_cons, List.not_mem_nil, or_false] at ht
    rcases ht with rfl | rfl | rfl <;> exact ⟨by decide, by decide⟩
  have hempty : (∅ : Baseline).Writable := ⟨fun _ he => (nomatch he), fun _ he => (nomatch he)⟩
  have hb : b.Writable :=
    (((hempty.addRest (hword _ (by simp)) hv).addRest (hword _ (by simp)) hv).addOffset
      (hword _ (by simp)) hv).addOffset (hword _ (by simp)) hv
  have hentries : b.offsets.entries = [("0".toList, [v, v])] := by decide
  refine (stored_around_markerBlock hb ?_ (Or.inl (by decide)) (by decide) (by decide)).mpr ?_
  · rw [hentries]
    decide
  · rw [hentries]
    intro e he
    obtain rfl := List.mem_singleton.mp he
    exact le_trans (by decide) (Nat.le_self_pow (by decide) 10)

end Baseline

end ModelScale
