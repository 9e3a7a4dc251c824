import ModelScale.Proofs.Vrd.RoundTrip

/-
# Which marker blocks are read

Reading a marker block counts the numbers under a helper and asks for each one below the count.
That is enough: distinct numbers that leave one below their count out are not the first ones, and
those that leave none out are (`Roster.isSome_get?_iff_lt`).  So a block is read just when the
numbers of every helper start at zero and have no gap, in whatever order the records stand and
however often they are repeated.  Main statements:

* `sequenceOf_eq_error`: a helper fails at the smallest number that is missing;
* `exists_first_of_keys_gather`: the helpers are gone through in the order of their first records;
* `stored_iff_gapFree`: reading as a whole, with every way in which it ends.

One way is easily forgotten.  The number of a record is written in digits, and one with too many of
them cannot be read, whatever its value (`stored_iff_gapFree_unreadable`).
-/

namespace ModelScale

open Text

/-! ## 1. What the lines say -/

/-- The values that a line gives for the rest position of a helper. -/
def restAt (helper line : Text) : Option Triple :=
  (StoredRest.read? line).bind fun r => if r.helper = helper then some r.values else none

/-- The values that a record gives for a helper and a number. -/
def StoredOffset.valuesFor (helper : Text) (index : Nat) (r : StoredOffset) : Option Triple :=
  if helper = r.helper ∧ index = r.index then some r.values else none

/-- The values that a line gives for a helper and a number. -/
def offsetAt (helper : Text) (index : Nat) (line : Text) : Option Triple :=
  (StoredOffset.read? line).bind fun r => r.toOption.bind (·.valuesFor helper index)

/-- Some line is a record of a helper and a number. -/
def Recorded (lines : List Text) (helper : Text) (index : Nat) : Prop :=
  ∃ line ∈ lines, ∃ values, StoredOffset.read? line = some (.ok ⟨helper, index, values⟩)

/-- The numbers on the records of a helper are those from 0 to `n - 1`. -/
def GapFree (lines : List Text) (helper : Text) : Prop :=
  ∃ n, ∀ i, Recorded lines helper i ↔ i < n

/-- The first helper with a gap, in the order of first records, and its smallest missing number. -/
structure FirstGap (lines : List Text) (helper : Text) (index : Nat) : Prop where
  first : ∃ pre line post, lines = pre ++ line :: post ∧ (∃ i, Recorded [line] helper i) ∧
    ∀ other i, Recorded pre other i → GapFree lines other
  gap : ¬ GapFree lines helper
  missing : ¬ Recorded lines helper index
  least : ∀ i < index, Recorded lines helper i

/-- A record whose number cannot be read, the first one of the lines. -/
def FirstUnreadable (lines : List Text) (fault : Fault) : Prop :=
  ∃ pre line post, lines = pre ++ line :: post ∧ StoredOffset.read? line = some (.error fault) ∧
    ∀ l ∈ pre, ∀ f, StoredOffset.read? l ≠ some (.error f)

/-- The number of lines in front of the first sentinel. -/
def FirstSentinel (settings : Settings) (lines : List Text) (n : Nat) : Prop :=
  ∃ pre line post, lines = pre ++ line :: post ∧ pre.length = n ∧
    Baseline.isSentinel settings line = true ∧
    ∀ l ∈ pre, Baseline.isSentinel settings l = false

namespace Baseline

/-! ## 2. From records back to lines -/

/-- A selected element and what is selected in front of it, found in the list. -/
theorem exists_of_filterMap_eq_append_cons {α β : Type} {f : α → Option β} {l : List α}
    {bpre bpost : List β} {b : β} (h : l.filterMap f = bpre ++ b :: bpost) :
    ∃ pre a post, l = pre ++ a :: post ∧ f a = some b ∧ pre.filterMap f = bpre := by
  obtain ⟨l₁, l₂, rfl, h1, h2⟩ := List.filterMap_eq_append_iff.mp h
  obtain ⟨m, a, post, rfl, hm, ha, -⟩ := List.filterMap_eq_cons_iff.mp h2
  refine ⟨l₁ ++ m, a, post, by rw [List.append_assoc], ha, ?_⟩
  rw [List.filterMap_append, h1, List.filterMap_eq_nil_iff.mpr hm, List.append_nil]

/-- **The records cannot be read just when one of them cannot**; the first of these is to blame. -/
theorem offsetRecords_eq_error {lines : List Text} {fault : Fault} :
    offsetRecords lines = .error fault ↔ FirstUnreadable lines fault := by
  rw [offsetRecords, mapM_eq_error]
  constructor
  · rintro ⟨xs, x, ys, hx, hok, hfault⟩
    obtain ⟨pre, line, post, rfl, hline, rfl⟩ := exists_of_filterMap_eq_append_cons hx
    refine ⟨pre, line, post, rfl, by rw [hline, show x = .error fault from hfault], ?_⟩
    intro l hl f hf
    obtain ⟨r, hr⟩ := hok _ (List.mem_filterMap.mpr ⟨l, hl, hf⟩)
    cases hr
  · rintro ⟨pre, line, post, rfl, hline, hpre⟩
    refine ⟨pre.filterMap StoredOffset.read?, _, post.filterMap StoredOffset.read?, ?_, ?_, rfl⟩
    · rw [List.filterMap_append, List.filterMap_cons_some hline]
    · intro x hx
      obtain ⟨l, hl, hlx⟩ := List.mem_filterMap.mp hx
      cases x with
      | ok r => exact ⟨r, rfl⟩
      | error f => exact absurd hlx (hpre l hl f)

variable {lines : List Text} {records : List StoredOffset}

theorem recorded_iff (h : offsetRecords lines = .ok records) {helper : Text} {index : Nat} :
    Recorded lines helper index ↔ ∃ r ∈ records, helper = r.helper ∧ index = r.index := by
  constructor
  · rintro ⟨line, hl, values, hr⟩
    exact ⟨_, (mem_of_offsetRecords h).mpr ⟨line, hl, hr⟩, rfl, rfl⟩
  · rintro ⟨r, hr, rfl, rfl⟩
    obtain ⟨line, hl, hr⟩ := (mem_of_offsetRecords h).mp hr
    exact ⟨line, hl, r.values, hr⟩

theorem recorded_iff_look (h : offsetRecords lines = .ok records) {helper : Text} {index : Nat} :
    Recorded lines helper index ↔ ((gather records).look helper index).isSome = true := by
  rw [recorded_iff h, isSome_look_gather]

/-- The line of a record.  The lines in front of it hold the records in front of it. -/
theorem exists_line_of_record {rpre rpost : List StoredOffset} {r : StoredOffset}
    (h : offsetRecords lines = .ok (rpre ++ r :: rpost)) :
    ∃ pre line post, lines = pre ++ line :: post ∧ StoredOffset.read? line = some (.ok r) ∧
      ∀ other i, Recorded pre other i → ∃ q ∈ rpre, q.helper = other := by
  have hread : lines.filterMap StoredOffset.read? = rpre.map .ok ++ .ok r :: rpost.map .ok := by
    rw [mapM_id_eq_ok.mp h, List.map_append, List.map_cons]
  obtain ⟨pre, line, post, hlines, hline, hfront⟩ := exists_of_filterMap_eq_append_cons hread
  refine ⟨pre, line, post, hlines, hline, ?_⟩
  rintro other i ⟨l, hl, values, hv⟩
  have hmem := List.mem_filterMap.mpr ⟨l, hl, hv⟩
  rw [hfront] at hmem
  obtain ⟨q, hq, hqe⟩ := List.mem_map.mp hmem
  obtain rfl := Except.ok.inj hqe
  exact ⟨_, hq, rfl⟩

/-- What a line gives for a helper and a number is what its record gives. -/
theorem filterMap_offsetAt (h : offsetRecords lines = .ok records) (helper : Text) (index : Nat) :
    lines.filterMap (offsetAt helper index) =
      records.filterMap (StoredOffset.valuesFor helper index) := by
  have hread : lines.filterMap StoredOffset.read? = records.map .ok := mapM_id_eq_ok.mp h
  have hsplit : lines.filterMap (offsetAt helper index) =
      (lines.filterMap StoredOffset.read?).filterMap fun r =>
        r.toOption.bind (StoredOffset.valuesFor helper index) :=
    List.filterMap_filterMap.symm
  rw [hsplit, hread, List.filterMap_map]
  rfl

/-! ## 3. What is gathered -/

/-- Under a helper and a number stands what the last record of the two gives. -/
theorem look_gather_eq_getLast? (records : List StoredOffset) (helper : Text) (index : Nat) :
    (gather records).look helper index =
      (records.filterMap (StoredOffset.valuesFor helper index)).getLast? := by
  induction records using List.reverseRecOn with
  | nil => rfl
  | append_singleton records r ih =>
    rw [gather_concat, look_put, ih, List.filterMap_append, List.getLast?_append]
    by_cases h : helper = r.helper ∧ index = r.index <;> simp [StoredOffset.valuesFor, h]

/-- The rest position of a helper is that of its last record. -/
theorem get?_restOf (lines : List Text) (helper : Text) :
    (restOf lines).get? helper = (lines.filterMap (restAt helper)).getLast? := by
  rw [restOf, Roster.get?_ofList, List.filterMap_map, List.filterMap_filterMap]
  rfl

/-- **The helpers are gathered in the order of their first records.**  In front of the first record
of a helper there are only records of helpers that were gathered before it. -/
theorem exists_first_of_keys_gather {records : List StoredOffset} {kpre kpost : List Text}
    {helper : Text} (h : (gather records).keys = kpre ++ helper :: kpost) :
    ∃ rpre r rpost, records = rpre ++ r :: rpost ∧ r.helper = helper ∧
      ∀ q ∈ rpre, q.helper ∈ kpre := by
  induction records using List.reverseRecOn generalizing kpost with
  | nil => simp [gather, Roster.keys, EmptyCollection.emptyCollection] at h
  | append_singleton records r ih =>
    rw [gather_concat] at h
    by_cases hmem : r.helper ∈ (gather records).keys
    · rw [Roster.keys_put_of_mem _ hmem] at h
      obtain ⟨rpre, q, rpost, rfl, hq, hpre⟩ := ih h
      exact ⟨rpre, q, rpost ++ [r], by simp, hq, hpre⟩
    · rw [Roster.keys_put_of_not_mem _ hmem] at h
      rcases List.eq_nil_or_concat kpost with rfl | ⟨ks, k, rfl⟩
      · -- the new helper itself
        obtain ⟨rfl, hk⟩ := List.append_inj' h rfl
        refine ⟨records, r, [], rfl, (List.cons.inj hk).1, ?_⟩
        intro q hq
        exact Roster.isSome_get?_iff.mp (isSome_get?_gather.mpr ⟨q, hq, rfl⟩)
      · have hks : kpre ++ helper :: (ks ++ [k]) = (kpre ++ helper :: ks) ++ [k] := by simp
        rw [List.concat_eq_append, hks] at h
        obtain ⟨rpre, q, rpost, rfl, hq, hpre⟩ := ih (List.append_inj' h rfl).1
        exact ⟨rpre, q, rpost ++ [r], by simp, hq, hpre⟩

/-! ## 4. Where the order fails -/

/-- **A helper fails at the smallest number that is missing**, which is below their count. -/
theorem sequenceOf_eq_error {helper : Text} {numbered : Roster Nat Triple} {m : Mismatch}
    (h : sequenceOf helper numbered = .error m) :
    ∃ i : Nat, m = { helper := some helper, index := some i } ∧ i < numbered.entries.length ∧
      numbered.get? i = none ∧ ∀ j < i, (numbered.get? j).isSome = true := by
  obtain ⟨pre, i, post, hrange, hok, hi⟩ := mapM_eq_error.mp h
  have hat : (List.range numbered.entries.length)[pre.length]? = some i := by
    rw [hrange, List.getElem?_append_right le_rfl, Nat.sub_self, List.getElem?_cons_zero]
  obtain ⟨hlt, hpi⟩ := List.getElem?_eq_some_iff.mp hat
  rw [List.getElem_range] at hpi
  rw [List.length_range] at hlt
  cases hn : numbered.get? i with
  | some values =>
    rw [hn] at hi
    cases hi
  | none =>
    rw [hn] at hi
    refine ⟨i, (Except.error.inj hi).symm, hpi ▸ hlt, hn, ?_⟩
    intro j hj
    have hmem : j ∈ pre := by
      have hjn : (List.range numbered.entries.length)[j]? = some j :=
        List.getElem?_range (by omega)
      rw [hrange, List.getElem?_append_left (by omega)] at hjn
      exact List.mem_of_getElem? hjn
    obtain ⟨values, hv⟩ := hok j hmem
    cases hnj : numbered.get? j with
    | some _ => rfl
    | none =>
      rw [hnj] at hv
      cases hv

/-- Under a helper that was gathered stands what was gathered for it. -/
theorem look_of_get? {numbered : Numbered} {helper : Text} {n : Roster Nat Triple}
    (h : numbered.get? helper = some n) (index : Nat) :
    numbered.look helper index = n.get? index := by
  rw [Numbered.look, h, Option.bind_some]

/-- A helper whose numbers are put in order has no gap. -/
theorem gapFree_of_sequenceOf (h : offsetRecords lines = .ok records) {helper : Text}
    {n : Roster Nat Triple} (hn : (gather records).get? helper = some n) {s : List Triple}
    (hs : sequenceOf helper n = .ok s) : GapFree lines helper := by
  refine ⟨s.length, ?_⟩
  intro i
  rw [recorded_iff_look h, look_of_get? hn, ← sequenceOf_eq_ok_iff.mp hs i,
    Option.isSome_iff_ne_none, Ne, List.getElem?_eq_none_iff, Nat.not_le]

/-- A helper whose numbers cannot be put in order has a gap: below their count one is missing. -/
theorem not_gapFree_of_sequenceOf (h : offsetRecords lines = .ok records) {helper : Text}
    {n : Roster Nat Triple} (hn : (gather records).get? helper = some n) {m : Mismatch}
    (hm : sequenceOf helper n = .error m) : ¬ GapFree lines helper := by
  rintro ⟨k, hk⟩
  obtain ⟨i, -, hlt, hnone, -⟩ := sequenceOf_eq_error hm
  have hget : ∀ j, (n.get? j).isSome = true ↔ j < k := by
    intro j
    rw [← look_of_get? hn, ← recorded_iff_look h, hk]
  have hsome := (hget i).mpr (Roster.length_entries_of_get? hget ▸ hlt)
  rw [hnone] at hsome
  cases hsome

/-- **The offsets can be put in order just when no helper has a gap.** -/
theorem exists_sequences_iff (h : offsetRecords lines = .ok records) :
    (∃ offsets, sequences (gather records) = .ok offsets) ↔ ∀ helper, GapFree lines helper := by
  constructor
  · rintro ⟨offsets, hs⟩ helper
    refine ⟨((offsets.get? helper).getD []).length, ?_⟩
    intro i
    rw [recorded_iff_look h, ← (get?_sequences hs helper).2, Option.isSome_iff_ne_none, Ne,
      List.getElem?_eq_none_iff, Nat.not_le]
  · intro hg
    refine exists_sequences ?_
    intro helper n hn
    cases hs : sequenceOf helper n with
    | ok s => exact ⟨s, sequenceOf_eq_ok_iff.mp hs⟩
    | error m => exact absurd (hg helper) (not_gapFree_of_sequenceOf h hn hs)

/-- **Where they cannot, the first gap is to blame.** -/
theorem firstGap_of_sequences (h : offsetRecords lines = .ok records) {m : Mismatch}
    (hm : sequences (gather records) = .error m) :
    ∃ helper i, FirstGap lines helper i ∧
      m = { helper := some helper, index := some (i : Nat) } := by
  obtain ⟨epre, ⟨helper, n⟩, epost, hentries, hok, hfail⟩ := mapM_eq_error.mp (map_eq_error.mp hm)
  have hfail := map_eq_error.mp hfail
  have hget : ∀ e ∈ epre ++ (helper, n) :: epost, (gather records).get? e.1 = some e.2 := by
    intro e he
    exact Roster.get?_of_mem (hentries ▸ he)
  have hn : (gather records).get? helper = some n := hget (helper, n) (by simp)
  obtain ⟨i, rfl, -, hnone, hleast⟩ := sequenceOf_eq_error hfail
  -- the helpers in front were put in order
  have hfree : ∀ other ∈ epre.map Prod.fst, GapFree lines other := by
    intro other ho
    obtain ⟨e, he, rfl⟩ := List.mem_map.mp ho
    obtain ⟨s, hs⟩ := hok e he
    obtain ⟨s, hs, -⟩ := map_eq_ok.mp hs
    exact gapFree_of_sequenceOf h (hget e (List.mem_append_left _ he)) hs
  have hkeys : (gather records).keys = epre.map Prod.fst ++ helper :: epost.map Prod.fst := by
    rw [Roster.keys, hentries, List.map_append, List.map_cons]
  obtain ⟨rpre, r, rpost, rfl, rfl, hpre⟩ := exists_first_of_keys_gather hkeys
  obtain ⟨pre, line, post, hlines, hline, hfront⟩ := exists_line_of_record h
  refine ⟨r.helper, i, ⟨⟨pre, line, post, hlines, ?_, ?_⟩, ?_, ?_, ?_⟩, rfl⟩
  · exact ⟨r.index, line, List.mem_singleton_self _, r.values, hline⟩
  · intro other j hother
    obtain ⟨q, hq, rfl⟩ := hfront other j hother
    exact hfree _ (hpre q hq)
  · exact not_gapFree_of_sequenceOf h hn hfail
  · rw [recorded_iff_look h, look_of_get? hn, hnone]
    simp
  · intro j hj
    rw [recorded_iff_look h, look_of_get? hn]
    exact hleast j hj

/-! ## 5. Reading as a whole -/

/-- A line is a record of either kind. -/
def IsRecord (line : Text) : Prop := VrdShape.record? line ≠ none

/-- A baseline has something in it just when some line is a record. -/
theorem isEmpty_eq_false_iff_isRecord (h : offsetRecords lines = .ok records)
    {offsets : Roster Text (List Triple)} (hs : sequences (gather records) = .ok offsets) :
    ((restOf lines).isEmpty && offsets.isEmpty) = false ↔ ∃ line ∈ lines, IsRecord line := by
  have hrest : (restOf lines).isEmpty = false ↔
      ∃ line ∈ lines, StoredRest.read? line ≠ none := by
    rw [Roster.isEmpty_eq_false]
    constructor
    · rintro ⟨helper, hc⟩
      obtain ⟨e, he, -⟩ := Roster.contains_ofList.mp hc
      obtain ⟨r, hr, -⟩ := List.mem_map.mp he
      obtain ⟨line, hl, hr⟩ := List.mem_filterMap.mp hr
      exact ⟨line, hl, by simp [hr]⟩
    · rintro ⟨line, hl, hne⟩
      obtain ⟨r, hr⟩ := Option.ne_none_iff_exists'.mp hne
      refine ⟨r.helper, Roster.contains_ofList.mpr ⟨(r.helper, r.values), ?_, rfl⟩⟩
      exact List.mem_map.mpr ⟨r, List.mem_filterMap.mpr ⟨line, hl, hr⟩, rfl⟩
  have hoffset : offsets.isEmpty = false ↔ ∃ line ∈ lines, StoredOffset.read? line ≠ none := by
    simp only [Roster.isEmpty_eq_false, (get?_sequences hs _).1, isSome_get?_gather]
    constructor
    · rintro ⟨helper, r, hr, -⟩
      obtain ⟨line, hl, hr⟩ := (mem_of_offsetRecords h).mp hr
      exact ⟨line, hl, by simp [hr]⟩
    · rintro ⟨line, hl, hne⟩
      obtain ⟨x, hx⟩ := Option.ne_none_iff_exists'.mp hne
      have hmem : x ∈ records.map (Except.ok (ε := Fault)) := by
        rw [← mapM_id_eq_ok.mp h]
        exact List.mem_filterMap.mpr ⟨line, hl, hx⟩
      obtain ⟨r, hr, -⟩ := List.mem_map.mp hmem
      exact ⟨r.helper, r, hr, rfl⟩
  rw [Bool.and_eq_false_iff, hrest, hoffset, ← exists_or]
  refine exists_congr ?_
  intro line
  rw [← and_or_left, IsRecord, Ne, Ne, Ne, record?_eq_none, not_and_or]

theorem hasMarker_eq_false_iff {settings : Settings} :
    hasMarker settings lines = false ↔ ∀ line ∈ lines, isSentinel settings line = false := by
  simp [hasMarker]

theorem exists_firstSentinel {settings : Settings} (hm : hasMarker settings lines = true) :
    ∃ n, lines.findIdx? (isSentinel settings) = some n ∧ FirstSentinel settings lines n := by
  cases hf : lines.findIdx? (isSentinel settings) with
  | none =>
    rw [List.findIdx?_eq_none_iff] at hf
    rw [hasMarker_eq_false_iff.mpr hf] at hm
    cases hm
  | some n =>
    obtain ⟨hn, hs, hlow⟩ := List.findIdx?_eq_some_iff_getElem.mp hf
    refine ⟨n, rfl, lines.take n, lines[n], lines.drop (n + 1), ?_, ?_, hs, ?_⟩
    · rw [← List.drop_eq_getElem_cons hn, List.take_append_drop]
    · rw [List.length_take, Nat.min_eq_left hn.le]
    · intro l hl
      obtain ⟨j, hj, rfl⟩ := List.mem_take_iff_getElem.mp hl
      exact Bool.eq_false_iff.mpr (hlow j (by omega))

/-- What holds of a script with a baseline to be read. -/
theorem exists_stored_iff {settings : Settings} :
    (∃ b, stored settings lines = .ok (some b)) ↔
      hasMarker settings lines = true ∧ (∀ fault, ¬ FirstUnreadable lines fault) ∧
        (∃ line ∈ lines, IsRecord line) ∧ ∀ helper, GapFree lines helper := by
  constructor
  · rintro ⟨⟨rest, offsets⟩, hb⟩
    obtain ⟨hm, ⟨records, ho, hs⟩, rfl, he⟩ := stored_eq_ok_some.mp hb
    refine ⟨hm, ?_, (isEmpty_eq_false_iff_isRecord ho hs).mp he,
      (exists_sequences_iff ho).mp ⟨_, hs⟩⟩
    intro fault hf
    rw [offsetRecords_eq_error.mpr hf] at ho
    cases ho
  · rintro ⟨hm, hread, hrec, hfree⟩
    cases ho : offsetRecords lines with
    | error fault => exact absurd (offsetRecords_eq_error.mp ho) (hread fault)
    | ok records =>
      obtain ⟨offsets, hs⟩ := (exists_sequences_iff ho).mpr hfree
      exact ⟨⟨restOf lines, offsets⟩, stored_eq_ok_some.mpr
        ⟨hm, ⟨records, ho, hs⟩, rfl, (isEmpty_eq_false_iff_isRecord ho hs).mpr hrec⟩⟩

/-- **A baseline that is read holds what the last records say.** -/
theorem getLast?_of_stored {settings : Settings} {b : Baseline}
    (h : stored settings lines = .ok (some b)) (helper : Text) :
    b.rest.get? helper = (lines.filterMap (restAt helper)).getLast? ∧
      ∀ i, (b.sequence helper)[i]? = (lines.filterMap (offsetAt helper i)).getLast? := by
  obtain ⟨-, ⟨records, ho, hs⟩, hrest, -⟩ := stored_eq_ok_some.mp h
  refine ⟨by rw [hrest, get?_restOf], ?_⟩
  intro i
  rw [filterMap_offsetAt ho, ← look_gather_eq_getLast?]
  exact (get?_sequences hs helper).2 i

/-- **A mismatch names the first gap**, or the first sentinel if there are no records. -/
theorem mismatch_of_stored {settings : Settings} {m : Mismatch}
    (h : stored settings lines = .error (.mismatch m)) :
    (∃ helper i, FirstGap lines helper i ∧
      m = { helper := some helper, index := some (i : Nat) }) ∨
    (∀ line ∈ lines, ¬ IsRecord line) ∧
      ∃ n, FirstSentinel settings lines n ∧ m = { line := some (n + 1 : Int) } := by
  rw [stored_eq] at h
  split at h
  · rename_i hm
    cases ho : offsetRecords lines with
    | error fault =>
      rw [ho] at h
      cases h
    | ok records =>
      rw [ho] at h
      dsimp only at h
      cases hs : sequences (gather records) with
      | error gap =>
        rw [hs] at h
        obtain rfl := BonesError.mismatch.inj (Except.error.inj h)
        exact Or.inl (firstGap_of_sequences ho hs)
      | ok offsets =>
        rw [hs] at h
        dsimp only at h
        split at h
        · rename_i he
          obtain ⟨n, hn, hfirst⟩ := exists_firstSentinel hm
          rw [hn] at h
          obtain rfl := BonesError.mismatch.inj (Except.error.inj h)
          refine Or.inr ⟨fun line hl hr => ?_, n, hfirst, rfl⟩
          rw [(isEmpty_eq_false_iff_isRecord ho hs).mpr ⟨line, hl, hr⟩] at he
          cases he
        · cases h
  · cases h

/-- Where a number cannot be read, reading ends with it. -/
theorem stored_eq_fault_iff {settings : Settings} {fault : Fault} :
    stored settings lines = .error (.fault fault) ↔
      hasMarker settings lines = true ∧ FirstUnreadable lines fault := by
  rw [stored_eq, ← offsetRecords_eq_error]
  cases hasMarker settings lines with
  | false => simp
  | true =>
    cases offsetRecords lines with
    | error f => simp
    | ok records =>
      dsimp only
      cases sequences (gather records) with
      | error m => simp
      | ok offsets =>
        rw [if_pos rfl]
        dsimp only
        split <;> simp

theorem stored_eq_none_iff {settings : Settings} :
    stored settings lines = .ok none ↔ hasMarker settings lines = false := by
  cases hm : hasMarker settings lines with
  | true => exact iff_of_false (stored_of_hasMarker hm) (by simp)
  | false => simp [stored_eq, hm]

/-- **Which marker blocks are read**, with every way in which reading ends.  Nothing is read just
when no line is a sentinel.  With one, a baseline is read just when the number of every record can
be read, there is a record, and no helper has a gap; what it holds is what the last records say.
A mismatch names the first helper with a gap and its smallest missing number, or the line of the
first sentinel if there are no records.  A record whose number has too many digits ends the
reading, before any of this is looked at. -/
theorem stored_iff_gapFree (settings : Settings) (lines : List Text) :
    (stored settings lines = .ok none ↔ ∀ line ∈ lines, isSentinel settings line = false) ∧
      ((∃ b, stored settings lines = .ok (some b)) ↔
        (∃ line ∈ lines, isSentinel settings line = true) ∧ (∀ fault, ¬ FirstUnreadable lines fault) ∧
          (∃ line ∈ lines, IsRecord line) ∧ ∀ helper, GapFree lines helper) ∧
      (∀ b, stored settings lines = .ok (some b) → ∀ helper,
        b.rest.get? helper = (lines.filterMap (restAt helper)).getLast? ∧
          ∀ i, (b.sequence helper)[i]? = (lines.filterMap (offsetAt helper i)).getLast?) ∧
      (∀ m, stored settings lines = .error (.mismatch m) →
        (∃ helper i, FirstGap lines helper i ∧
          m = { helper := some helper, index := some (i : Nat) }) ∨
        (∀ line ∈ lines, ¬ IsRecord line) ∧
          ∃ n, FirstSentinel settings lines n ∧ m = { line := some (n + 1 : Int) }) ∧
      ∀ fault, stored settings lines = .error (.fault fault) ↔
        (∃ line ∈ lines, isSentinel settings line = true) ∧ FirstUnreadable lines fault := by
  have hmark : (∃ line ∈ lines, isSentinel settings line = true) ↔
      hasMarker settings lines = true := by
    rw [hasMarker, List.any_eq_true]
  rw [← hasMarker_eq_false_iff, hmark]
  exact ⟨stored_eq_none_iff, exists_stored_iff, fun _ => getLast?_of_stored,
    fun _ => mismatch_of_stored, fun _ => stored_eq_fault_iff⟩

/-- Records of two helpers, out of order, before and behind the sentinel, and some of them repeated.
One more of the second helper leaves a gap. -/
theorem stored_iff_gapFree_shuffled :
    let lines : List Text := ["// QCSCALE_TRANSLATION a 1 1 1 1".toList,
      "// QCSCALE_BASEPOS b 9 9 9".toList, "// QCSCALE_NORMALIZATION_DATA".toList,
      "// QCSCALE_TRANSLATION b 0 2 2 2".toList, "// QCSCALE_TRANSLATION a 0 3 3 3".toList,
      "// QCSCALE_BASEPOS b 4 4 4".toList, "// QCSCALE_TRANSLATION a 01 5 5 5".toList]
    let gap := lines ++ ["// QCSCALE_TRANSLATION b 2 0 0 0".toList]
    (∃ b, stored {} lines = .ok (some b) ∧
      b.rest.get? "b".toList = some ⟨"4".toList, "4".toList, "4".toList⟩ ∧
      (b.sequence "a".toList)[1]? = some ⟨"5".toList, "5".toList, "5".toList⟩) ∧
      (∀ helper, GapFree lines helper) ∧
      stored {} gap = .error (.mismatch { helper := some "b".toList, index := some 1 }) ∧
      FirstGap gap "b".toList 1 := by
  intro lines gap
  obtain ⟨-, hok, hlast, -, -⟩ := stored_iff_gapFree {} lines
  obtain ⟨-, -, -, hmis, -⟩ := stored_iff_gapFree {} gap
  have hsome : ((stored {} lines).toOption.bind id).isSome = true := by decide +kernel
  obtain ⟨b, hb⟩ := Option.isSome_iff_exists.mp hsome
  obtain ⟨b?, hb?, rfl⟩ := Option.bind_eq_some_iff.mp hb
  have hb := toOption_eq_some.mp hb?
  obtain ⟨-, -, -, hfree⟩ := hok.mp ⟨b, hb⟩
  have hfail : stored {} gap = .error (.mismatch
      { helper := some "b".toList, index := some 1 }) := by
    have h : (match stored {} gap with
        | .error e => some e
        | .ok _ => none) = some (.mismatch { helper := some "b".toList, index := some 1 }) := by
      decide +kernel
    split at h
    · rename_i e he
      rw [he, Option.some.inj h]
    · cases h
  refine ⟨⟨b, hb, ?_, ?_⟩, hfree, hfail, ?_⟩
  · rw [(hlast b hb "b".toList).1]
    decide +kernel
  · rw [(hlast b hb "a".toList).2 1]
    decide +kernel
  · rcases hmis _ hfail with ⟨helper, i, hg, he⟩ | ⟨-, n, -, he⟩
    · obtain ⟨hh, hi, -⟩ := Mismatch.mk.inj he
      obtain rfl := Option.some.inj hh
      have h1 : i = 1 := by exact_mod_cast (Option.some.inj hi).symm
      rw [← h1]
      exact hg
    · cases he

/-- The words of an offset record at the origin, whatever its number. -/
theorem commentWords?_offset {helper index : Text} (hh : Inked helper ∧ helper ≠ [])
    (hi : index.all isDigit = true) (hne : index ≠ []) :
    commentWords? (commentOf [StoredOffset.tag, helper, index, ['0'], ['0'], ['0']]) =
      some [StoredOffset.tag, helper, index, ['0'], ['0'], ['0']] := by
  have hindex : Inked index := fun c hc => isBlank_of_isDigit (List.all_eq_true.mp hi c hc)
  refine commentWords?_commentOf ?_
  intro t ht
  simp only [List.mem_cons, List.not_mem_nil, or_false] at ht
  rcases ht with rfl | rfl | rfl | rfl | rfl | rfl
  · exact ⟨by decide, by decide⟩
  · exact hh
  · exact ⟨hindex, hne⟩
  all_goals exact ⟨by decide, by decide⟩

/-- A record with a number of too many digits is recognised, and cannot be read. -/
theorem read?_of_digitLimit_lt {helper index : Text} (hh : Inked helper ∧ helper ≠ [])
    (hi : index.all isDigit = true) (hl : digitLimit < index.length) :
    StoredOffset.read? (commentOf [StoredOffset.tag, helper, index, ['0'], ['0'], ['0']]) =
      some (.error (.tooManyDigits index.length)) := by
  have hne : index ≠ [] := List.ne_nil_of_length_pos (by omega)
  rw [StoredOffset.read?, commentWords?_offset hh hi hne]
  simp only [hi, readInteger, if_pos hl]
  rfl

/-- A block whose only offset has the number zero, in more digits than can be read: it has no gap,
and is not read. -/
theorem stored_iff_gapFree_unreadable :
    let index : Text := List.replicate 4301 '0'
    let lines : List Text := ["// QCSCALE_NORMALIZATION_DATA".toList,
      commentOf [StoredOffset.tag, "h".toList, index, ['0'], ['0'], ['0']]]
    index.all isDigit = true ∧ digitsValue index = 0 ∧
      stored {} lines = .error (.fault (.tooManyDigits 4301)) := by
  intro index lines
  have hi : index.all isDigit = true :=
    List.all_eq_true.mpr fun c hc => List.eq_of_mem_replicate hc ▸ by decide
  have hlen : index.length = 4301 := List.length_replicate
  refine ⟨hi, ?_, ?_⟩
  · have h := Decimal.digitsValue_zeros_append 4301 []
    rwa [List.append_nil] at h
  · have hread := @read?_of_digitLimit_lt "h".toList index ⟨by decide, by decide⟩ hi
      (by rw [hlen]; decide)
    rw [hlen] at hread
    refine stored_eq_fault_iff.mpr ⟨rfl, ["// QCSCALE_NORMALIZATION_DATA".toList], _, [], rfl,
      hread, ?_⟩
    intro l hl f
    have hnone : StoredOffset.read? "// QCSCALE_NORMALIZATION_DATA".toList = none := by decide
    rw [List.mem_singleton.mp hl, hnone]
    simp

end Baseline

end ModelScale
