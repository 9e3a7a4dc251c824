import Mathlib.Data.List.Induction
import ModelScale.Proofs.Outcome
import ModelScale.Proofs.Roster
import ModelScale.Vrd.Baseline

/-
# What records of offsets amount to

The records of the offsets are gathered by helper and number, and put in order helper by helper.
Both are described exactly:

* `look_gather`: under a helper and a number stands what the last record of the two says;
* `sequenceOf_eq_ok_iff`: the sequence of a helper, if there is one, holds at each number what was
  gathered for it, and nothing else;
* `get?_sequences`, `exists_sequences`: all helpers together.
-/

namespace ModelScale.Baseline

/-! ## 1. Gathering -/

/-- The values under a helper and a number. -/
def Numbered.look (n : Numbered) (helper : Text) (index : Nat) : Option Triple :=
  (n.get? helper).bind (·.get? index)

/-- One record goes where it says, and changes nothing else. -/
theorem look_put (n : Numbered) (r : StoredOffset) (helper : Text) (index : Nat) :
    Numbered.look (n.put r.helper (((n.get? r.helper).getD ∅).put r.index r.values)) helper index =
      if helper = r.helper ∧ index = r.index then some r.values else n.look helper index := by
  unfold Numbered.look
  rw [Roster.get?_put]
  by_cases hh : helper = r.helper
  · subst hh
    rw [if_pos rfl, Option.bind_some, Roster.get?_put]
    by_cases hi : index = r.index
    · rw [if_pos hi, if_pos ⟨rfl, hi⟩]
    · rw [if_neg hi, if_neg fun e => hi e.2]
      cases n.get? r.helper <;> rfl
  · rw [if_neg hh, if_neg fun e => hh e.1]

theorem gather_concat (records : List StoredOffset) (r : StoredOffset) :
    gather (records ++ [r]) = (gather records).put r.helper
      ((((gather records).get? r.helper).getD ∅).put r.index r.values) := by
  rw [gather, List.foldl_append]
  rfl

/-- **Under a helper and a number stands what the last record of the two says.** -/
theorem look_gather (records : List StoredOffset) (helper : Text) (index : Nat) :
    (gather records).look helper index =
      (records.reverse.find? fun r => helper = r.helper ∧ index = r.index).map (·.values) := by
  induction records using List.reverseRecOn with
  | nil => rfl
  | append_singleton records r ih =>
    rw [gather_concat, look_put, ih, List.reverse_concat, List.find?_cons]
    by_cases h : helper = r.helper ∧ index = r.index <;> simp [h]

/-- Later records count before earlier ones. -/
theorem look_gather_append (older newer : List StoredOffset) (helper : Text) (index : Nat) :
    (gather (older ++ newer)).look helper index =
      ((gather newer).look helper index).or ((gather older).look helper index) := by
  rw [look_gather, look_gather, look_gather, List.reverse_append, List.find?_append, Option.map_or]

/-- For each helper, exactly the numbers of its records are gathered. -/
theorem isSome_look_gather {records : List StoredOffset} {helper : Text} {index : Nat} :
    ((gather records).look helper index).isSome = true ↔
      ∃ r ∈ records, helper = r.helper ∧ index = r.index := by
  simp [look_gather]

/-- Exactly the helpers of the records are gathered. -/
theorem isSome_get?_gather {records : List StoredOffset} {helper : Text} :
    ((gather records).get? helper).isSome = true ↔ ∃ r ∈ records, helper = r.helper := by
  induction records using List.reverseRecOn with
  | nil => simp [gather]
  | append_singleton records r ih =>
    rw [gather_concat, Roster.get?_put]
    by_cases h : helper = r.helper
    · simp [h]
    · simp [h, ih]

/-! ## 2. Putting in order -/

/-- **The sequence of a helper, if there is one, holds what was gathered, at its numbers.** -/
theorem sequenceOf_eq_ok_iff {helper : Text} {numbered : Roster Nat Triple} {s : List Triple} :
    sequenceOf helper numbered = .ok s ↔ ∀ i, s[i]? = numbered.get? i := by
  rw [sequenceOf, mapM_eq_ok, List.forall₂_iff_get]
  constructor
  · rintro ⟨hlen, hget⟩ i
    rw [List.length_range] at hlen
    have hlow : ∀ i < numbered.entries.length, s[i]? = numbered.get? i := by
      intro i hi
      have h := hget i (by rwa [List.length_range]) (by omega)
      rw [List.get_eq_getElem, List.get_eq_getElem, List.getElem_range] at h
      rw [List.getElem?_eq_getElem (by omega)]
      split at h
      · rename_i v hv
        rw [hv, Except.ok.inj h]
      · cases h
    by_cases hi : i < numbered.entries.length
    · exact hlow i hi
    · -- one more number would be one more entry
      have hall : ∀ k < numbered.entries.length, (numbered.get? k).isSome = true := by
        intro k hk
        rw [← hlow k hk, List.getElem?_eq_getElem (by omega)]
        rfl
      have hnone := (Roster.isSome_get?_iff_lt hall i).not.mpr hi
      rw [List.getElem?_eq_none (by omega), Option.not_isSome_iff_eq_none.mp hnone]
  · intro h
    have hlen : numbered.entries.length = s.length := by
      refine Roster.length_entries_of_get? ?_
      intro i
      rw [← h i, Option.isSome_iff_ne_none, Ne, List.getElem?_eq_none_iff, Nat.not_le]
    rw [hlen]
    refine ⟨List.length_range, ?_⟩
    intro i h1 h2
    rw [List.get_eq_getElem, List.get_eq_getElem, List.getElem_range, ← h i,
      List.getElem?_eq_getElem h2]

/-- The sequences are those of the helpers that were gathered, and hold what was gathered. -/
theorem get?_sequences {numbered : Numbered} {offsets : Roster Text (List Triple)}
    (h : sequences numbered = .ok offsets) (helper : Text) :
    (offsets.get? helper).isSome = (numbered.get? helper).isSome ∧
      ∀ i, ((offsets.get? helper).getD [])[i]? = numbered.look helper i := by
  obtain ⟨pairs, hp, rfl⟩ := map_eq_ok.mp h
  obtain ⟨hkeys, hmem⟩ := mapM_snd_eq_ok hp
  -- the pairs are a roster already
  let r : Roster Text (List Triple) := ⟨pairs, hkeys ▸ numbered.distinct⟩
  have hr : (Roster.ofList pairs).get? helper = r.get? helper := Roster.get?_ofList_entries r helper
  have hsome : (r.get? helper).isSome = (numbered.get? helper).isSome := by
    rw [Bool.eq_iff_iff, Roster.isSome_get?_iff, Roster.isSome_get?_iff, ← hkeys]
  rw [hr]
  refine ⟨hsome, ?_⟩
  intro i
  cases hn : numbered.get? helper with
  | none =>
    rw [hn, Option.isSome_none, Option.isSome_eq_false_iff, Option.isNone_iff_eq_none] at hsome
    rw [hsome, Numbered.look, hn]
    rfl
  | some n =>
    obtain ⟨s, hs, hq⟩ := hmem helper n (Roster.mem_of_get? hn)
    rw [Roster.get?_of_mem (r := r) hs, Numbered.look, hn]
    exact sequenceOf_eq_ok_iff.mp hq i

/-- There are sequences if what was gathered for each helper is one. -/
theorem exists_sequences {numbered : Numbered}
    (h : ∀ helper n, numbered.get? helper = some n → ∃ s : List Triple, ∀ i, s[i]? = n.get? i) :
    ∃ offsets, sequences numbered = .ok offsets := by
  obtain ⟨pairs, hp⟩ : ∃ pairs, (numbered.entries.mapM fun e =>
      (e.1, ·) <$> sequenceOf e.1 e.2) = .ok pairs := by
    refine exists_mapM_eq_ok ?_
    intro e he
    obtain ⟨s, hs⟩ := h e.1 e.2 (Roster.get?_of_mem he)
    exact ⟨_, map_eq_ok.mpr ⟨s, sequenceOf_eq_ok_iff.mpr hs, rfl⟩⟩
  exact ⟨_, map_eq_ok.mpr ⟨pairs, hp, rfl⟩⟩

end ModelScale.Baseline
