import Mathlib.Data.List.Induction
import Mathlib.Data.List.Perm.Subperm
import Mathlib.Tactic.Common
import ModelScale.Roster

/-
# Looking up what was put in

`get?_put` says what one value changes.  Here are its consequences for many values put in one after
another (`get?_foldl_put`): those of a roster, whose keys are distinct, are all found again, and
what they do not cover is as it was before.
-/

namespace ModelScale.Roster

variable {κ β : Type} [DecidableEq κ]

@[simp] theorem get?_empty (k : κ) : (∅ : Roster κ β).get? k = none := rfl

theorem mem_putEntry {key : κ} {value : β} {entries : List (κ × β)} {e : κ × β}
    (h : e ∈ putEntry key value entries) : e = (key, value) ∨ e ∈ entries := by
  induction entries with
  | nil => exact Or.inl (List.mem_singleton.mp h)
  | cons entry rest ih =>
    rw [putEntry] at h
    split at h
    · rcases List.mem_cons.mp h with h | h
      · exact Or.inl h
      · exact Or.inr (List.mem_cons_of_mem _ h)
    · rcases List.mem_cons.mp h with rfl | h
      · exact Or.inr List.mem_cons_self
      · exact (ih h).imp id (List.mem_cons_of_mem _)

/-- Nothing is in a roster but what was put in. -/
theorem mem_entries_put {r : Roster κ β} {key : κ} {value : β} {e : κ × β}
    (h : e ∈ (r.put key value).entries) : e = (key, value) ∨ e ∈ r.entries :=
  mem_putEntry h

theorem mem_of_get? {r : Roster κ β} {key : κ} {value : β} (h : r.get? key = some value) :
    (key, value) ∈ r.entries := by
  obtain ⟨e, he, rfl⟩ := Option.map_eq_some_iff.mp h
  have hk := List.find?_some he
  rw [decide_eq_true_eq] at hk
  subst hk
  exact List.mem_of_find?_eq_some he

theorem contains_eq_true {r : Roster κ β} {key : κ} :
    r.contains key = true ↔ ∃ value, r.get? key = some value := by
  rw [contains, Option.isSome_iff_exists]

theorem contains_put (r : Roster κ β) (key k : κ) (value : β) :
    (r.put key value).contains k = (decide (k = key) || r.contains k) := by
  rw [contains, contains, get?_put]
  by_cases h : k = key <;> simp [h]

/-- Values put in one after another, under distinct keys. -/
theorem get?_foldl_put (pairs : List (κ × β)) (hd : (pairs.map Prod.fst).Nodup) (r : Roster κ β)
    (k : κ) :
    (pairs.foldl (fun r (key, value) => r.put key value) r).get? k =
      ((pairs.find? (·.1 = k)).map Prod.snd).or (r.get? k) := by
  induction pairs generalizing r with
  | nil => rfl
  | cons e pairs ih =>
    obtain ⟨key, value⟩ := e
    rw [List.map_cons, List.nodup_cons] at hd
    rw [List.foldl_cons, ih hd.2, get?_put, List.find?_cons]
    by_cases h : key = k
    · subst h
      have hn : pairs.find? (·.1 = key) = none := by
        rw [List.find?_eq_none]
        intro e he hk
        rw [decide_eq_true_eq] at hk
        exact hd.1 (List.mem_map.mpr ⟨e, he, hk⟩)
      simp [hn]
    · have h' : ¬ k = key := by
        intro e
        exact h e.symm
      simp [h, h']

/-- **The entries of a roster put in last are found again.** -/
theorem get?_ofList_append (pairs : List (κ × β)) (r : Roster κ β) (k : κ) :
    (ofList (pairs ++ r.entries)).get? k = (r.get? k).or ((ofList pairs).get? k) := by
  rw [ofList, List.foldl_append]
  exact get?_foldl_put r.entries r.distinct _ k

theorem get?_ofList_entries (r : Roster κ β) (k : κ) : (ofList r.entries).get? k = r.get? k := by
  have h := get?_ofList_append [] r k
  rw [List.nil_append] at h
  rw [h]
  exact Option.or_none

/-- Keys that all have values are no more than there are entries. -/
theorem length_le_entries {r : Roster κ β} {keys : List κ} (hd : keys.Nodup)
    (h : ∀ k ∈ keys, (r.get? k).isSome = true) : keys.length ≤ r.entries.length := by
  have hs : keys ⊆ r.entries.map Prod.fst := by
    intro k hk
    obtain ⟨v, hv⟩ := Option.isSome_iff_exists.mp (h k hk)
    exact List.mem_map.mpr ⟨_, mem_of_get? hv, rfl⟩
  have := (List.subperm_of_subset hd hs).length_le
  rwa [List.length_map] at this

/-- A key that is an entry's is looked up as that entry's value. -/
theorem get?_of_mem {r : Roster κ β} {e : κ × β} (h : e ∈ r.entries) : r.get? e.1 = some e.2 := by
  obtain ⟨entries, hd⟩ := r
  simp only [get?] at h ⊢
  induction entries with
  | nil => cases h
  | cons f rest ih =>
    rw [List.map_cons, List.nodup_cons] at hd
    rw [List.find?_cons]
    rcases List.mem_cons.mp h with rfl | h
    · simp
    · have hne : ¬ f.1 = e.1 := by
        intro he
        exact hd.1 (List.mem_map.mpr ⟨e, h, he.symm⟩)
      simp only [hne, decide_false]
      exact ih hd.2 h

/-- The keys with values are those of the entries. -/
theorem isSome_get?_iff {r : Roster κ β} {k : κ} :
    (r.get? k).isSome = true ↔ k ∈ r.entries.map Prod.fst := by
  rw [Option.isSome_iff_exists, List.mem_map]
  constructor
  · rintro ⟨v, hv⟩
    exact ⟨_, mem_of_get? hv, rfl⟩
  · rintro ⟨e, he, rfl⟩
    exact ⟨_, get?_of_mem he⟩

/-- A roster is empty if nothing has a value. -/
theorem isEmpty_eq_false {r : Roster κ β} : r.isEmpty = false ↔ ∃ k, (r.get? k).isSome = true := by
  simp only [isSome_get?_iff]
  rw [isEmpty, List.isEmpty_eq_false_iff_exists_mem]
  constructor
  · rintro ⟨e, he⟩
    exact ⟨e.1, List.mem_map_of_mem he⟩
  · rintro ⟨k, hk⟩
    obtain ⟨e, he, -⟩ := List.mem_map.mp hk
    exact ⟨e, he⟩

/-- A roster of values for the numbers below a bound has as many entries. -/
theorem length_entries_of_get? {r : Roster Nat β} {n : Nat}
    (h : ∀ i, (r.get? i).isSome = true ↔ i < n) : r.entries.length = n := by
  have hp : (r.entries.map Prod.fst).Perm (List.range n) := by
    rw [List.perm_ext_iff_of_nodup r.distinct List.nodup_range]
    intro i
    rw [← isSome_get?_iff, h, List.mem_range]
  simpa using hp.length_eq

/-- Where the numbers below the number of entries all have values, no other number does. -/
theorem isSome_get?_iff_lt {r : Roster Nat β}
    (h : ∀ i < r.entries.length, (r.get? i).isSome = true) (i : Nat) :
    (r.get? i).isSome = true ↔ i < r.entries.length := by
  refine ⟨?_, h i⟩
  intro hs
  by_contra hi
  have hle : (i :: List.range r.entries.length).length ≤ r.entries.length := by
    refine length_le_entries (r := r) ?_ ?_
    · rw [List.nodup_cons, List.mem_range]
      exact ⟨hi, List.nodup_range⟩
    · intro k hk
      rcases List.mem_cons.mp hk with rfl | hk
      · exact hs
      · exact h k (List.mem_range.mp hk)
  rw [List.length_cons, List.length_range] at hle
  omega

/-- What has a value in a roster made from pairs. -/
theorem contains_ofList {pairs : List (κ × β)} {k : κ} :
    (ofList pairs).contains k = true ↔ ∃ e ∈ pairs, e.1 = k := by
  have hfold : ∀ r : Roster κ β, (pairs.foldl (fun r (key, value) => r.put key value) r).contains k
      = true ↔ r.contains k = true ∨ ∃ e ∈ pairs, e.1 = k := by
    induction pairs with
    | nil => simp
    | cons e pairs ih =>
      intro r
      rw [List.foldl_cons, ih, contains_put, Bool.or_eq_true, decide_eq_true_eq]
      simp only [List.mem_cons, exists_eq_or_imp, eq_comm (a := k)]
      tauto
  rw [ofList, hfold]
  simp [contains]

/-- A key in a roster made from pairs has the value of its last pair. -/
theorem get?_ofList (pairs : List (κ × β)) (k : κ) :
    (ofList pairs).get? k =
      (pairs.filterMap fun e => if e.1 = k then some e.2 else none).getLast? := by
  induction pairs using List.reverseRecOn with
  | nil => rfl
  | append_singleton pairs e ih =>
    have hput : ofList (pairs ++ [e]) = (ofList pairs).put e.1 e.2 := List.foldl_append
    rw [hput, get?_put, ih, List.filterMap_append, List.getLast?_append]
    by_cases h : k = e.1
    · simp [h]
    · simp [h, Ne.symm h]

/-! ## Order -/

/-- A key that is there keeps its place. -/
theorem keys_put_of_mem {r : Roster κ β} {key : κ} (value : β) (h : key ∈ r.keys) :
    (r.put key value).keys = r.keys :=
  (keys_putEntry key value r.entries).trans (if_pos h)

/-- A new key comes last. -/
theorem keys_put_of_not_mem {r : Roster κ β} {key : κ} (value : β) (h : key ∉ r.keys) :
    (r.put key value).keys = r.keys ++ [key] :=
  (keys_putEntry key value r.entries).trans (if_neg h)

theorem putEntry_of_not_mem {key : κ} {value : β} {entries : List (κ × β)}
    (h : key ∉ entries.map Prod.fst) : putEntry key value entries = entries ++ [(key, value)] := by
  induction entries with
  | nil => rfl
  | cons e rest ih =>
    rw [List.map_cons, List.mem_cons, not_or] at h
    rw [putEntry, if_neg (Ne.symm h.1), ih h.2, List.cons_append]

/-- Entries with new and distinct keys are put in as they stand. -/
theorem entries_foldl_put {pairs : List (κ × β)} {r : Roster κ β}
    (h : (r.entries ++ pairs).map Prod.fst |>.Nodup) :
    (pairs.foldl (fun r (key, value) => r.put key value) r).entries = r.entries ++ pairs := by
  induction pairs generalizing r with
  | nil => exact (List.append_nil _).symm
  | cons e pairs ih =>
    obtain ⟨key, value⟩ := e
    have hkey : key ∉ r.entries.map Prod.fst := by
      rw [List.map_append, List.nodup_append] at h
      intro hmem
      exact h.2.2 key hmem key (by simp) rfl
    have hput : (r.put key value).entries = r.entries ++ [(key, value)] :=
      putEntry_of_not_mem hkey
    rw [List.foldl_cons, ih, hput, List.append_assoc, List.singleton_append]
    rwa [hput, List.append_assoc, List.singleton_append]

/-- **A roster is made again from its entries**, in their order. -/
theorem ofList_entries (r : Roster κ β) : ofList r.entries = r := by
  refine ext_entries ?_
  rw [ofList, entries_foldl_put]
  · rfl
  · exact r.distinct

/-- Rosters with the same keys in the same order and the same values are one. -/
theorem ext_keys {r s : Roster κ β} (hk : r.keys = s.keys) (h : ∀ k, r.get? k = s.get? k) :
    r = s := by
  refine ext_entries (List.ext_getElem? ?_)
  intro i
  have hi : (r.entries[i]?).map Prod.fst = (s.entries[i]?).map Prod.fst := by
    rw [← List.getElem?_map, ← List.getElem?_map]
    exact congrArg (·[i]?) hk
  cases hr : r.entries[i]? with
  | none =>
    rw [hr] at hi
    exact (Option.map_eq_none_iff.mp hi.symm).symm
  | some e =>
    rw [hr] at hi
    obtain ⟨f, hf, hfe⟩ := Option.map_eq_some_iff.mp hi.symm
    have hval : some e.2 = some f.2 := by
      rw [← get?_of_mem (List.mem_of_getElem? hr), ← get?_of_mem (List.mem_of_getElem? hf), ← hfe,
        h]
    rw [hf, Prod.ext hfe.symm (Option.some.inj hval)]

end ModelScale.Roster
