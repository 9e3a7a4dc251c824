/-!
# Rosters

A roster gives values to keys and remembers the order in which the keys came.  A key that gets a new
value keeps its place.  That no key stands twice is part of the type.
-/

namespace ModelScale

namespace Roster

variable {κ β : Type} [DecidableEq κ]

/-- The entries with a value put in for a key: in the key's place, or at the end. -/
def putEntry (key : κ) (value : β) : List (κ × β) → List (κ × β)
  | [] => [(key, value)]
  | entry :: rest =>
    if entry.1 = key then (key, value) :: rest else entry :: putEntry key value rest

/-- Putting a value in changes no key, save that a new one comes last. -/
theorem keys_putEntry (key : κ) (value : β) (entries : List (κ × β)) :
    (putEntry key value entries).map Prod.fst =
      if key ∈ entries.map Prod.fst then entries.map Prod.fst
      else entries.map Prod.fst ++ [key] := by
  induction entries with
  | nil => simp [putEntry]
  | cons entry rest ih =>
    by_cases h : entry.1 = key
    · simp [putEntry, h]
    · have h' : ¬ key = entry.1 := fun e => h e.symm
      by_cases hk : key ∈ rest.map Prod.fst <;>
        simp only [putEntry, h, if_false, List.map_cons, ih, hk, if_true, List.mem_cons, h',
          or_true, or_self, List.cons_append]

/-- Keys stay distinct. -/
theorem nodup_putEntry {key : κ} {value : β} {entries : List (κ × β)}
    (h : (entries.map Prod.fst).Nodup) : ((putEntry key value entries).map Prod.fst).Nodup := by
  rw [keys_putEntry]
  split
  · exact h
  · rename_i hk
    refine List.nodup_append.2 ⟨h, by simp, ?_⟩
    intro a ha b hb
    rw [List.mem_singleton.1 hb]
    exact fun e => hk (e ▸ ha)

end Roster

/-- Values by key, in the order in which the keys were first put in. -/
structure Roster (κ β : Type) where
  entries : List (κ × β)
  distinct : (entries.map Prod.fst).Nodup
  deriving Repr

namespace Roster

variable {κ β : Type} [DecidableEq κ]

instance : EmptyCollection (Roster κ β) := ⟨⟨[], List.nodup_nil⟩⟩

instance : Inhabited (Roster κ β) := ⟨∅⟩

omit [DecidableEq κ] in
/-- Two rosters with the same entries are one. -/
@[ext] theorem ext_entries {r s : Roster κ β} (h : r.entries = s.entries) : r = s := by
  cases r
  cases s
  simp_all

/-- The keys in order. -/
def keys (r : Roster κ β) : List κ := r.entries.map Prod.fst

/-- The value of a key. -/
def get? (r : Roster κ β) (key : κ) : Option β :=
  (r.entries.find? (·.1 = key)).map Prod.snd

/-- The key has a value. -/
def contains (r : Roster κ β) (key : κ) : Bool := (r.get? key).isSome

/-- The roster has no entry. -/
def isEmpty (r : Roster κ β) : Bool := r.entries.isEmpty

/-- The roster with a value put in for a key. -/
def put (r : Roster κ β) (key : κ) (value : β) : Roster κ β :=
  ⟨putEntry key value r.entries, nodup_putEntry r.distinct⟩

/-- A roster from pairs; the last value of a key counts. -/
def ofList (pairs : List (κ × β)) : Roster κ β :=
  pairs.foldl (fun r (key, value) => r.put key value) ∅

/-- What was put in is found, and nothing else changes. -/
theorem get?_put (r : Roster κ β) (key k : κ) (value : β) :
    (r.put key value).get? k = if k = key then some value else r.get? k := by
  obtain ⟨entries, _⟩ := r
  simp only [get?, put]
  induction entries with
  | nil => by_cases h : key = k <;> simp [putEntry, h, eq_comm]
  | cons entry rest ih =>
    rename_i hd
    have ih := ih (List.nodup_cons.1 hd).2
    by_cases h : entry.1 = key
    · by_cases hk : k = key
      · simp [putEntry, h, hk]
      · have hk' : ¬ key = k := fun e => hk e.symm
        simp [putEntry, h, hk, hk']
    · by_cases he : entry.1 = k
      · have hk : ¬ k = key := fun e => h (he.trans e)
        simp [putEntry, he, hk]
      · simpa [putEntry, h, he] using ih

end Roster

end ModelScale
