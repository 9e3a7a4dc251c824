import ModelScale.Proofs.Decimal.Faults
import ModelScale.Proofs.Line.Token
import ModelScale.Qc.Eyeball
import ModelScale.Qc.Reference
import ModelScale.Vrd.Record
import ModelScale.Vrd.Shape

/-
# The numbers on a line

The readers of lines take some texts for numbers: the coordinates of rest positions, offsets and
records, the lengths and the angle of an eyeball, the height of an eyelid (`numbersOn`).  What they
take are numerals, whatever else is on the line, so each of them is read as a decimal unless its
exponent is out of reach.  Main statements:

* `isNumeral_of_mem_numbersOn`, `readable_of_mem_numbersOn`: what is taken for a number;
* `StoredOffset.read?_cases`: the index of an offset record, which is no decimal and has a limit of
  its own.
-/

namespace ModelScale

open Text

/-! ## 1. What is taken for a number -/

/-- The coordinates of an offset record, also of one whose index has too many digits. -/
def StoredOffset.coordinates? (line : Text) : Option Triple :=
  match commentWords? line with
  | some [head, _, index, x, y, z] =>
    if head = tag && index.all isDigit then tripleOf? x y z else none
  | _ => none

/-- The coordinates that the readers of procedural bones find on a line. -/
def triplesOn (line : Text) : List Triple :=
  ((TripleLine.readRest? line).map (·.values)).toList ++
  ((TripleLine.readOffset? line).map (·.values)).toList ++
  ((StoredRest.read? line).map (·.values)).toList ++
  (StoredOffset.coordinates? line).toList

/-- The numbers of an eyeball line; the angle is one of them, although it is not scaled. -/
def Eyeball.numbers (e : Eyeball) : List Text :=
  e.position.toList ++ [e.diameter, e.angle] ++ e.pupil.toList ++ [e.irisScale]

/-- Whatever a reader of lines takes for a number. -/
def numbersOn (line : Text) : List Text :=
  (triplesOn line).flatMap Triple.toList ++
  (Eyeball.read? line).toList.flatMap Eyeball.numbers ++
  (Reference.eyelidSplit? line).toList

/-! ## 2. They are numerals -/

theorem isNumeral_of_takeNumber? {t w r : Text} (h : takeNumber? t = some (w, r)) :
    isNumeral w = true := by
  obtain ⟨-, -, -, hn, -⟩ := takeNumber?_eq_some h
  exact hn

theorem numerals_of_takeTriple? {t r : Text} {v : Triple} (h : takeTriple? t = some (v, r)) :
    v.Numerals := by
  obtain ⟨-, -, -, -, hv, -⟩ := takeTriple?_eq_some h
  exact hv

theorem numerals_of_tripleOf? {x y z : Text} {v : Triple} (h : tripleOf? x y z = some v) :
    v.Numerals := by
  unfold tripleOf? at h
  split at h
  · rename_i hn
    rw [Bool.and_eq_true, Bool.and_eq_true] at hn
    obtain rfl := Option.some.inj h
    exact ⟨hn.1.1, hn.1.2, hn.2⟩
  · cases h

theorem TripleLine.numerals_of_readRest? {line : Text} {l : TripleLine}
    (h : readRest? line = some l) : l.values.Numerals := by
  induction line generalizing l with
  | nil => cases h
  | cons c t ih =>
    rw [readRest?, Option.orElse_eq_orElse, Option.orElse_eq_or] at h
    rcases Option.or_eq_some_iff.mp h with h | ⟨-, h⟩
    · obtain ⟨⟨tag, rest⟩, -, h⟩ := Option.bind_eq_some_iff.mp h
      obtain ⟨⟨v, r⟩, hv, h⟩ := Option.bind_eq_some_iff.mp h
      obtain ⟨after, -, h⟩ := Option.bind_eq_some_iff.mp h
      obtain rfl := Option.some.inj h
      exact numerals_of_takeTriple? hv
    · split at h
      · cases h
      · obtain ⟨m, hm, rfl⟩ := Option.map_eq_some_iff.mp h
        exact @ih m hm

theorem TripleLine.numerals_of_readOffset? {line : Text} {l : TripleLine}
    (h : readOffset? line = some l) : l.values.Numerals := by
  obtain ⟨⟨u, v⟩, ht, h⟩ := Option.bind_eq_some_iff.mp h
  obtain ⟨-, -, -, hv, -⟩ := takeLastTriple?_eq_some ht
  dsimp only at h
  split at h
  · obtain rfl := Option.some.inj h
    exact hv
  · cases h

theorem StoredRest.numerals_of_read? {line : Text} {r : StoredRest} (h : read? line = some r) :
    r.values.Numerals := by
  unfold read? at h
  split at h
  · split at h
    · obtain ⟨v, hv, rfl⟩ := Option.map_eq_some_iff.mp h
      exact numerals_of_tripleOf? hv
    · cases h
  · cases h

theorem StoredOffset.numerals_of_coordinates? {line : Text} {v : Triple}
    (h : coordinates? line = some v) : v.Numerals := by
  unfold coordinates? at h
  split at h
  · split at h
    · exact numerals_of_tripleOf? h
    · cases h
  · cases h

theorem numerals_of_mem_triplesOn {line : Text} {v : Triple} (h : v ∈ triplesOn line) :
    v.Numerals := by
  simp only [triplesOn, List.mem_append, Option.mem_toList, Option.map_eq_some_iff] at h
  rcases h with ((⟨l, h, rfl⟩ | ⟨l, h, rfl⟩) | ⟨r, h, rfl⟩) | h
  · exact TripleLine.numerals_of_readRest? h
  · exact TripleLine.numerals_of_readOffset? h
  · exact StoredRest.numerals_of_read? h
  · exact StoredOffset.numerals_of_coordinates? h

namespace Eyeball

theorem isNumeral_of_readIris? {t material scale trail : Text}
    (h : readIris? t = some (material, scale, trail)) : isNumeral scale = true := by
  obtain ⟨⟨m, r⟩, -, h⟩ := List.exists_of_findSome?_eq_some h
  obtain ⟨⟨s, r'⟩, hs, h⟩ := Option.bind_eq_some_iff.mp h
  obtain ⟨rest, -, h⟩ := Option.bind_eq_some_iff.mp h
  obtain ⟨-, h⟩ := Prod.mk.inj (Option.some.inj h)
  obtain ⟨rfl, -⟩ := Prod.mk.inj h
  exact isNumeral_of_takeNumber? hs

theorem isNumeral_of_readFields? {lead t : Text} {e : Eyeball} (h : readFields? lead t = some e) :
    ∀ n ∈ e.numbers, isNumeral n = true := by
  obtain ⟨⟨name, r⟩, -, h⟩ := List.exists_of_findSome?_eq_some h
  obtain ⟨⟨bone, r1⟩, -, h⟩ := List.exists_of_findSome?_eq_some h
  obtain ⟨⟨position, r2⟩, hpos, h⟩ := Option.bind_eq_some_iff.mp h
  obtain ⟨⟨material, r3⟩, -, h⟩ := List.exists_of_findSome?_eq_some h
  obtain ⟨⟨diameter, r4⟩, hdia, h⟩ := Option.bind_eq_some_iff.mp h
  obtain ⟨⟨angle, r5⟩, hang, h⟩ := Option.bind_eq_some_iff.mp h
  have hposition := Triple.isNumeral_of_mem (numerals_of_takeTriple? hpos)
  have hdiameter := isNumeral_of_takeNumber? hdia
  have hangle := isNumeral_of_takeNumber? hang
  dsimp only at h
  cases hp : takeNumber? r5 with
  | none =>
    rw [hp] at h
    obtain ⟨⟨iris, scale, trail⟩, hi, h⟩ := Option.bind_eq_some_iff.mp h
    obtain rfl := Option.some.inj h
    have hscale := isNumeral_of_readIris? hi
    intro n hn
    simp only [numbers, Option.toList_none, List.append_nil, List.mem_append, List.mem_cons,
      List.not_mem_nil, or_false] at hn
    rcases hn with (hn | rfl | rfl) | rfl
    · exact hposition n hn
    all_goals assumption
  | some p =>
    obtain ⟨pupil, r6⟩ := p
    rw [hp] at h
    obtain ⟨⟨iris, scale, trail⟩, hi, h⟩ := Option.bind_eq_some_iff.mp h
    obtain rfl := Option.some.inj h
    have hscale := isNumeral_of_readIris? hi
    have hpupil := isNumeral_of_takeNumber? hp
    intro n hn
    simp only [numbers, Option.toList_some, List.mem_append, List.mem_cons, List.not_mem_nil,
      or_false] at hn
    rcases hn with ((hn | rfl | rfl) | rfl) | rfl
    · exact hposition n hn
    all_goals assumption

theorem isNumeral_of_read? {line : Text} {e : Eyeball} (h : read? line = some e) :
    ∀ n ∈ e.numbers, isNumeral n = true := by
  unfold read? at h
  rw [Option.orElse_eq_orElse, Option.orElse_eq_or] at h
  rcases Option.or_eq_some_iff.mp h with h | ⟨-, h⟩
  · obtain ⟨⟨lead, rest⟩, -, h⟩ := Option.bind_eq_some_iff.mp h
    exact isNumeral_of_readFields? h
  · exact isNumeral_of_readFields? h

end Eyeball

theorem Reference.isNumeral_of_splitValue? {after : Bool} {t height : Text}
    (h : splitValue? after t = some height) : isNumeral height = true := by
  induction t generalizing after with
  | nil => cases h
  | cons c t ih =>
    rw [splitValue?, Option.orElse_eq_orElse, Option.orElse_eq_or] at h
    rcases Option.or_eq_some_iff.mp h with h | ⟨-, h⟩
    · split at h
      · cases h
      · obtain ⟨⟨word, rest⟩, -, h⟩ := Option.bind_eq_some_iff.mp h
        dsimp only at h
        split at h
        · obtain ⟨⟨w, r⟩, hw, rfl⟩ := Option.map_eq_some_iff.mp h
          exact isNumeral_of_takeNumber? hw
        · cases h
    · split at h
      · cases h
      · exact ih h

theorem Reference.isNumeral_of_eyelidSplit? {line height : Text}
    (h : eyelidSplit? line = some height) : isNumeral height = true := by
  obtain ⟨⟨word, rest⟩, -, h⟩ := Option.bind_eq_some_iff.mp h
  dsimp only at h
  split at h
  · exact isNumeral_of_splitValue? h
  · cases h

/-- **Whatever is taken for a number is a numeral.** -/
theorem isNumeral_of_mem_numbersOn {line t : Text} (h : t ∈ numbersOn line) :
    isNumeral t = true := by
  simp only [numbersOn, List.mem_append, List.mem_flatMap, Option.mem_toList] at h
  rcases h with (⟨v, hv, ht⟩ | ⟨e, he, ht⟩) | h
  · exact Triple.isNumeral_of_mem (numerals_of_mem_triplesOn hv) t ht
  · exact Eyeball.isNumeral_of_read? he t ht
  · exact Reference.isNumeral_of_eyelidSplit? h

/-! ## 3. They can be read -/

/-- No number on the lines has an exponent that is out of reach. -/
def WithinReach (lines : List Text) : Prop :=
  ∀ line ∈ lines, ∀ t ∈ numbersOn line, ∀ n ∈ Numeral.parse? t, n.toDecimal.inReach = true

instance (lines : List Text) : Decidable (WithinReach lines) :=
  inferInstanceAs (Decidable (∀ line ∈ lines, _))

/-- **Whatever is taken for a number can be read.** -/
theorem readable_of_mem_numbersOn {lines : List Text} (hr : WithinReach lines) {line t : Text}
    (hl : line ∈ lines) (h : t ∈ numbersOn line) : Readable t := by
  obtain ⟨n, hn, hread⟩ := read_of_isNumeral (isNumeral_of_mem_numbersOn h)
  rw [if_pos (hr line hl t h n hn)] at hread
  exact ⟨_, hread⟩

/-- All three coordinates can be read. -/
def Triple.Readable (v : Triple) : Prop := ∀ t ∈ v.toList, ModelScale.Readable t

theorem Triple.readable_iff {v : Triple} :
    v.Readable ↔ ModelScale.Readable v.x ∧ ModelScale.Readable v.y ∧ ModelScale.Readable v.z := by
  simp [Triple.Readable, toList]

theorem Triple.readable_of_mem_triplesOn {lines : List Text} (hr : WithinReach lines) {line : Text}
    (hl : line ∈ lines) {v : Triple} (h : v ∈ triplesOn line) : v.Readable := by
  intro t ht
  refine readable_of_mem_numbersOn hr hl ?_
  exact List.mem_append_left _ (List.mem_append_left _ (List.mem_flatMap.mpr ⟨v, h, ht⟩))

/-! ## 4. Records with an index of too many digits -/

/-- The line is an offset record, and its index has more digits than an integer may have. -/
def Overlong (line : Text) (count : Nat) : Prop :=
  digitLimit < count ∧ ∃ helper index x y z, index.length = count ∧ index.all isDigit = true ∧
    commentWords? line = some [StoredOffset.tag, helper, index, x, y, z]

/-- The fault is that of such a record among the lines. -/
def Fault.OfIndex (lines : List Text) (fault : Fault) : Prop :=
  ∃ line ∈ lines, ∃ count, Overlong line count ∧ fault = .tooManyDigits count

/-- **An offset record is read** with its coordinates, unless its index has too many digits. -/
theorem StoredOffset.read?_cases {line : Text} {record : Except Fault StoredOffset}
    (h : read? line = some record) :
    ∃ v, coordinates? line = some v ∧ ((∃ r, record = .ok r ∧ r.values = v) ∨
      ∃ count, record = .error (.tooManyDigits count) ∧ Overlong line count) := by
  unfold read? at h
  split at h
  · rename_i head helper index x y z hwords
    split at h
    · rename_i hhead
      obtain ⟨v, hv, rfl⟩ := Option.map_eq_some_iff.mp h
      refine ⟨v, by rw [coordinates?, hwords]; exact (if_pos hhead).trans hv, ?_⟩
      rw [Bool.and_eq_true, decide_eq_true_eq] at hhead
      unfold readInteger
      split
      · rename_i hlong
        exact Or.inr ⟨_, rfl, hlong, helper, index, x, y, z, rfl, hhead.2, hhead.1 ▸ hwords⟩
      · exact Or.inl ⟨_, rfl, rfl⟩
    · cases h
  · cases h

theorem Fault.ofIndex_of_read? {lines : List Text} {line : Text} (hl : line ∈ lines) {fault : Fault}
    (h : StoredOffset.read? line = some (.error fault)) : fault.OfIndex lines := by
  obtain ⟨-, -, ⟨r, he, -⟩ | ⟨count, he, hlong⟩⟩ := StoredOffset.read?_cases h
  · cases he
  · exact ⟨line, hl, count, hlong, Except.error.inj he⟩

end ModelScale
