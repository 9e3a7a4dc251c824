import ModelScale.Proofs.Comment.Scanner

/-
# The first live line of a kind

A search looks at the live lines in order and stops at the first that its reader accepts.  What it
finds is settled by the lines in front: none of them is accepted, and they leave the line in code.
Main statements:

* `firstLive?_eq_some_iff`, `firstLive?_eq_none_iff`: what is found, as a splitting of the lines;
* `Silent.congr`: a search passes over lines that are rewritten alike.
-/

namespace ModelScale.Comment

open Text

variable {α : Type} {read? : Text → Option α}

/-! ## 1. Behind some lines -/

/-- The region behind some lines. -/
def behind (g : Region) (lines : List Text) : Region :=
  lines.foldl advance g

@[simp] theorem behind_nil (g : Region) : behind g [] = g := rfl

@[simp] theorem behind_cons (g : Region) (line : Text) (rest : List Text) :
    behind g (line :: rest) = behind (advance g line) rest := rfl

theorem behind_append (g : Region) (lines rest : List Text) :
    behind g (lines ++ rest) = behind (behind g lines) rest :=
  List.foldl_append

theorem liveLines_append (g : Region) (lines rest : List Text) :
    liveLines g (lines ++ rest) = liveLines g lines ++ liveLines (behind g lines) rest := by
  induction lines generalizing g with
  | nil => rfl
  | cons line lines ih =>
    rw [List.cons_append, liveLines, ih, liveLines, List.cons_append, behind_cons]

theorem mem_of_mem_liveLines {g : Region} {lines : List Text} {line : Text}
    (h : some line ∈ liveLines g lines) : line ∈ lines := by
  induction lines generalizing g with
  | nil => cases h
  | cons first lines ih =>
    rw [liveLines] at h
    rcases List.mem_cons.mp h with h | h
    · split at h
      · cases h
      · exact Option.some.inj h ▸ List.mem_cons_self
    · exact List.mem_cons_of_mem _ (ih h)

/-- What is collected was found on one of the lines. -/
theorem exists_of_mem_collectLive {read : Text → List α} {lines : List Text} {n : Nat} {a : α}
    (h : (n, a) ∈ collectLive read lines) : ∃ line ∈ lines, a ∈ read line := by
  obtain ⟨⟨line?, i⟩, hline, h⟩ := List.mem_flatMap.mp h
  obtain ⟨b, hb, he⟩ := List.mem_map.mp h
  obtain ⟨-, rfl⟩ := Prod.mk.inj he
  cases line? with
  | none => cases hb
  | some line =>
    have hline := List.mem_of_getElem? (List.mk_mem_zipIdx_iff_getElem?.mp hline)
    exact ⟨line, mem_of_mem_liveLines hline, hb⟩

/-! ## 2. What a search finds -/

/-- The reader accepts none of the live lines. -/
def Silent (read? : Text → Option α) (g : Region) (lines : List Text) : Prop :=
  ∀ line? ∈ liveLines g lines, line?.bind read? = none

@[simp] theorem silent_nil (g : Region) : Silent read? g [] := by
  intro line? h
  cases h

theorem silent_cons {g : Region} {line : Text} {rest : List Text} :
    Silent read? g (line :: rest) ↔
      (inert g line = false → read? line = none) ∧ Silent read? (advance g line) rest := by
  simp only [Silent, liveLines, List.forall_mem_cons]
  refine and_congr_left ?_
  intro _
  cases inert g line <;> simp

theorem Silent.of_append {g : Region} {lines rest : List Text}
    (h : Silent read? g (lines ++ rest)) : Silent read? g lines := by
  intro line? hl
  refine h line? ?_
  rw [liveLines_append]
  exact List.mem_append_left _ hl

/-- The search from a line on. -/
def firstFrom (read? : Text → Option α) (g : Region) (n : Nat) (lines : List Text) :
    Option (Nat × α) :=
  ((liveLines g lines).zipIdx n).findSome? fun (line?, i) => (line?.bind read?).map fun a => (i, a)

theorem firstFrom_cons (g : Region) (n : Nat) (line : Text) (rest : List Text) :
    firstFrom read? g n (line :: rest) =
      ((if inert g line then none else read? line).map fun a => (n, a)).or
        (firstFrom read? (advance g line) (n + 1) rest) := by
  unfold firstFrom
  rw [liveLines, List.zipIdx_cons, List.findSome?_cons]
  cases inert g line with
  | true => rfl
  | false => cases h : read? line <;> simp [h]

theorem firstFrom_of_silent {g : Region} {lines : List Text} (h : Silent read? g lines) (n : Nat)
    (rest : List Text) :
    firstFrom read? g n (lines ++ rest) =
      firstFrom read? (behind g lines) (n + lines.length) rest := by
  induction lines generalizing g n with
  | nil => rfl
  | cons line lines ih =>
    obtain ⟨hl, hs⟩ := silent_cons.mp h
    have hnone : (if inert g line then none else read? line) = none := by
      cases hi : inert g line with
      | true => rfl
      | false => exact hl hi
    rw [List.cons_append, firstFrom_cons, hnone, Option.map_none, Option.none_or, ih hs,
      behind_cons, List.length_cons]
    congr 1
    omega

theorem silent_or_exists (read? : Text → Option α) (g : Region) (lines : List Text) :
    Silent read? g lines ∨ ∃ pre line post a, lines = pre ++ line :: post ∧ Silent read? g pre ∧
      inert (behind g pre) line = false ∧ read? line = some a := by
  induction lines generalizing g with
  | nil => exact Or.inl (silent_nil g)
  | cons line rest ih =>
    by_cases hl : inert g line = false → read? line = none
    · rcases ih (advance g line) with h | ⟨pre, m, post, a, rfl, hs, hi, hr⟩
      · exact Or.inl (silent_cons.mpr ⟨hl, h⟩)
      · exact Or.inr ⟨line :: pre, m, post, a, rfl, silent_cons.mpr ⟨hl, hs⟩, hi, hr⟩
    · obtain ⟨hi, hr⟩ := Classical.not_imp.mp hl
      obtain ⟨a, ha⟩ := Option.ne_none_iff_exists'.mp hr
      exact Or.inr ⟨[], line, rest, a, rfl, silent_nil g, hi, ha⟩

theorem firstLive?_of_silent {lines : List Text} (h : Silent read? .code lines) :
    firstLive? read? lines = none := by
  have := firstFrom_of_silent h 0 []
  rw [List.append_nil] at this
  exact this

theorem firstLive?_append_cons {pre post : List Text} {line : Text} {a : α}
    (hs : Silent read? .code pre) (hi : inert (behind .code pre) line = false)
    (hr : read? line = some a) :
    firstLive? read? (pre ++ line :: post) = some (pre.length, a) := by
  have h := firstFrom_of_silent hs 0 (line :: post)
  rw [firstFrom_cons, hi, hr, Nat.zero_add] at h
  exact h

/-- **What a search finds**: a live line that is accepted, behind live lines that are not. -/
theorem firstLive?_eq_some_iff {lines : List Text} {i : Nat} {a : α} :
    firstLive? read? lines = some (i, a) ↔
      ∃ pre line post, lines = pre ++ line :: post ∧ pre.length = i ∧ Silent read? .code pre ∧
        inert (behind .code pre) line = false ∧ read? line = some a := by
  constructor
  · intro h
    rcases silent_or_exists read? .code lines with hs | ⟨pre, line, post, b, rfl, hs, hi, hr⟩
    · rw [firstLive?_of_silent hs] at h
      cases h
    · rw [firstLive?_append_cons hs hi hr] at h
      obtain ⟨rfl, rfl⟩ := Prod.mk.inj (Option.some.inj h)
      exact ⟨pre, line, post, rfl, rfl, hs, hi, hr⟩
  · rintro ⟨pre, line, post, rfl, rfl, hs, hi, hr⟩
    exact firstLive?_append_cons hs hi hr

/-- **A search finds nothing** just when no live line is accepted. -/
theorem firstLive?_eq_none_iff {lines : List Text} :
    firstLive? read? lines = none ↔ Silent read? .code lines := by
  constructor
  · intro h
    rcases silent_or_exists read? .code lines with hs | ⟨pre, line, post, b, rfl, hs, hi, hr⟩
    · exact hs
    · rw [firstLive?_append_cons hs hi hr] at h
      cases h
  · exact firstLive?_of_silent

/-! ## 3. Lines that are rewritten -/

/-- A search passes over lines that are rewritten alike, and the region behind them is the same. -/
theorem Silent.congr {lines lines' : List Text}
    (h : List.Forall₂ (fun line line' => (∀ g, advance g line' = advance g line) ∧
      (∀ g, inert g line' = inert g line) ∧ (read? line = none → read? line' = none)) lines lines')
    {g : Region} (hs : Silent read? g lines) :
    Silent read? g lines' ∧ behind g lines' = behind g lines := by
  induction h generalizing g with
  | nil => exact ⟨hs, rfl⟩
  | cons hl _ ih =>
    obtain ⟨ha, hi, hr⟩ := hl
    obtain ⟨h1, h2⟩ := silent_cons.mp hs
    obtain ⟨ih1, ih2⟩ := ih h2
    rw [silent_cons, behind_cons, behind_cons, ha, hi]
    exact ⟨⟨fun h => hr (h1 h), ih1⟩, ih2⟩

/-- Blank lines leave the region alone. -/
theorem advance_of_blanks {b : Text} (hb : Blanks b) (g : Region) : advance g b = g := by
  have h := region_scan_append_blanks hb (Scan.ofRegion g) []
  rw [List.nil_append] at h
  rw [advance_eq_scan, h, scan_nil, Scan.region_ofRegion]

end ModelScale.Comment
