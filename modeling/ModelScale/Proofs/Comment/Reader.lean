import ModelScale.Proofs.Comment.Live
import ModelScale.Proofs.Line.Token

/-
# A script read from its first character to its last

Comments have a plain description: whoever reads a script from left to right is in code, in a block
or in a comment that runs to the end of the line, and two characters at a time take the reader from
one to the other (`Passage.after`).  The program has no such reader.  It looks at the lines one by
one, asks how a line begins, and jumps from delimiter to delimiter.  Main statements:

* `after_eq_foldl`: reading is scanning, over ends of lines too;
* `after_script_append`: the reader and the lines agree at the end of every line;
* `jumps_eq_regionAfter`: the jumps come to an end, after no more rounds than the text has pairs of
  characters;
* `liveLines_eq_reading`: which lines are inert, in the reader's terms.
-/

namespace ModelScale.Comment

open Text

/-! ## 1. The reader -/

/-- What a reader of a script is in. -/
inductive Passage where
  | code
  | block
  /-- A comment that runs to the end of the line. -/
  | line
  deriving DecidableEq, Repr

/-- What a reader who starts in a passage is in at the end of a text.  A delimiter is read as a
whole, so no character is part of two. -/
def Passage.after : Passage → Text → Passage
  | p, [] => p
  | .code, '/' :: '/' :: t => after .line t
  | .code, '/' :: '*' :: t => after .block t
  | .block, '*' :: '/' :: t => after .code t
  | .line, '\n' :: t => after .code t
  | p, _ :: t => after p t

/-- The text of some lines, each with its end. -/
def script (lines : List Text) : Text :=
  lines.flatMap (· ++ ['\n'])

@[simp] theorem script_cons (line : Text) (lines : List Text) :
    script (line :: lines) = line ++ '\n' :: script lines := by
  simp [script]

/-! ## 2. Reading is scanning -/

namespace Scan

/-- One character of a script.  The end of a line ends a line comment, and no delimiter goes over
it. -/
def read (s : Scan) (c : Char) : Scan :=
  if c = '\n' then .ofRegion s.region else s.step c

/-- The passage that the scanner is in. -/
def passage : Scan → Passage
  | code | slash => .code
  | block | star => .block
  | line => .line

/-- Where the scanner starts in a passage. -/
def ofPassage : Passage → Scan
  | .code => code
  | .block => block
  | .line => line

@[simp] theorem passage_ofPassage (p : Passage) : (ofPassage p).passage = p := by cases p <;> rfl

theorem passage_eq_block_iff (s : Scan) : s.passage = .block ↔ s.region = .block := by
  cases s <;> simp [passage, region]

end Scan

/-- A slash that no delimiter follows on is forgotten. -/
theorem passage_foldl_slash {t : Text} (h : ∀ u, t ≠ '/' :: u ∧ t ≠ '*' :: u) :
    (t.foldl Scan.read .slash).passage = (t.foldl Scan.read .code).passage := by
  cases t with
  | nil => rfl
  | cons c t =>
    have h1 : c ≠ '/' := by rintro rfl; exact (h t).1 rfl
    have h2 : c ≠ '*' := by rintro rfl; exact (h t).2 rfl
    rw [List.foldl_cons, List.foldl_cons]
    congr 2
    simp [Scan.read, Scan.step, Scan.region, h1, h2]

/-- So is a star that no slash follows. -/
theorem passage_foldl_star {t : Text} (h : ∀ u, t ≠ '/' :: u) :
    (t.foldl Scan.read .star).passage = (t.foldl Scan.read .block).passage := by
  cases t with
  | nil => rfl
  | cons c t =>
    have h1 : c ≠ '/' := by rintro rfl; exact h t rfl
    rw [List.foldl_cons, List.foldl_cons]
    congr 2
    simp [Scan.read, Scan.step, Scan.region, h1]

/-- **Reading is scanning.**  The reader takes the two characters of a delimiter at once, the
scanner one after the other. -/
theorem after_eq_foldl (p : Passage) (t : Text) :
    p.after t = (t.foldl Scan.read (.ofPassage p)).passage := by
  fun_induction Passage.after p t with
  | case1 p => simp
  | case2 t ih => simpa [Scan.read, Scan.step, Scan.ofPassage] using ih
  | case3 t ih => simpa [Scan.read, Scan.step, Scan.ofPassage] using ih
  | case4 t ih => simpa [Scan.read, Scan.step, Scan.ofPassage] using ih
  | case5 t ih => simpa [Scan.read, Scan.region, Scan.ofPassage, Scan.ofRegion] using ih
  | case6 p c t h1 h2 h3 h4 ih =>
    rw [ih, List.foldl_cons]
    cases p with
    | code =>
      by_cases hc : c = '/'
      · subst hc
        refine (passage_foldl_slash ?_).symm
        exact fun u => ⟨fun e => h1 u rfl rfl e, fun e => h2 u rfl rfl e⟩
      · have hr : Scan.read .code c = .code := by
          simp [Scan.read, Scan.step, Scan.region, Scan.ofRegion, hc]
        rw [Scan.ofPassage, hr]
    | block =>
      by_cases hc : c = '*'
      · subst hc
        exact (passage_foldl_star fun u e => h3 u rfl rfl e).symm
      · have hr : Scan.read .block c = .block := by
          simp [Scan.read, Scan.step, Scan.region, Scan.ofRegion, hc]
        rw [Scan.ofPassage, hr]
    | line =>
      have hr : Scan.read .line c = .line := if_neg (h4 rfl)
      rw [Scan.ofPassage, hr]

/-! ## 3. Line by line -/

/-- On one line the scanner needs no rule for the ends of lines. -/
theorem foldl_read_of_unbroken {line : Text} (h : Unbroken line) (s : Scan) :
    line.foldl Scan.read s = scan s line := by
  induction line generalizing s with
  | nil => rfl
  | cons c t ih =>
    obtain ⟨hc, ht⟩ := unbroken_cons.mp h
    rw [List.foldl_cons, ih ht, scan_cons, Scan.read, if_neg hc]

/-- Behind whole lines the scanner is at the start of a region, the one that the lines leave. -/
theorem foldl_read_script {lines : List Text} (hu : ∀ line ∈ lines, Unbroken line) (g : Region) :
    (script lines).foldl Scan.read (.ofRegion g) = .ofRegion (behind g lines) := by
  induction lines generalizing g with
  | nil => rfl
  | cons line rest ih =>
    obtain ⟨hl, hr⟩ := List.forall_mem_cons.mp hu
    rw [script_cons, List.foldl_append, foldl_read_of_unbroken hl, List.foldl_cons, behind_cons,
      advance_eq_scan, ← ih hr]
    rfl

/-- **At the end of every line the reader is in a block just when the lines leave one open.** -/
theorem after_script_append {pre : List Text} {line : Text} (hu : ∀ l ∈ pre, Unbroken l)
    (hl : Unbroken line) :
    Passage.after .code (script pre ++ line) = .block ↔ behind .code (pre ++ [line]) = .block := by
  rw [after_eq_foldl, List.foldl_append, foldl_read_of_unbroken hl,
    show Scan.ofPassage .code = .ofRegion .code from rfl, foldl_read_script hu,
    Scan.passage_eq_block_iff, ← advance_eq_scan, behind_append, behind_cons, behind_nil]

theorem after_script {lines : List Text} (hu : ∀ line ∈ lines, Unbroken line) :
    Passage.after .code (script lines) = .block ↔ behind .code lines = .block := by
  rw [after_eq_foldl, show Scan.ofPassage .code = .ofRegion .code from rfl, foldl_read_script hu,
    Scan.passage_eq_block_iff, Scan.region_ofRegion]

/-- A text begins with a piece, blanks in front aside. -/
def BeginsWith (piece t : Text) : Prop := ∃ b r, Blanks b ∧ t = b ++ piece ++ r

theorem isPrefixOf_trimStart_iff {c : Char} (hc : isBlank c = false) {piece t : Text} :
    (c :: piece).isPrefixOf (trimStart t) = true ↔ BeginsWith (c :: piece) t := by
  rw [List.isPrefixOf_iff_prefix]
  constructor
  · rintro ⟨r, hr⟩
    refine ⟨t.takeWhile isBlank, r, blanks_takeWhile t, ?_⟩
    rw [List.append_assoc, hr, takeWhile_append_trimStart]
  · rintro ⟨b, r, hb, rfl⟩
    rw [List.append_assoc, trimStart_append hb, List.cons_append, trimStart_of_inked hc]
    exact ⟨r, rfl⟩

/-- A line is inert when it begins in a block, or with a comment. -/
theorem inert_iff (g : Region) (line : Text) :
    inert g line = true ↔ g = .block ∨ BeginsWith lineOpen line ∨ BeginsWith blockOpen line := by
  cases g with
  | block => simp [inert]
  | code =>
    rw [inert, Bool.or_eq_true, lineOpen, blockOpen, isPrefixOf_trimStart_iff (by decide),
      isPrefixOf_trimStart_iff (by decide)]
    simp

/-- The gaps among the live lines are the inert lines. -/
theorem getElem?_liveLines_eq_some_none {g : Region} {lines : List Text} {i : Nat} {line : Text}
    (h : lines[i]? = some line) :
    (liveLines g lines)[i]? = some none ↔ inert (behind g (lines.take i)) line = true := by
  induction lines generalizing g i with
  | nil => cases h
  | cons first rest ih =>
    cases i with
    | zero =>
      obtain rfl := Option.some.inj h
      rw [liveLines, List.getElem?_cons_zero, List.take_zero, behind_nil]
      cases inert g first <;> simp
    | succ i =>
      rw [liveLines, List.getElem?_cons_succ, List.take_succ_cons, behind_cons]
      exact ih h

/-! ## 4. The jumps come to an end -/

/-- One round of the jumps: the region of what is left of the text, or what lies behind the next
delimiter and the region that it begins in. -/
def jump : Region → Text → Region ⊕ Region × Text
  | .block, t =>
    match indexOf? blockClose t with
    | none => .inl .block
    | some i => .inr (.code, t.drop (i + 2))
  | .code, t =>
    match indexOf? blockOpen t with
    | none => .inl .code
    | some i =>
      if (indexOf? lineOpen t).any (· < i) then .inl .code else .inr (.block, t.drop (i + 2))

/-- The rounds one after the other, given up when none is left. -/
def jumps : Nat → Region → Text → Option Region
  | 0, _, _ => none
  | n + 1, g, t =>
    match jump g t with
    | .inl g' => some g'
    | .inr (g', rest) => jumps n g' rest

/-- A round that ends the search ends it with the right answer. -/
theorem jump_eq_inl {g g' : Region} {t : Text} (h : jump g t = .inl g') :
    regionAfter g t = g' := by
  cases g with
  | block =>
    cases hi : indexOf? blockClose t with
    | none => simpa [jump, hi, regionAfter_block_of_none hi] using h
    | some i => simp [jump, hi] at h
  | code =>
    cases hi : indexOf? blockOpen t with
    | none => simpa [jump, hi, regionAfter_code_of_none hi] using h
    | some i =>
      rw [regionAfter_code_of_some hi]
      simp only [jump, hi] at h
      split at h
      · rename_i hc; rw [if_pos hc]; exact Sum.inl.inj h
      · cases h

/-- **A round that goes on leaves two characters behind it**, and the answer is the rest's. -/
theorem jump_eq_inr {g g' : Region} {t rest : Text} (h : jump g t = .inr (g', rest)) :
    rest.length + 2 ≤ t.length ∧ regionAfter g t = regionAfter g' rest := by
  cases g with
  | block =>
    cases hi : indexOf? blockClose t with
    | none => simp [jump, hi] at h
    | some i =>
      have hlen := indexOf?_add_two_le (by decide) hi
      obtain ⟨rfl, rfl⟩ : Region.code = g' ∧ t.drop (i + 2) = rest := by simpa [jump, hi] using h
      refine ⟨?_, regionAfter_block_of_some hi⟩
      rw [List.length_drop]
      omega
  | code =>
    cases hi : indexOf? blockOpen t with
    | none => simp [jump, hi] at h
    | some i =>
      have hlen := indexOf?_add_two_le (by decide) hi
      rw [regionAfter_code_of_some hi]
      simp only [jump, hi] at h
      split at h
      · cases h
      · rename_i hc
        obtain ⟨rfl, rfl⟩ := Prod.mk.inj (Sum.inr.inj h)
        rw [if_neg hc, List.length_drop]
        exact ⟨by omega, rfl⟩

/-- **The jumps come to an end**: a round that goes on leaves a delimiter behind, so there are no
more of them than the text has pairs of characters. -/
theorem jumps_eq_regionAfter {n : Nat} {t : Text} (h : t.length < 2 * n) (g : Region) :
    jumps n g t = some (regionAfter g t) := by
  induction n generalizing g t with
  | zero => omega
  | succ n ih =>
    rw [jumps]
    cases hj : jump g t with
    | inl g' => simp only [jump_eq_inl hj]
    | inr next =>
      obtain ⟨g', rest⟩ := next
      obtain ⟨hlen, heq⟩ := jump_eq_inr hj
      simp only [heq]
      exact ih (by omega) g'

/-! ## 5. The reader and the program -/

/-- **What the program makes of a script is what a reader makes of it.**  Behind every line the
program is in a block just when the reader is in one at the end of the line.  The inert lines are
those at whose beginning the reader is in a block, and those that begin with a comment.  On every
text, of one line or more, the jumps end within half its length. -/
theorem liveLines_eq_reading (lines : List Text) (hu : ∀ line ∈ lines, Unbroken line) :
    (∀ i line, lines[i]? = some line →
      (behind .code (lines.take (i + 1)) = .block ↔
        Passage.after .code (script (lines.take i) ++ line) = .block) ∧
      ((liveLines .code lines)[i]? = some none ↔
        Passage.after .code (script (lines.take i)) = .block ∨
          BeginsWith lineOpen line ∨ BeginsWith blockOpen line)) ∧
    ∀ g t, jumps (t.length / 2 + 1) g t = some (regionAfter g t) := by
  refine ⟨?_, fun g t => jumps_eq_regionAfter (by omega) g⟩
  intro i line hi
  have hpre : ∀ l ∈ lines.take i, Unbroken l := fun l hl => hu l (List.mem_of_mem_take hl)
  have hline : Unbroken line := hu line (List.mem_of_getElem? hi)
  constructor
  · rw [after_script_append hpre hline, List.take_add_one, hi, Option.toList_some]
  · rw [getElem?_liveLines_eq_some_none hi, inert_iff, after_script hpre]

/-- Delimiters that would overlap: the slash of an opening does not close the block, a star behind
a closing opens none, and a block is closed and another one opened on one line. -/
theorem liveLines_eq_reading_overlapping :
    let lines : List Text := ["a /*/ b".toList, "*/* c".toList, "d //* e".toList,
      " /* f */ g /*".toList, "h */ /* i */".toList, "j".toList]
    (∀ line ∈ lines, Unbroken line) ∧
      (liveLines .code lines).map Option.isNone = [false, true, false, true, true, false] ∧
      ((behind .code (lines.take 4) = .block ↔
          Passage.after .code (script (lines.take 3) ++ " /* f */ g /*".toList) = .block) ∧
        ((liveLines .code lines)[3]? = some none ↔
          Passage.after .code (script (lines.take 3)) = .block ∨
            BeginsWith lineOpen " /* f */ g /*".toList ∨
            BeginsWith blockOpen " /* f */ g /*".toList)) ∧
      jumps 7 .code " /* f */ g /*".toList = some .block := by
  intro lines
  obtain ⟨hlines, hjumps⟩ := liveLines_eq_reading lines (by decide)
  have hrun := hjumps .code " /* f */ g /*".toList
  have hend : regionAfter .code " /* f */ g /*".toList = .block := by decide +kernel
  rw [hend] at hrun
  exact ⟨by decide, by decide +kernel, hlines 3 _ rfl, hrun⟩

end ModelScale.Comment
