import ModelScale.Comment
import ModelScale.Proofs.Text.Words

/-
# Comments, character by character

`Comment.regionAfter` jumps from delimiter to delimiter.  A rewrite changes the text between them,
so what it keeps is easier to see on a scanner that reads one character at a time (`Scan.step`).
Main statements:

* `regionAfter_eq_scan`, `advance_eq_scan`: the scanner and the jumps agree on every text;
* `scan_neutral`: a stretch without slash and star, of whatever length, only makes the scanner
  forget a delimiter that was begun, so one such stretch can stand for another;
* `inert_congr`: whether a line is inert depends on its first two characters.
-/

namespace ModelScale.Comment

open Text

/-! ## 1. The scanner -/

/-- What the scanner has to remember. -/
inductive Scan where
  | code
  /-- In code, right behind a slash. -/
  | slash
  | block
  /-- In a block, right behind a star. -/
  | star
  /-- In a comment that runs to the end of the line. -/
  | line
  deriving DecidableEq, Repr

namespace Scan

/-- One character. -/
def step : Scan → Char → Scan
  | code, c => if c = '/' then slash else code
  | slash, c => if c = '/' then line else if c = '*' then block else code
  | block, c => if c = '*' then star else block
  | star, c => if c = '/' then code else if c = '*' then star else block
  | line, _ => line

/-- The region that a text ends in. -/
def region : Scan → Region
  | block | star => .block
  | _ => .code

/-- Where the scanner starts in a region. -/
def ofRegion : Region → Scan
  | .code => code
  | .block => block

/-- What is left after a character that is in no delimiter. -/
def idle : Scan → Scan
  | code | slash => code
  | block | star => block
  | line => line

@[simp] theorem region_idle (s : Scan) : s.idle.region = s.region := by cases s <;> rfl

@[simp] theorem idle_idle (s : Scan) : s.idle.idle = s.idle := by cases s <;> rfl

@[simp] theorem region_ofRegion (g : Region) : (ofRegion g).region = g := by cases g <;> rfl

theorem step_of_ne (s : Scan) {c : Char} (h1 : c ≠ '/') (h2 : c ≠ '*') : s.step c = s.idle := by
  cases s <;> simp [step, idle, h1, h2]

end Scan

/-- A whole text. -/
def scan (s : Scan) (t : Text) : Scan :=
  t.foldl Scan.step s

@[simp] theorem scan_nil (s : Scan) : scan s [] = s := rfl

@[simp] theorem scan_cons (s : Scan) (c : Char) (t : Text) : scan s (c :: t) = scan (s.step c) t :=
  rfl

@[simp] theorem scan_append (s : Scan) (t u : Text) : scan s (t ++ u) = scan (scan s t) u :=
  List.foldl_append

/-- A comment that runs to the end of the line does so. -/
@[simp] theorem scan_line (t : Text) : scan .line t = .line := by
  induction t with
  | nil => rfl
  | cons c t ih => exact ih

/-! ## 2. The jumps, one character at a time -/

theorem indexOf?_skip {piece : Text} {c : Char} {t : Text}
    (h : piece.isPrefixOf (c :: t) = false) :
    indexOf? piece (c :: t) = (indexOf? piece t).map (· + 1) := by
  simp [indexOf?, h]

theorem regionAfter_block_of_none {t : Text} (h : indexOf? blockClose t = none) :
    regionAfter .block t = .block := by
  rw [regionAfter]
  split
  · rfl
  · rename_i h'; rw [h] at h'; cases h'

theorem regionAfter_block_of_some {t : Text} {i : Nat} (h : indexOf? blockClose t = some i) :
    regionAfter .block t = regionAfter .code (t.drop (i + 2)) := by
  rw [regionAfter]
  split
  · rename_i h'; rw [h] at h'; cases h'
  · rename_i h'; rw [h] at h'; cases h'; rfl

theorem regionAfter_code_of_none {t : Text} (h : indexOf? blockOpen t = none) :
    regionAfter .code t = .code := by
  rw [regionAfter]
  split
  · rfl
  · rename_i h'; rw [h] at h'; cases h'

theorem regionAfter_code_of_some {t : Text} {i : Nat} (h : indexOf? blockOpen t = some i) :
    regionAfter .code t =
      if (indexOf? lineOpen t).any (· < i) then .code
      else regionAfter .block (t.drop (i + 2)) := by
  conv_lhs => rw [regionAfter]
  split
  · rename_i h'; rw [h] at h'; cases h'
  · rename_i h'; rw [h] at h'; cases h'; rfl

theorem regionAfter_nil (g : Region) : regionAfter g [] = g := by
  cases g with
  | code => exact regionAfter_code_of_none (by simp [indexOf?, blockOpen])
  | block => exact regionAfter_block_of_none (by simp [indexOf?, blockClose])

theorem regionAfter_close (t : Text) :
    regionAfter .block ('*' :: '/' :: t) = regionAfter .code t :=
  regionAfter_block_of_some (i := 0) (by simp [indexOf?, blockClose, List.isPrefixOf])

theorem regionAfter_open (t : Text) :
    regionAfter .code ('/' :: '*' :: t) = regionAfter .block t := by
  have hi : indexOf? blockOpen ('/' :: '*' :: t) = some 0 := by
    simp [indexOf?, blockOpen, List.isPrefixOf]
  rw [regionAfter_code_of_some hi, if_neg (by simp)]
  rfl

theorem regionAfter_lineOpen (t : Text) : regionAfter .code ('/' :: '/' :: t) = .code := by
  have hl : indexOf? lineOpen ('/' :: '/' :: t) = some 0 := by
    simp [indexOf?, lineOpen, List.isPrefixOf]
  have hb : indexOf? blockOpen ('/' :: '/' :: t) = (indexOf? blockOpen ('/' :: t)).map (· + 1) :=
    indexOf?_skip (by simp [blockOpen, List.isPrefixOf])
  cases h : indexOf? blockOpen ('/' :: t) with
  | none => exact regionAfter_code_of_none (by rw [hb, h]; rfl)
  | some i =>
    rw [regionAfter_code_of_some (i := i + 1) (by rw [hb, h]; rfl), hl, if_pos (by simp)]

theorem regionAfter_skip_block {c : Char} {t : Text}
    (h : blockClose.isPrefixOf (c :: t) = false) :
    regionAfter .block (c :: t) = regionAfter .block t := by
  have hi := indexOf?_skip h
  cases ht : indexOf? blockClose t with
  | none =>
    rw [regionAfter_block_of_none ht, regionAfter_block_of_none (by rw [hi, ht]; rfl)]
  | some i =>
    rw [regionAfter_block_of_some ht, regionAfter_block_of_some (i := i + 1) (by rw [hi, ht]; rfl)]
    rfl

theorem regionAfter_skip_code {c : Char} {t : Text} (hb : blockOpen.isPrefixOf (c :: t) = false)
    (hl : lineOpen.isPrefixOf (c :: t) = false) :
    regionAfter .code (c :: t) = regionAfter .code t := by
  have hi := indexOf?_skip hb
  have hj := indexOf?_skip hl
  cases ht : indexOf? blockOpen t with
  | none =>
    rw [regionAfter_code_of_none ht, regionAfter_code_of_none (by rw [hi, ht]; rfl)]
  | some i =>
    have ha : (indexOf? lineOpen (c :: t)).any (· < i + 1) = (indexOf? lineOpen t).any (· < i) := by
      rw [hj]
      cases indexOf? lineOpen t <;> simp
    rw [regionAfter_code_of_some ht, regionAfter_code_of_some (i := i + 1) (by rw [hi, ht]; rfl),
      ha]
    rfl

/-! ## 3. Both agree -/

/-- The scanner and the jumps end in the same region.  The induction is on the length, since a
delimiter takes two characters at once. -/
theorem regionAfter_eq_scan_aux : ∀ (n : Nat) (t : Text), t.length ≤ n →
    regionAfter .code t = (scan .code t).region ∧ regionAfter .block t = (scan .block t).region
  | _, [], _ => by simp [regionAfter_nil, Scan.region]
  | 0, c :: t, h => by simp at h
  | n + 1, [c], _ => by
    constructor
    · rw [regionAfter_skip_code (by simp [blockOpen, List.isPrefixOf])
        (by simp [lineOpen, List.isPrefixOf]), regionAfter_nil]
      simp only [scan_cons, scan_nil, Scan.step]
      split <;> rfl
    · rw [regionAfter_skip_block (by simp [blockClose, List.isPrefixOf]), regionAfter_nil]
      simp only [scan_cons, scan_nil, Scan.step]
      split <;> rfl
  | n + 1, c :: d :: t, h => by
    have hlen : t.length + 1 ≤ n := by simpa using h
    have ih1 := regionAfter_eq_scan_aux n (d :: t) (by simpa using hlen)
    have ih2 := regionAfter_eq_scan_aux n t (by omega)
    constructor
    · by_cases hc : c = '/'
      · subst hc
        by_cases hd : d = '/'
        · subst hd
          rw [regionAfter_lineOpen]
          simp [Scan.step, Scan.region]
        · by_cases hd' : d = '*'
          · subst hd'
            rw [regionAfter_open, ih2.2]
            simp [Scan.step]
          · rw [regionAfter_skip_code (by simp [blockOpen, List.isPrefixOf, Ne.symm hd'])
              (by simp [lineOpen, List.isPrefixOf, Ne.symm hd]), ih1.1]
            simp [Scan.step, hd, hd']
      · rw [regionAfter_skip_code (by simp [blockOpen, List.isPrefixOf, Ne.symm hc])
          (by simp [lineOpen, List.isPrefixOf, Ne.symm hc]), ih1.1]
        simp [Scan.step, hc]
    · by_cases hc : c = '*'
      · subst hc
        by_cases hd : d = '/'
        · subst hd
          rw [regionAfter_close, ih2.1]
          simp [Scan.step]
        · rw [regionAfter_skip_block (by simp [blockClose, List.isPrefixOf, Ne.symm hd]), ih1.2]
          simp [Scan.step, hd]
      · rw [regionAfter_skip_block (by simp [blockClose, List.isPrefixOf, Ne.symm hc]), ih1.2]
        simp [Scan.step, hc]

/-- **The scanner ends in the region that the jumps end in.** -/
theorem regionAfter_eq_scan (g : Region) (t : Text) :
    regionAfter g t = (scan (.ofRegion g) t).region := by
  cases g with
  | code => exact (regionAfter_eq_scan_aux t.length t le_rfl).1
  | block => exact (regionAfter_eq_scan_aux t.length t le_rfl).2

/-! ## 4. Neutral stretches -/

/-- Neither slash nor star: nothing of a delimiter. -/
def Neutral (t : Text) : Prop := ∀ c ∈ t, c ≠ '/' ∧ c ≠ '*'

@[simp] theorem neutral_nil : Neutral [] := by
  intro _ h
  exact absurd h (by simp)

@[simp] theorem neutral_cons {c : Char} {t : Text} :
    Neutral (c :: t) ↔ (c ≠ '/' ∧ c ≠ '*') ∧ Neutral t := by
  simp [Neutral]

@[simp] theorem neutral_append {t u : Text} : Neutral (t ++ u) ↔ Neutral t ∧ Neutral u := by
  constructor
  · exact fun h => ⟨fun c hc => h c (List.mem_append_left u hc),
      fun c hc => h c (List.mem_append_right t hc)⟩
  · rintro ⟨ht, hu⟩ c hc
    rcases List.mem_append.mp hc with h | h
    · exact ht c h
    · exact hu c h

theorem neutral_of_blanks {b : Text} (hb : Blanks b) : Neutral b := by
  intro c hc
  constructor
  · rintro rfl; exact absurd (hb _ hc) (by decide)
  · rintro rfl; exact absurd (hb _ hc) (by decide)

theorem scan_idle_neutral {t : Text} (h : Neutral t) (s : Scan) : scan s.idle t = s.idle := by
  induction t with
  | nil => rfl
  | cons c t ih =>
    obtain ⟨⟨h1, h2⟩, ht⟩ := neutral_cons.mp h
    rw [scan_cons, Scan.step_of_ne _ h1 h2, Scan.idle_idle, ih ht]

/-- A neutral stretch makes the scanner forget a delimiter that was begun, and does no more. -/
theorem scan_neutral {t : Text} (h : Neutral t) (hne : t ≠ []) (s : Scan) : scan s t = s.idle := by
  cases t with
  | nil => exact absurd rfl hne
  | cons c t =>
    obtain ⟨⟨h1, h2⟩, ht⟩ := neutral_cons.mp h
    rw [scan_cons, Scan.step_of_ne _ h1 h2, scan_idle_neutral ht]

/-- One neutral stretch stands for another. -/
theorem scan_swap {t u : Text} (ht : Neutral t) (htne : t ≠ []) (hu : Neutral u) (hune : u ≠ [])
    (s : Scan) (r : Text) : scan s (t ++ r) = scan s (u ++ r) := by
  rw [scan_append, scan_append, scan_neutral ht htne, scan_neutral hu hune]

/-- Blanks at the end of a text leave its region alone. -/
theorem region_scan_append_blanks {b : Text} (hb : Blanks b) (s : Scan) (t : Text) :
    (scan s (t ++ b)).region = (scan s t).region := by
  rw [scan_append]
  cases b with
  | nil => rfl
  | cons c b => rw [scan_neutral (neutral_of_blanks hb) (by simp), Scan.region_idle]

/-! ## 5. Lines -/

/-- **Reading a line is scanning it.**  A line that starts with a line comment needs no rule of its
own. -/
theorem advance_eq_scan (g : Region) (line : Text) :
    advance g line = (scan (.ofRegion g) line).region := by
  unfold advance
  cases g with
  | block => exact regionAfter_eq_scan .block line
  | code =>
    simp only
    split
    · rename_i h
      obtain ⟨r, hr⟩ := List.isPrefixOf_iff_prefix.mp h
      rw [← takeWhile_append_trimStart line, ← hr, scan_append,
        show Scan.ofRegion .code = Scan.idle .code from rfl,
        scan_idle_neutral (neutral_of_blanks (blanks_takeWhile line))]
      simp [lineOpen, Scan.idle, Scan.step, Scan.region]
    · exact regionAfter_eq_scan .code line

/-- What counts for `inert`: the first two characters that are not blank. -/
theorem inert_congr {g : Region} {b : Text} (hb : Blanks b) {c d : Char} (hc : isBlank c = false)
    (t u : Text) : inert g (b ++ c :: d :: t) = inert g (b ++ c :: d :: u) := by
  cases g with
  | block => rfl
  | code =>
    simp only [inert, trimStart_append hb, trimStart_of_inked hc, lineOpen, blockOpen,
      List.isPrefixOf]

theorem inert_of_ne_slash {b : Text} (hb : Blanks b) {c : Char} (hc : isBlank c = false)
    (hs : c ≠ '/') (g : Region) (t : Text) : inert g (b ++ c :: t) = decide (g = .block) := by
  cases g with
  | block => rfl
  | code =>
    simp [inert, trimStart_append hb, trimStart_of_inked hc, lineOpen, blockOpen,
      List.isPrefixOf, Ne.symm hs]

/-- A text with a character of a word other than a slash in it decides on its own whether a line
that it begins is inert. -/
theorem inert_append_congr {p : Text} {x : Char} (hx : x ∈ p) (hb : isBlank x = false)
    (hs : x ≠ '/') (g : Region) (t u : Text) : inert g (p ++ t) = inert g (p ++ u) := by
  rcases blanks_or_word p with h | ⟨b, w, r, rfl, hbl, hw, hne, -⟩
  · exact absurd (h x hx) (by simp [hb])
  · obtain ⟨c, w, rfl⟩ := List.exists_cons_of_ne_nil hne
    have hc := (inked_cons.mp hw).1
    by_cases h : c = '/'
    · subst h
      -- the character itself stands behind the slash
      obtain ⟨d, q, hd⟩ : ∃ d q, w ++ r = d :: q := by
        rcases List.mem_append.mp hx with h' | h'
        · exact absurd (hbl x h') (by simp [hb])
        · rcases List.mem_cons.mp h' with h' | h'
          · exact absurd h' hs
          · exact ⟨_, _, (List.cons_head_tail (List.ne_nil_of_mem h')).symm⟩
      have e : ∀ v : Text, b ++ ('/' :: w ++ r) ++ v = b ++ '/' :: d :: (q ++ v) := by
        intro v
        rw [List.cons_append, hd]; simp
      rw [e, e]
      exact inert_congr hbl hc _ _
    · have e : ∀ v : Text, b ++ (c :: w ++ r) ++ v = b ++ c :: (w ++ r ++ v) := by
        intro v
        simp
      rw [e, e, inert_of_ne_slash hbl hc h, inert_of_ne_slash hbl hc h]

/-- Whether a line is inert is settled by its first word. -/
theorem inert_append_of_atGap {p r : Text} (hp : ¬ Blanks p) (hr : AtGap r) (g : Region) :
    inert g (p ++ r) = inert g p := by
  rcases blanks_or_word p with hb | ⟨b, w, s, rfl, hb, hw, hne, -⟩
  · exact absurd hb hp
  · obtain ⟨c, w, rfl⟩ := List.exists_cons_of_ne_nil hne
    have hc := (inked_cons.mp hw).1
    have e : b ++ (c :: w ++ s) ++ r = b ++ c :: (w ++ s ++ r) := by simp
    rw [e, List.cons_append]
    by_cases hs : c = '/'
    · subst hs
      cases hq : w ++ s with
      | nil =>
        cases r with
        | nil => rfl
        | cons d r =>
          have hd := atGap_cons.mp hr
          have h1 : '/' ≠ d := by rintro rfl; exact absurd hd (by decide)
          have h2 : '*' ≠ d := by rintro rfl; exact absurd hd (by decide)
          cases g <;> simp [inert, trimStart_append hb, trimStart_of_inked hc, lineOpen, blockOpen,
            List.isPrefixOf, h1, h2]
      | cons d q => exact inert_congr hb hc _ _
    · rw [inert_of_ne_slash hb hc hs, inert_of_ne_slash hb hc hs]

theorem inert_append_blanks {b : Text} (hb : Blanks b) (g : Region) (t : Text) :
    inert g (t ++ b) = inert g t := by
  by_cases ht : Blanks t
  · cases g with
    | block => rfl
    | code =>
      rw [inert, inert, trimStart_of_blanks ht, trimStart_of_blanks (blanks_append.mpr ⟨ht, hb⟩)]
  · exact inert_append_of_atGap ht hb.atGap g

theorem advance_append_blanks {b : Text} (hb : Blanks b) (g : Region) (t : Text) :
    advance g (t ++ b) = advance g t := by
  rw [advance_eq_scan, advance_eq_scan, region_scan_append_blanks hb]

end ModelScale.Comment
