import Mathlib.Data.List.Induction
import ModelScale.Proofs.Comment.Live

/-
# Lines without the inside of their comments

The outline of a line is what is left of it when everything strictly inside its comments is taken
out; the delimiters stay.  Two scripts that differ in comments alone are scripts with the same
outlines.  Main statements:

* `advance_outline`: a line and its outline end in the same region;
* `inert_outline`: the one is inert if the other is.

So both decisions that are made about a line as a whole are made on its outline.  A stretch of code
without a slash is in both alike, at the start (`exists_of_outline_eq_append`) and at the end
(`exists_of_outlineFrom_eq_append`).
-/

namespace ModelScale.Comment

open Text

/-! ## 1. One character after another -/

namespace Scan

/-- What a character contributes to the outline.  The star of a closing delimiter counts only once
the slash is there. -/
def shown : Scan → Char → Text
  | code, c | slash, c => [c]
  | star, c => if c = '/' then ['*', '/'] else []
  | block, _ | line, _ => []

/-- The scanner on the outline: a star in a block that is not part of a delimiter is not there. -/
def settle : Scan → Scan
  | star => block
  | s => s

@[simp] theorem region_settle (s : Scan) : s.settle.region = s.region := by cases s <;> rfl

@[simp] theorem settle_ofRegion (g : Region) : (ofRegion g).settle = ofRegion g := by
  cases g <;> rfl

end Scan

/-- The outline of a text from a point of the scan on. -/
def outlineFrom (s : Scan) : Text → Text
  | [] => []
  | c :: t => s.shown c ++ outlineFrom (s.step c) t

/-- The outline of a line that begins in a region. -/
def outline (g : Region) (line : Text) : Text :=
  outlineFrom (.ofRegion g) line

@[simp] theorem outline_nil (g : Region) : outline g [] = [] := rfl

/-- The outlines of lines, blocks running over from one to the next. -/
def outlines (g : Region) : List Text → List Text
  | [] => []
  | line :: rest => outline g line :: outlines (scan (.ofRegion g) line).region rest

theorem outlines_cons (g : Region) (line : Text) (rest : List Text) :
    outlines g (line :: rest) = outline g line :: outlines (advance g line) rest := by
  rw [outlines, advance_eq_scan]

/-! ## 2. The region -/

/-- The step lemma: what is shown of a character takes the scanner where the character takes it. -/
theorem scan_shown (s : Scan) (c : Char) : scan s.settle (s.shown c) = (s.step c).settle := by
  by_cases h : c = '/' <;> by_cases h' : c = '*' <;>
    cases s <;> simp [Scan.shown, Scan.settle, Scan.step, h, h']

/-- **The scanner ends on the outline where it ends on the text.** -/
theorem scan_outlineFrom (s : Scan) (t : Text) :
    scan s.settle (outlineFrom s t) = (scan s t).settle := by
  induction t generalizing s with
  | nil => rfl
  | cons c t ih => rw [outlineFrom, scan_append, scan_shown, ih, scan_cons]

theorem advance_outline (g : Region) (line : Text) :
    advance g (outline g line) = advance g line := by
  have h := scan_outlineFrom (.ofRegion g) line
  rw [Scan.settle_ofRegion] at h
  rw [advance_eq_scan, advance_eq_scan, outline, h, Scan.region_settle]

/-! ## 3. Inert lines -/

theorem isBlank_slash : isBlank '/' = false := by decide

/-- A character of code that begins no delimiter is outside comments. -/
theorem outline_cons_of_ne_slash {c : Char} (hs : c ≠ '/') (t : Text) :
    outline .code (c :: t) = c :: outline .code t := by
  show [c] ++ outlineFrom (Scan.code.step c) t = c :: outline .code t
  rw [show Scan.code.step c = .code from if_neg hs]
  rfl

/-- Code without a slash is outside comments. -/
theorem outline_append_of_not_mem {w : Text} (hw : '/' ∉ w) (t : Text) :
    outline .code (w ++ t) = w ++ outline .code t := by
  induction w with
  | nil => rfl
  | cons c w ih =>
    rw [List.mem_cons, not_or] at hw
    obtain ⟨hc, hw⟩ := hw
    rw [List.cons_append, outline_cons_of_ne_slash (Ne.symm hc), ih hw, List.cons_append]

/-- **A line is inert if its outline is**: the opening of a comment is outside of it. -/
theorem inert_outline (g : Region) (line : Text) : inert g (outline g line) = inert g line := by
  cases g with
  | block => rfl
  | code =>
    rcases blanks_or_word line with hb | ⟨b, w, r, rfl, hb, hw, hne, -⟩
    · have h := outline_append_of_not_mem (hb.not_mem isBlank_slash) []
      rw [outline_nil, List.append_nil] at h
      rw [h]
    · obtain ⟨c, w, rfl⟩ := List.exists_cons_of_ne_nil hne
      have hc := (inked_cons.mp hw).1
      rw [outline_append_of_not_mem (hb.not_mem isBlank_slash), List.cons_append]
      by_cases hs : c = '/'
      · subst hs
        cases w ++ r with
        | nil => rfl
        | cons d t => exact inert_congr hb hc _ _
      · rw [outline_cons_of_ne_slash hs, inert_of_ne_slash hb hc hs, inert_of_ne_slash hb hc hs]

/-! ## 4. Outside of comments -/

/-- Outside of comments. -/
def Scan.Outside : Scan → Prop
  | code | slash => True
  | block | star | line => False

instance : (s : Scan) → Decidable s.Outside
  | .code | .slash => inferInstanceAs (Decidable True)
  | .block | .star | .line => inferInstanceAs (Decidable False)

/-- A comment ends with a slash, so what is outside and no slash follows what is outside. -/
theorem Scan.outside_of_step {s : Scan} {c : Char} (hc : c ≠ '/') (h : (s.step c).Outside) :
    s.Outside ∧ s.shown c = [c] := by
  by_cases h' : c = '*' <;> cases s <;> simp_all [Scan.step, Scan.shown, Scan.Outside]

/-- A slash that is outside of comments is shown last. -/
theorem Scan.shown_slash {s : Scan} (h : (s.step '/').Outside) :
    ∃ x, s.shown '/' = x ++ ['/'] := by
  cases s with
  | code => exact ⟨[], rfl⟩
  | slash => exact ⟨[], rfl⟩
  | star => exact ⟨['*'], rfl⟩
  | block => cases h
  | line => cases h

/-- What opens a comment is shown, and is part of a delimiter. -/
theorem Scan.shown_of_opens {s : Scan} {c : Char} (ho : s.Outside) (h : ¬ (s.step c).Outside) :
    s.shown c = [c] ∧ (c = '/' ∨ c = '*') := by
  by_cases h1 : c = '/' <;> by_cases h2 : c = '*' <;> cases s <;>
    simp_all [Scan.step, Scan.shown, Scan.Outside]

/-- What stays in a comment is not shown. -/
theorem Scan.shown_of_inside {s : Scan} {c : Char} (ho : ¬ s.Outside) (h : ¬ (s.step c).Outside) :
    s.shown c = [] := by
  by_cases h1 : c = '/' <;> cases s <;> simp_all [Scan.step, Scan.shown, Scan.Outside]

/-- **At the start**, code without a slash is in the text if it is in the outline. -/
theorem exists_of_outline_eq_append {t w x : Text} (hw : '/' ∉ w)
    (h : outline .code t = w ++ x) : ∃ r, t = w ++ r ∧ outline .code r = x := by
  induction w generalizing t with
  | nil => exact ⟨t, rfl, h⟩
  | cons c w ih =>
    rw [List.mem_cons, not_or] at hw
    obtain ⟨hc, hw⟩ := hw
    cases t with
    | nil => cases h
    | cons d t =>
      obtain ⟨rfl, -⟩ : d = c ∧ outlineFrom (Scan.code.step d) t = w ++ x := List.cons.inj h
      rw [outline_cons_of_ne_slash (Ne.symm hc)] at h
      obtain ⟨r, rfl, hr⟩ := ih hw (List.cons.inj h).2
      exact ⟨r, rfl, hr⟩

theorem outlineFrom_append (s : Scan) (t u : Text) :
    outlineFrom s (t ++ u) = outlineFrom s t ++ outlineFrom (scan s t) u := by
  induction t generalizing s with
  | nil => rfl
  | cons c t ih => rw [List.cons_append, outlineFrom, outlineFrom, ih, scan_cons, List.append_assoc]

/-- **At the end**, where that is outside of comments, text without a slash is outside as a
whole. -/
theorem outlineFrom_append_of_outside {s : Scan} {t w : Text} (hw : '/' ∉ w)
    (h : (scan s (t ++ w)).Outside) :
    (scan s t).Outside ∧ outlineFrom s (t ++ w) = outlineFrom s t ++ w := by
  induction w using List.reverseRecOn with
  | nil =>
    rw [List.append_nil] at h ⊢
    exact ⟨h, (List.append_nil _).symm⟩
  | append_singleton w c ih =>
    rw [List.mem_append, List.mem_singleton, not_or] at hw
    rw [← List.append_assoc, scan_append] at h
    obtain ⟨ho, hshown⟩ := Scan.outside_of_step (Ne.symm hw.2) h
    obtain ⟨ht, hout⟩ := ih hw.1 ho
    refine ⟨ht, ?_⟩
    rw [← List.append_assoc, outlineFrom_append, hout, outlineFrom, hshown, outlineFrom,
      List.append_nil, List.append_assoc]

/-- And it is at the end of the text if it is at the end of the outline. -/
theorem exists_of_outlineFrom_eq_append {s : Scan} {t x w : Text} (hw : '/' ∉ w)
    (h : (scan s t).Outside) (e : outlineFrom s t = x ++ w) :
    ∃ r, t = r ++ w ∧ outlineFrom s r = x := by
  induction t using List.reverseRecOn generalizing w with
  | nil =>
    obtain ⟨rfl, rfl⟩ := List.append_eq_nil_iff.mp e.symm
    exact ⟨[], rfl, rfl⟩
  | append_singleton t c ih =>
    rcases List.eq_nil_or_concat w with rfl | ⟨w, d, rfl⟩
    · exact ⟨t ++ [c], (List.append_nil _).symm, e.trans (List.append_nil _)⟩
    · rw [List.concat_eq_append] at hw e ⊢
      rw [List.mem_append, List.mem_singleton, not_or] at hw
      rw [scan_append] at h
      rw [outlineFrom_append, outlineFrom, outlineFrom, List.append_nil, ← List.append_assoc] at e
      by_cases hc : c = '/'
      · subst hc
        obtain ⟨y, hy⟩ := Scan.shown_slash h
        rw [hy, ← List.append_assoc] at e
        exact absurd (List.cons.inj (List.append_inj' e rfl).2).1 hw.2
      · obtain ⟨ho, hshown⟩ := Scan.outside_of_step hc h
        rw [hshown] at e
        obtain ⟨hx, hd⟩ := List.append_inj' e rfl
        obtain ⟨r, rfl, hr⟩ := ih hw.1 ho hx
        exact ⟨r, by rw [(List.cons.inj hd).1, List.append_assoc], hr⟩

/-- So a text ends in a blank if its outline does. -/
theorem atGap_reverse_outlineFrom {s : Scan} {t : Text} (h : (scan s t).Outside) :
    AtGap (outlineFrom s t).reverse ↔ AtGap t.reverse := by
  rcases List.eq_nil_or_concat t with rfl | ⟨t, c, rfl⟩
  · exact Iff.rfl
  · rw [List.concat_eq_append] at h ⊢
    rw [List.reverse_concat, atGap_cons]
    by_cases hc : c = '/'
    · subst hc
      rw [scan_append] at h
      obtain ⟨y, hy⟩ := Scan.shown_slash h
      rw [outlineFrom_append, outlineFrom, outlineFrom, List.append_nil, hy, ← List.append_assoc,
        List.reverse_concat, atGap_cons]
    · have hc' : '/' ∉ [c] := by
        rw [List.mem_singleton]
        exact Ne.symm hc
      rw [(outlineFrom_append_of_outside hc' h).2, List.reverse_concat, atGap_cons]

/-- A text in code that starts with a blank, or is empty, is one whose outline does. -/
theorem atGap_outline {t : Text} : AtGap (outline .code t) ↔ AtGap t := by
  cases t with
  | nil => exact Iff.rfl
  | cons c t => exact Iff.rfl

/-- A comment that runs to the end of the line has no more to show. -/
theorem outlineFrom_line (t : Text) : outlineFrom .line t = [] := by
  induction t with
  | nil => rfl
  | cons c t ih => exact ih

/-- Where no block is open, what follows a gap in the text follows one in the outline. -/
theorem atGap_outlineFrom {s : Scan} {t : Text} (hs : s.region = .code) (ht : AtGap t) :
    AtGap (outlineFrom s t) := by
  cases s with
  | code | slash =>
    cases t with
    | nil => exact ht
    | cons c t => exact ht
  | line => rw [outlineFrom_line]; exact atGap_nil
  | block | star => cases hs

/-- What follows text without a slash is outside of comments only if that text is. -/
theorem outside_of_scan {s : Scan} {w : Text} (hw : '/' ∉ w) (h : (scan s w).Outside) :
    s.Outside :=
  (outlineFrom_append_of_outside (t := []) hw h).1

/-- Behind a character of no delimiter that is outside of comments there is code. -/
theorem step_of_outside {s : Scan} (hs : s.Outside) {c : Char} (h1 : c ≠ '/') (h2 : c ≠ '*') :
    s.step c = .code := by
  rw [Scan.step_of_ne s h1 h2]
  cases s <;> first | rfl | cases hs

/-- And the character is shown. -/
theorem outlineFrom_cons_of_outside {s : Scan} (hs : s.Outside) {c : Char} (h1 : c ≠ '/')
    (h2 : c ≠ '*') (t : Text) : outlineFrom s (c :: t) = c :: outline .code t := by
  rw [outlineFrom, step_of_outside hs h1 h2]
  cases s <;> first | rfl | cases hs

/-- Inside of a comment it is not. -/
theorem outlineFrom_cons_of_inside {s : Scan} (hs : ¬ s.Outside) {c : Char} (hc : c ≠ '/')
    (t : Text) : outlineFrom s (c :: t) = outlineFrom (s.step c) t := by
  have hstep : ¬ (s.step c).Outside := fun h => hs (Scan.outside_of_step hc h).1
  rw [outlineFrom, Scan.shown_of_inside hs hstep, List.nil_append]

/-- What is shown of a character is that character, or a delimiter. -/
theorem Scan.mem_shown {s : Scan} {c d : Char} (h : d ∈ s.shown c) : d = c ∨ d = '*' := by
  by_cases hc : c = '/' <;> cases s <;> simp_all [Scan.shown, or_comm]

/-- The outline of a text that ends in a comment ends in a delimiter. -/
theorem exists_delimiter_of_not_outside {s : Scan} (hs : s.Outside) {t : Text}
    (h : ¬ (scan s t).Outside) :
    ∃ x d, outlineFrom s t = x ++ [d] ∧ (d = '/' ∨ d = '*') := by
  induction t using List.reverseRecOn with
  | nil => exact absurd hs h
  | append_singleton t c ih =>
    rw [scan_append] at h
    rw [outlineFrom_append, outlineFrom, outlineFrom, List.append_nil]
    by_cases ho : (scan s t).Outside
    · obtain ⟨hshown, hc⟩ := Scan.shown_of_opens ho h
      exact ⟨_, c, by rw [hshown], hc⟩
    · rw [Scan.shown_of_inside ho h, List.append_nil]
      exact ih ho

end ModelScale.Comment
