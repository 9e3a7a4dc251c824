import Mathlib.Data.List.TakeDrop
import Mathlib.Data.List.TakeWhile
import Mathlib.Tactic.Common
import ModelScale.Text.Search

/-
# Words and blanks

Everything that the recognisers do with a line comes down to where its words are.  One equation
says it all: a blank cuts the words of a text in two (`words_append_blank`).  From it follow

* what the first and the last word of a text are, when the text is given in pieces
  (`nextWord_append`, `lastWord_append`);
* that the words of texts with a space in front of each are these texts (`words_flatMap_space`);
* that a text with words is a gap, the first of them and a text with the others
  (`words_eq_cons_iff`), so that taking one word after another runs through them in order.
-/

namespace ModelScale.Text

/-! ## 1. Blank and inked texts -/

/-- Nothing but blanks. -/
def Blanks (t : Text) : Prop := ∀ c ∈ t, isBlank c = true

/-- No blank. -/
def Inked (t : Text) : Prop := ∀ c ∈ t, isBlank c = false

instance (t : Text) : Decidable (Blanks t) := List.decidableBAll _ t

instance (t : Text) : Decidable (Inked t) := List.decidableBAll _ t

/-- A word cannot go on here: the text is over, or a blank comes first. -/
def AtGap : Text → Prop
  | [] => True
  | c :: _ => isBlank c = true

@[simp] theorem atGap_nil : AtGap [] := trivial

@[simp] theorem atGap_cons {c : Char} {t : Text} : AtGap (c :: t) ↔ isBlank c = true := Iff.rfl

@[simp] theorem blanks_nil : Blanks [] := by
  intro _ h
  exact absurd h (by simp)

@[simp] theorem inked_nil : Inked [] := by
  intro _ h
  exact absurd h (by simp)

@[simp] theorem blanks_cons {c : Char} {t : Text} :
    Blanks (c :: t) ↔ isBlank c = true ∧ Blanks t := by
  simp [Blanks]

@[simp] theorem inked_cons {c : Char} {t : Text} :
    Inked (c :: t) ↔ isBlank c = false ∧ Inked t := by
  simp [Inked]

@[simp] theorem blanks_append {s t : Text} : Blanks (s ++ t) ↔ Blanks s ∧ Blanks t := by
  simp [Blanks, or_imp, forall_and]

@[simp] theorem inked_append {s t : Text} : Inked (s ++ t) ↔ Inked s ∧ Inked t := by
  simp [Inked, or_imp, forall_and]

theorem Blanks.not_mem {b : Text} (hb : Blanks b) {c : Char} (hc : isBlank c = false) : c ∉ b := by
  intro hm
  rw [hb c hm] at hc
  cases hc

theorem Inked.not_blanks {w : Text} (hw : Inked w) (hne : w ≠ []) : ¬ Blanks w := by
  intro hb
  obtain ⟨c, w, rfl⟩ := List.exists_cons_of_ne_nil hne
  have hc := hb c List.mem_cons_self
  rw [hw c List.mem_cons_self] at hc
  cases hc

/-- There is a gap in front of a word, if one can stand there. -/
theorem Inked.ne_nil_of_atGap_append {b w r : Text} (hw : Inked w) (hne : w ≠ [])
    (hg : AtGap (b ++ (w ++ r))) : b ≠ [] := by
  rintro rfl
  obtain ⟨c, w, rfl⟩ := List.exists_cons_of_ne_nil hne
  exact absurd hg (by simp [(inked_cons.mp hw).1])

theorem blanks_iff {t : Text} : isEmptyLine t = true ↔ Blanks t := by
  simp [isEmptyLine, Blanks]

theorem isBlank_space : isBlank ' ' = true := by decide

theorem Blanks.atGap_append {b t : Text} (hb : Blanks b) (ht : AtGap t) : AtGap (b ++ t) := by
  cases b with
  | nil => exact ht
  | cons c b => exact hb c List.mem_cons_self

theorem Blanks.atGap_append_of_ne_nil {b : Text} (hb : Blanks b) (hne : b ≠ []) (t : Text) :
    AtGap (b ++ t) := by
  obtain ⟨c, b, rfl⟩ := List.exists_cons_of_ne_nil hne
  exact (blanks_cons.mp hb).1

theorem AtGap.append {r s : Text} (hr : AtGap r) (hs : AtGap s) : AtGap (r ++ s) := by
  cases r with
  | nil => exact hs
  | cons c r => exact hr

theorem Blanks.atGap {b : Text} (hb : Blanks b) : AtGap b := by
  simpa using hb.atGap_append atGap_nil

/-- A run is over where the text is, or where a character is not in it. -/
theorem span_append {p : Char → Bool} {w r : Text} (hw : ∀ c ∈ w, p c = true)
    (hr : ∀ c ∈ r.head?, p c = false) : (w ++ r).span p = (w, r) := by
  rw [List.span_eq_takeWhile_dropWhile, List.takeWhile_append_of_pos hw,
    List.dropWhile_append_of_pos hw]
  cases r with
  | nil => simp
  | cons c r => simp [hr c rfl]

theorem Inked.span {w r : Text} (hw : Inked w) (hr : AtGap r) :
    (w ++ r).span isInk = (w, r) := by
  refine span_append (fun c hc => by simp [isInk, hw c hc]) ?_
  cases r with
  | nil => simp
  | cons c r => simpa [isInk] using hr

/-! ## 2. Trimming -/

theorem trimStart_append {b t : Text} (hb : Blanks b) : trimStart (b ++ t) = trimStart t :=
  List.dropWhile_append_of_pos hb

theorem trimStart_of_inked {c : Char} {t : Text} (h : isBlank c = false) :
    trimStart (c :: t) = c :: t := by
  simp [trimStart, h]

/-- In front of a word nothing is left to trim. -/
theorem trimStart_inked_append {w : Text} (hw : Inked w) (hne : w ≠ []) (r : Text) :
    trimStart (w ++ r) = w ++ r := by
  obtain ⟨c, w, rfl⟩ := List.exists_cons_of_ne_nil hne
  exact trimStart_of_inked (inked_cons.mp hw).1

theorem trimStart_of_blanks {b : Text} (hb : Blanks b) : trimStart b = [] := by
  rw [← List.append_nil b, trimStart_append hb]
  rfl

/-- Behind a character of a word nothing is trimmed. -/
theorem trimStart_append_of_mem {t : Text} {c : Char} (hm : c ∈ t) (hc : isBlank c = false)
    (u : Text) : trimStart (t ++ u) = trimStart t ++ u := by
  induction t with
  | nil => cases hm
  | cons d t ih =>
    unfold trimStart at ih ⊢
    rw [List.cons_append, List.dropWhile_cons, List.dropWhile_cons]
    split
    · rename_i hd
      rcases List.mem_cons.mp hm with rfl | hm
      · exact absurd hd (by simp [hc])
      · exact ih hm
    · rfl

theorem exists_trimStart_append_singleton (t : Text) {c : Char} (hc : isBlank c = false) :
    ∃ s, trimStart (t ++ [c]) = s ++ [c] := by
  induction t with
  | nil => exact ⟨[], trimStart_of_inked hc⟩
  | cons d t ih =>
    unfold trimStart at ih ⊢
    rw [List.cons_append, List.dropWhile_cons]
    split
    · exact ih
    · exact ⟨d :: t, rfl⟩

theorem length_trimStart_le_cons (c : Char) (t : Text) :
    (trimStart t).length ≤ (trimStart (c :: t)).length := by
  unfold trimStart
  rw [List.dropWhile_cons]
  split
  · exact le_rfl
  · exact ((List.dropWhile_sublist isBlank).length_le).trans (Nat.le_succ _)

/-- Trimming leaves a word whole. -/
theorem length_le_trimStart_append (t : Text) {w : Text} (hw : Inked w) :
    w.length ≤ (trimStart (t ++ w)).length := by
  induction t with
  | nil =>
    cases w with
    | nil => exact Nat.zero_le _
    | cons c w => rw [List.nil_append, trimStart_of_inked (inked_cons.mp hw).1]
  | cons c t ih => exact ih.trans (length_trimStart_le_cons c (t ++ w))

/-- A text is its leading blanks followed by its trimmed part. -/
theorem takeWhile_append_trimStart (t : Text) : t.takeWhile isBlank ++ trimStart t = t :=
  List.takeWhile_append_dropWhile

theorem blanks_takeWhile (t : Text) : Blanks (t.takeWhile isBlank) := by
  induction t with
  | nil => exact blanks_nil
  | cons c t ih =>
    rw [List.takeWhile_cons]
    split
    · exact blanks_cons.mpr ⟨‹_›, ih⟩
    · exact blanks_nil

theorem takeWhile_blanks_append {b : Text} (hb : Blanks b) {c : Char} (hc : isBlank c = false)
    (t : Text) : (b ++ c :: t).takeWhile isBlank = b := by
  rw [List.takeWhile_append_of_pos hb, List.takeWhile_cons_of_neg (by simp [hc]), List.append_nil]

/-- Blanks in front of a trimmed text are the blanks in front of both. -/
theorem Blanks.span_append {b r : Text} (hb : Blanks b) (hr : trimStart r = r) :
    (b ++ r).span isBlank = (b, r) := by
  have hnil : r.takeWhile isBlank = [] := by
    have h := takeWhile_append_trimStart r
    rw [hr] at h
    exact List.append_left_eq_self.mp h
  have hrest : r.dropWhile isBlank = r := hr
  rw [List.span_eq_takeWhile_dropWhile, List.takeWhile_append_of_pos hb, hnil, List.append_nil,
    List.dropWhile_append_of_pos hb, hrest]

theorem trimStart_trimStart (t : Text) : trimStart (trimStart t) = trimStart t := by
  have h := trimStart_append (t := trimStart t) (blanks_takeWhile t)
  rw [takeWhile_append_trimStart] at h
  exact h.symm

theorem blanks_trailingBlanks (t : Text) : Blanks (trailingBlanks t) := by
  intro c hc
  exact blanks_takeWhile t.reverse c (List.mem_reverse.mp hc)

theorem trimEnd_append_blanks {t b : Text} (hb : Blanks b) : trimEnd (t ++ b) = trimEnd t := by
  have hr : Blanks b.reverse := by
    intro c hc
    exact hb c (List.mem_reverse.mp hc)
  simp only [trimEnd, List.reverse_append]
  rw [List.dropWhile_append_of_pos hr]

theorem trimEnd_append_inked {t w : Text} (hw : Inked w) (hne : w ≠ []) :
    trimEnd (t ++ w) = t ++ w := by
  obtain ⟨c, r, hr⟩ := List.exists_cons_of_ne_nil (List.reverse_ne_nil_iff.mpr hne)
  have hc : isBlank c = false := hw c (List.mem_reverse.mp (hr ▸ List.mem_cons_self))
  simp only [trimEnd, List.reverse_append, hr, List.cons_append]
  rw [List.dropWhile_cons_of_neg (by simp [hc]), ← List.cons_append, ← hr]
  simp

/-- A text that is trimmed and not empty ends in a character of a word. -/
theorem trimEnd_eq_nil_or (t : Text) :
    trimEnd t = [] ∨ ∃ s c, trimEnd t = s ++ [c] ∧ isBlank c = false := by
  unfold trimEnd
  cases h : t.reverse.dropWhile isBlank with
  | nil => exact Or.inl rfl
  | cons c r =>
    refine Or.inr ⟨r.reverse, c, by simp, ?_⟩
    have hd := List.head?_dropWhile_not isBlank t.reverse
    rw [h] at hd
    simpa using hd

theorem trimEnd_trimEnd (t : Text) : trimEnd (trimEnd t) = trimEnd t := by
  rcases trimEnd_eq_nil_or t with h | ⟨s, c, h, hc⟩
  · rw [h]; rfl
  · rw [h]
    exact trimEnd_append_inked (inked_cons.mpr ⟨hc, inked_nil⟩) (by simp)

/-- A character of a word is not trimmed away, nor is anything in front of it. -/
theorem trimEnd_append_cons {t r : Text} {c : Char} (hc : isBlank c = false) :
    trimEnd (t ++ c :: r) = t ++ c :: trimEnd r := by
  rcases trimEnd_eq_nil_or r with h | ⟨s, d, h, hd⟩
  · have hr : Blanks r := by
      rw [← trimEnd_append_trailingBlanks r, h]
      exact blanks_trailingBlanks r
    rw [h, show t ++ c :: r = (t ++ [c]) ++ r by simp, trimEnd_append_blanks hr]
    exact trimEnd_append_inked (inked_cons.mpr ⟨hc, inked_nil⟩) (by simp)
  · have hr : r = s ++ [d] ++ trailingBlanks r := by
      rw [← h, trimEnd_append_trailingBlanks]
    rw [h, hr, show t ++ c :: (s ++ [d] ++ trailingBlanks r)
        = (t ++ c :: (s ++ [d])) ++ trailingBlanks r by simp,
      trimEnd_append_blanks (blanks_trailingBlanks r),
      show t ++ c :: (s ++ [d]) = (t ++ c :: s) ++ [d] by simp]
    exact trimEnd_append_inked (inked_cons.mpr ⟨hd, inked_nil⟩) (by simp)

theorem trim_trim (t : Text) : trim (trim t) = trim t := by
  unfold trim
  cases h : trimStart t with
  | nil => rfl
  | cons c r =>
    have hc : isBlank c = false := by
      have hd := List.head?_dropWhile_not isBlank t
      rw [← trimStart, h] at hd
      simpa using hd
    have hkept := trimEnd_append_cons (t := []) (r := r) hc
    rw [List.nil_append, List.nil_append] at hkept
    rw [hkept, trimStart_of_inked hc, ← hkept, trimEnd_trimEnd]

/-- A word is not trimmed away, nor is anything in front of it. -/
theorem trimEnd_append_word (t : Text) {w : Text} (hw : Inked w) (hne : w ≠ []) (r : Text) :
    trimEnd (t ++ (w ++ r)) = t ++ (w ++ trimEnd r) := by
  rcases List.eq_nil_or_concat w with h | ⟨s, c, rfl⟩
  · exact absurd h hne
  · rw [List.concat_eq_append] at hw ⊢
    have hc : isBlank c = false := (inked_cons.mp (inked_append.mp hw).2).1
    have e : ∀ u : Text, t ++ (s ++ [c] ++ u) = (t ++ s) ++ c :: u := by
      intro u
      simp
    rw [e, e, trimEnd_append_cons hc]

theorem AtGap.trimEnd {t : Text} (h : AtGap t) : AtGap (trimEnd t) := by
  cases t with
  | nil => exact trivial
  | cons c t =>
    rcases trimEnd_eq_nil_or (c :: t) with e | ⟨s, d, e, hd⟩
    · rw [e]; exact trivial
    · have hp := trimEnd_append_trailingBlanks (c :: t)
      cases s with
      | nil =>
        rw [e] at hp
        rw [List.nil_append, List.singleton_append] at hp
        rw [(List.cons.inj hp).1, atGap_cons.mp h] at hd
        cases hd
      | cons x s =>
        rw [e] at hp ⊢
        rw [List.cons_append, List.cons_append] at hp
        rw [List.cons_append, (List.cons.inj hp).1]
        exact h

theorem trailingBlanks_append {t b : Text} {c : Char} (hc : isBlank c = false) (hb : Blanks b) :
    trailingBlanks (t ++ c :: b) = b := by
  have hr : ∀ d ∈ b.reverse, isBlank d = true := by
    intro d hd
    exact hb d (List.mem_reverse.mp hd)
  simp only [trailingBlanks, List.reverse_append, List.reverse_cons, List.append_assoc]
  rw [List.takeWhile_append_of_pos hr]
  simp [hc]

/-- The trailing blanks of a text are those behind its last word. -/
theorem trailingBlanks_append_word (t : Text) {w b : Text} (hw : Inked w) (hne : w ≠ [])
    (hb : Blanks b) : trailingBlanks (t ++ (w ++ b)) = b := by
  rcases List.eq_nil_or_concat w with h | ⟨s, c, rfl⟩
  · exact absurd h hne
  · rw [List.concat_eq_append] at hw ⊢
    have hc : isBlank c = false := (inked_cons.mp (inked_append.mp hw).2).1
    rw [show t ++ (s ++ [c] ++ b) = (t ++ s) ++ c :: b by simp]
    exact trailingBlanks_append hc hb

/-! ## 3. Words -/

theorem runs_cons_cons {p : Char → Bool} {c d : Char} {t : Text} (hc : p c = true) :
    runs p (c :: d :: t) =
      if p d then
        match runs p (d :: t) with
        | w :: ws => (c :: w) :: ws
        | [] => [[c]]
      else [c] :: runs p (d :: t) :=
  if_pos hc

/-- A text that starts inside a run has one. -/
theorem exists_runs_cons {p : Char → Bool} {c : Char} {t : Text} (hc : p c = true) :
    ∃ w ws, runs p (c :: t) = w :: ws := by
  cases t with
  | nil => exact ⟨[c], [], by simp [runs, hc]⟩
  | cons d t =>
    rw [runs_cons_cons hc]
    split
    · split <;> exact ⟨_, _, rfl⟩
    · exact ⟨_, _, rfl⟩

/-- A character that is in no run cuts the runs of a text in two. -/
theorem runs_append_cons {p : Char → Bool} {c : Char} (hc : p c = false) (x y : Text) :
    runs p (x ++ c :: y) = runs p x ++ runs p y := by
  induction x with
  | nil => simp [runs, hc]
  | cons d x ih =>
    rw [List.cons_append]
    cases hd : p d with
    | false => simp only [runs, hd, Bool.false_eq_true, if_false, ih]
    | true =>
      cases x with
      | nil => simp [runs, hd, hc]
      | cons e x =>
        rw [List.cons_append] at ih ⊢
        rw [runs_cons_cons hd, runs_cons_cons hd, ih]
        cases he : p e with
        | false => simp
        | true =>
          obtain ⟨w, ws, hw⟩ := exists_runs_cons (t := x) he
          simp [hw]

/-- **A blank cuts the words of a text in two.** -/
theorem words_append_blank {c : Char} (hc : isBlank c = true) (x y : Text) :
    words (x ++ c :: y) = words x ++ words y :=
  runs_append_cons (by simp [isInk, hc]) x y

@[simp] theorem words_nil : words [] = [] := rfl

theorem words_cons_blank {c : Char} (hc : isBlank c = true) (t : Text) :
    words (c :: t) = words t := by
  simpa using words_append_blank hc [] t

theorem words_of_blanks {b : Text} (hb : Blanks b) : words b = [] := by
  induction b with
  | nil => rfl
  | cons c b ih =>
    obtain ⟨hc, hb⟩ := blanks_cons.mp hb
    rw [words_cons_blank hc, ih hb]

theorem words_of_inked {w : Text} (hw : Inked w) (hne : w ≠ []) : words w = [w] := by
  induction w with
  | nil => exact absurd rfl hne
  | cons c w ih =>
    obtain ⟨hc, hw⟩ := inked_cons.mp hw
    cases w with
    | nil => simp [words, runs, isInk, hc]
    | cons d w =>
      have hd := (inked_cons.mp hw).1
      have ih := ih hw (by simp)
      unfold words at ih ⊢
      rw [runs_cons_cons (by simp [isInk, hc]), ih]
      simp [isInk, hd]

/-- Words before a place where a word cannot go on, and words after it. -/
theorem words_append_of_atGap {x y : Text} (hy : AtGap y) :
    words (x ++ y) = words x ++ words y := by
  cases y with
  | nil => simp
  | cons c y => rw [words_append_blank hy, words_cons_blank hy]

theorem words_append_blanks {x b : Text} (hb : Blanks b) : words (x ++ b) = words x := by
  rw [words_append_of_atGap hb.atGap, words_of_blanks hb, List.append_nil]

theorem words_blanks_append {b t : Text} (hb : Blanks b) : words (b ++ t) = words t := by
  induction b with
  | nil => rfl
  | cons c b ih =>
    obtain ⟨hc, hb⟩ := blanks_cons.mp hb
    rw [List.cons_append, words_cons_blank hc, ih hb]

/-- A word at the start of a text is the first of its words. -/
theorem words_inked_append {w r : Text} (hw : Inked w) (hne : w ≠ []) (hr : AtGap r) :
    words (w ++ r) = w :: words r := by
  rw [words_append_of_atGap hr, words_of_inked hw hne, List.singleton_append]

/-! ## 4. The first word and the last -/

theorem nextWord_append {b w r : Text} (hb : Blanks b) (hw : Inked w) (hne : w ≠ [])
    (hr : AtGap r) : nextWord (b ++ (w ++ r)) = (w, r) := by
  rw [nextWord, trimStart_append hb, trimStart_inked_append hw hne]
  exact hw.span hr

theorem nextWord_of_blanks {b : Text} (hb : Blanks b) : nextWord b = ([], []) := by
  rw [nextWord, trimStart_of_blanks hb]
  rfl

/-- A text is blank, or blanks with a word behind them, after which the word cannot go on. -/
theorem blanks_or_word (t : Text) :
    Blanks t ∨ ∃ b w r, t = b ++ (w ++ r) ∧ Blanks b ∧ Inked w ∧ w ≠ [] ∧ AtGap r := by
  have ht := takeWhile_append_trimStart t
  cases h : trimStart t with
  | nil =>
    rw [h, List.append_nil] at ht
    exact Or.inl (ht ▸ blanks_takeWhile t)
  | cons c s =>
    have hc : isBlank c = false := by
      have hd := List.head?_dropWhile_not isBlank t
      rw [show t.dropWhile isBlank = c :: s from h] at hd
      simpa using hd
    refine Or.inr ⟨t.takeWhile isBlank, (c :: s).takeWhile isInk, (c :: s).dropWhile isInk, ?_,
      blanks_takeWhile t, ?_, ?_, ?_⟩
    · rw [List.takeWhile_append_dropWhile, ← h, ht]
    · intro d hd
      simpa [isInk] using List.mem_takeWhile_imp hd
    · simp [isInk, hc]
    · cases hr : (c :: s).dropWhile isInk with
      | nil => exact trivial
      | cons d r =>
        have hd := List.head?_dropWhile_not isInk (c :: s)
        rw [hr] at hd
        simpa [isInk] using hd

/-- A text is a gap, its first word and the rest, where the word cannot go on. -/
theorem exists_gap_nextWord (t : Text) :
    ∃ gap, Blanks gap ∧ t = gap ++ ((nextWord t).1 ++ (nextWord t).2) ∧ Inked (nextWord t).1 ∧
      AtGap (nextWord t).2 := by
  rcases blanks_or_word t with hb | ⟨b, w, r, rfl, hb, hw, hne, hr⟩
  · rw [nextWord_of_blanks hb]
    exact ⟨t, hb, by simp, inked_nil, atGap_nil⟩
  · rw [nextWord_append hb hw hne hr]
    exact ⟨b, hb, rfl, hw, hr⟩

/-- A text with a first word. -/
theorem words_eq_cons_iff {t w : Text} {ws : List Text} :
    words t = w :: ws ↔
      ∃ b r, t = b ++ (w ++ r) ∧ Blanks b ∧ Inked w ∧ w ≠ [] ∧ AtGap r ∧ words r = ws := by
  constructor
  · intro h
    rcases blanks_or_word t with hb | ⟨b, v, r, rfl, hb, hv, hne, hr⟩
    · rw [words_of_blanks hb] at h
      cases h
    · rw [words_blanks_append hb, words_inked_append hv hne hr] at h
      obtain ⟨rfl, hws⟩ := List.cons.inj h
      exact ⟨b, r, rfl, hb, hv, hne, hr, hws⟩
  · rintro ⟨b, r, rfl, hb, hw, hne, hr, rfl⟩
    rw [words_blanks_append hb, words_inked_append hw hne hr]

theorem words_eq_nil_iff {t : Text} : words t = [] ↔ Blanks t := by
  constructor
  · intro h
    rcases blanks_or_word t with hb | ⟨b, w, r, rfl, hb, hw, hne, hr⟩
    · exact hb
    · rw [words_blanks_append hb, words_inked_append hw hne hr] at h
      cases h
  · exact words_of_blanks

theorem lastWord_append {u w b : Text} (hu : AtGap u.reverse) (hw : Inked w) (hne : w ≠ [])
    (hb : Blanks b) : lastWord (u ++ w ++ b) = (w, u) := by
  have hbr : Blanks b.reverse := by
    intro c hc
    exact hb c (List.mem_reverse.mp hc)
  have hwr : Inked w.reverse := by
    intro c hc
    exact hw c (List.mem_reverse.mp hc)
  have hspan := hwr.span hu
  rw [List.span_eq_takeWhile_dropWhile] at hspan
  obtain ⟨h1, h2⟩ := Prod.mk.inj hspan
  have hd : (u ++ w ++ b).reverse.dropWhile isBlank = w.reverse ++ u.reverse := by
    rw [List.reverse_append, List.dropWhile_append_of_pos hbr, List.reverse_append]
    obtain ⟨c, r, hr⟩ := List.exists_cons_of_ne_nil (List.reverse_ne_nil_iff.mpr hne)
    have hc : isBlank c = false := hwr c (hr ▸ List.mem_cons_self)
    rw [hr, List.cons_append, List.dropWhile_cons_of_neg (by simp [hc])]
  simp only [lastWord, hd, h1, h2, List.reverse_reverse]

/-- A text is what is before its last word, that word and blanks. -/
theorem lastWord_parts (t : Text) :
    t = (lastWord t).2 ++ (lastWord t).1 ++ trailingBlanks t ∧ Inked (lastWord t).1 ∧
      AtGap (lastWord t).2.reverse := by
  have ht : trimEnd t = (lastWord t).2 ++ (lastWord t).1 := by
    simp only [lastWord, trimEnd]
    rw [← List.reverse_append, List.takeWhile_append_dropWhile]
  refine ⟨by rw [← ht, trimEnd_append_trailingBlanks], ?_, ?_⟩
  · intro c hc
    have := List.mem_takeWhile_imp (List.mem_reverse.mp hc)
    simpa [isInk] using this
  · simp only [lastWord, List.reverse_reverse]
    cases hr : (t.reverse.dropWhile isBlank).dropWhile isInk with
    | nil => exact trivial
    | cons c r =>
      have hc := List.head?_dropWhile_not isInk (t.reverse.dropWhile isBlank)
      rw [hr] at hc
      simpa [isInk] using hc

/-! ## 5. Joined texts -/

theorem join_cons (t : Text) (r : List Text) :
    join [' '] (t :: r) = t ++ r.flatMap fun u => ' ' :: u := by
  induction r generalizing t with
  | nil => simp [join]
  | cons u r ih =>
    rw [join, ih]
    simp

/-- The words of texts with a space in front of each are these texts, if each of them is a word. -/
theorem words_flatMap_space {r : List Text} (h : ∀ u ∈ r, Inked u ∧ u ≠ []) :
    words (r.flatMap fun u => ' ' :: u) = r := by
  induction r with
  | nil => rfl
  | cons u r ih =>
    have hu := h u List.mem_cons_self
    have hgap : AtGap (r.flatMap fun u => ' ' :: u) := by
      cases r with
      | nil => exact trivial
      | cons v r => exact isBlank_space
    rw [List.flatMap_cons, List.cons_append, words_cons_blank isBlank_space,
      words_inked_append hu.1 hu.2 hgap, ih fun v hv => h v (List.mem_cons_of_mem _ hv)]

/-! ## 6. Pieces -/

theorem occurs_iff {piece t : Text} : occurs piece t = true ↔ piece <:+: t := by
  unfold occurs
  induction t with
  | nil => cases piece <;> simp [indexOf?]
  | cons c t ih =>
    rw [indexOf?, List.infix_cons_iff, ← List.isPrefixOf_iff_prefix]
    split
    · rename_i h
      simp [h]
    · rename_i h
      simp [h, ih]

end ModelScale.Text
