import ModelScale.Proofs.Qc.Eyeball

/-
# Lines that read alike

When an eyeball is written back, gaps shrink, numbers give way to other numbers and blanks at the
end go.  A reader that tries one way after another must not be led to another way by that.  Main
statements:

* `Alike`: the words of one text stand in the other, with numbers in the places of numbers;
* `Spaced.alike`: a line and what is written of it are such texts, also where a field holds blanks;
* `Alike.takeNumber?`, `Alike.quotedName?`, `Alike.plainName?`: a number or a name that starts the
  one starts the other, and what follows is alike again.

A name in quotation marks can run over gaps and numbers, so it need not be the same name in both
texts.  What counts is that there is one, and where it ends.  The one thing that is lost is a name
in front of nothing but blanks, since these are trimmed (`Blanks s'` below); no field follows it.
-/

namespace ModelScale

open Text Numeral

/-! ## 1. Words in order -/

theorem Spaced.Swapped.inked {w w' : Text} (h : Spaced.Swapped w w') (hw : Inked w) : Inked w' := by
  rcases h with rfl | ⟨-, h⟩
  · exact hw
  · exact inked_of_isNumeral h

theorem Spaced.Swapped.ne_nil {w w' : Text} (h : Spaced.Swapped w w') (hne : w ≠ []) : w' ≠ [] := by
  rcases h with rfl | ⟨-, h⟩
  · exact hne
  · exact ne_nil_of_isNumeral h

theorem Spaced.Swapped.isNumeral_eq {w w' : Text} (h : Spaced.Swapped w w') :
    isNumeral w' = isNumeral w := by
  rcases h with rfl | ⟨h, h'⟩
  · rfl
  · rw [h, h']

/-- Texts with the same words in the same order, or other numbers where numbers are, whatever blanks
are around them. -/
inductive Alike : Text → Text → Prop
  | blanks {b b' : Text} (hb : Blanks b) (hb' : Blanks b') : Alike b b'
  | word {b b' w w' r r' : Text} (hb : Blanks b) (hb' : Blanks b') (hw : Inked w) (hne : w ≠ [])
      (hs : Spaced.Swapped w w') (hr : AtGap r) (hr' : AtGap r') (h : Alike r r') :
      Alike (b ++ (w ++ r)) (b' ++ (w' ++ r'))

namespace Alike

variable {t t' : Text}

theorem blanks_append (h : Alike t t') {b b' : Text} (hb : Blanks b) (hb' : Blanks b') :
    Alike (b ++ t) (b' ++ t') := by
  cases h with
  | blanks hc hc' =>
    exact .blanks (Text.blanks_append.mpr ⟨hb, hc⟩) (Text.blanks_append.mpr ⟨hb', hc'⟩)
  | word hc hc' hw hne hs hr hr' h =>
    rw [← List.append_assoc b, ← List.append_assoc b']
    exact .word (Text.blanks_append.mpr ⟨hb, hc⟩) (Text.blanks_append.mpr ⟨hb', hc'⟩) hw hne hs hr
      hr' h

/-- Texts at a gap may both follow the same text. -/
theorem append_left (u : Text) {r r' : Text} (hr : AtGap r) (hr' : AtGap r') (h : Alike r r') :
    Alike (u ++ r) (u ++ r') := by
  obtain ⟨n, hn⟩ : ∃ n, u.length = n := ⟨_, rfl⟩
  induction n using Nat.strong_induction_on generalizing u with
  | _ n ih =>
    rcases blanks_or_word u with hb | ⟨b, w, s, rfl, hb, hw, hne, hs⟩
    · exact h.blanks_append hb hb
    · have hlen : s.length < n := by
        have := List.length_pos_of_ne_nil hne
        simp only [List.length_append] at hn
        omega
      have he : ∀ v : Text, b ++ (w ++ s) ++ v = b ++ (w ++ (s ++ v)) := by
        intro v
        simp only [List.append_assoc]
      rw [he, he]
      exact .word hb hb hw hne (Or.inl rfl) (hs.append hr) (hs.append hr') (ih _ hlen s rfl)

theorem refl (t : Text) : Alike t t := by
  have h := append_left t atGap_nil atGap_nil (.blanks blanks_nil blanks_nil)
  rwa [List.append_nil] at h

/-- Blanks at the end of a text do not matter. -/
theorem append_blanks (h : Alike t t') {b : Text} (hb : Blanks b) : Alike (t ++ b) t' := by
  induction h with
  | blanks hc hc' => exact .blanks (Text.blanks_append.mpr ⟨hc, hb⟩) hc'
  | word hc hc' hw hne hs hr hr' _ ih =>
    rw [List.append_assoc, List.append_assoc]
    exact .word hc hc' hw hne hs (hr.append hb.atGap) hr' ih

theorem trimEnd (t : Text) : Alike t (trimEnd t) := by
  have h := (refl (Text.trimEnd t)).append_blanks (blanks_trailingBlanks t)
  rwa [trimEnd_append_trailingBlanks] at h

theorem blanks_right (h : Alike t t') (ht : Blanks t) : Blanks t' := by
  cases h with
  | blanks _ hb' => exact hb'
  | word hb hb' hw hne hs hr hr' h =>
    obtain ⟨c, w, rfl⟩ := List.exists_cons_of_ne_nil hne
    have hc := (inked_cons.mp hw).1
    rw [ht c (by simp)] at hc
    cases hc

end Alike

/-- **A line and what is written of it are alike**: the same fields in order, or other numbers where
numbers are. -/
theorem Spaced.alike {ws ws' : List Text} {trail trail' t t' : Text} (h : Spaced ws trail t)
    (h' : Spaced ws' trail' t') (hw : List.Forall₂ Swapped ws ws') (ht : Alike trail trail') :
    Alike t t' := by
  induction hw generalizing t t' with
  | nil =>
    cases h
    cases h'
    exact ht
  | @cons w w' ws ws' hww _ ih =>
    cases h with
    | @cons b _ r _ _ hb hne h =>
      cases h' with
      | @cons b' _ r' _ _ hb' hne' h' =>
        rcases hww with rfl | ⟨hn, hn'⟩
        · exact (Alike.append_left _ h.atGap h'.atGap (ih h h')).blanks_append hb hb'
        · exact .word hb hb' (inked_of_isNumeral hn) (ne_nil_of_isNumeral hn) (Or.inr ⟨hn, hn'⟩)
            h.atGap h'.atGap (ih h h')

/-! ## 2. Numbers -/

theorem takeNumber?_blanks_append {b : Text} (hb : Blanks b) (t : Text) :
    takeNumber? (b ++ t) = takeNumber? t := by
  unfold takeNumber? nextWord
  rw [trimStart_append hb]

theorem takeNumber?_of_blanks {b : Text} (hb : Blanks b) : takeNumber? b = none := by
  rw [takeNumber?, nextWord_of_blanks hb]
  rfl

theorem takeNumber?_word {b w r : Text} (hb : Blanks b) (hw : Inked w) (hne : w ≠ [])
    (hr : AtGap r) :
    takeNumber? (b ++ (w ++ r)) = if isNumeral w then some (w, r) else none := by
  rw [takeNumber?, nextWord_append hb hw hne hr]

/-- **A number that starts one text starts the other.** -/
theorem Alike.takeNumber? {t t' w' r' : Text} (h : Alike t t')
    (hn : ModelScale.takeNumber? t' = some (w', r')) :
    ∃ w r, ModelScale.takeNumber? t = some (w, r) ∧ Alike r r' := by
  cases h with
  | blanks hb hb' =>
    rw [takeNumber?_of_blanks hb'] at hn
    cases hn
  | word hb hb' hw hne hs hr hr' h =>
    rw [takeNumber?_word hb' (hs.inked hw) (hs.ne_nil hne) hr', hs.isNumeral_eq] at hn
    rw [takeNumber?_word hb hw hne hr]
    split at hn
    · rename_i hnum
      obtain ⟨-, rfl⟩ := Prod.mk.inj (Option.some.inj hn)
      exact ⟨_, _, if_pos hnum, h⟩
    · cases hn

theorem Alike.isSome_takeNumber? {t t' : Text} (h : Alike t t') :
    (ModelScale.takeNumber? t').isSome = (ModelScale.takeNumber? t).isSome := by
  cases h with
  | blanks hb hb' => rw [takeNumber?_of_blanks hb, takeNumber?_of_blanks hb']
  | word hb hb' hw hne hs hr hr' h =>
    rw [takeNumber?_word hb' (hs.inked hw) (hs.ne_nil hne) hr', hs.isNumeral_eq,
      takeNumber?_word hb hw hne hr]
    split <;> rfl

/-! ## 3. Names -/

/-- A name in quotation marks at the start of a text. -/
def quotedName? (t : Text) : Option (Text × Text) :=
  (takeQuoted? (trimStart t)).filter fun p => startsBlank p.2

/-- A word that is a name at the start of a text. -/
def plainName? (t : Text) : Option (Text × Text) :=
  if (nextWord t).1.isEmpty || startsNumeric (nextWord t).1 then none
  else (some (nextWord t)).filter fun p => startsBlank p.2

theorem names_eq (t : Text) : names t = (quotedName? t).toList ++ (plainName? t).toList := by
  have hfilter : ∀ o : Option (Text × Text), o.toList.filter (fun p => startsBlank p.2) =
      (o.filter fun p => startsBlank p.2).toList := by
    intro o
    cases o with
    | none => rfl
    | some p => cases h : startsBlank p.2 <;> simp [Option.filter, h]
  unfold names quotedName? plainName?
  dsimp only
  rw [List.filter_append, hfilter, show (trimStart t).span isInk = nextWord t from rfl]
  congr 1
  split
  · rfl
  · exact hfilter (some (nextWord t))

/-- **Quotations are tried before words.** -/
theorem findSome?_names {α : Type} (f : Text × Text → Option α) (t : Text) :
    (names t).findSome? f = ((quotedName? t).bind f).or ((plainName? t).bind f) := by
  have hlist : ∀ o : Option (Text × Text), o.toList.findSome? f = o.bind f := by
    intro o
    cases o with
    | none => rfl
    | some p => cases h : f p <;> simp [h]
  rw [names_eq, List.findSome?_append, hlist, hlist]

theorem splitFirst?_eq_some_iff {d : Char} {t a b : Text} :
    splitFirst? d t = some (a, b) ↔ t = a ++ d :: b ∧ d ∉ a := by
  induction t generalizing a with
  | nil => simp [splitFirst?]
  | cons c t ih =>
    rw [splitFirst?]
    split
    · rename_i hc
      subst hc
      constructor
      · intro h
        obtain ⟨rfl, rfl⟩ := Prod.mk.inj (Option.some.inj h)
        exact ⟨rfl, by simp⟩
      · rintro ⟨h, hm⟩
        cases a with
        | nil => rw [(List.cons.inj h).2]
        | cons x a =>
          rw [(List.cons.inj h).1] at hm
          exact absurd List.mem_cons_self hm
    · rename_i hc
      constructor
      · intro h
        obtain ⟨⟨x, y⟩, hx, he⟩ := Option.map_eq_some_iff.mp h
        obtain ⟨rfl, rfl⟩ := Prod.mk.inj he
        obtain ⟨rfl, hm⟩ := ih.mp hx
        exact ⟨rfl, by simp [hm, Ne.symm hc]⟩
      · rintro ⟨h, hm⟩
        cases a with
        | nil => exact absurd (List.cons.inj h).1 hc
        | cons x a =>
          obtain ⟨rfl, rfl⟩ := List.cons.inj h
          rw [ih.mpr ⟨rfl, fun hd => hm (List.mem_cons_of_mem _ hd)⟩]
          rfl

/-- A character is not found in a text that does not hold it, but behind it. -/
theorem splitFirst?_append_iff {d : Char} {v : Text} (hv : d ∉ v) {r a b : Text} :
    splitFirst? d (v ++ r) = some (a, b) ↔ ∃ a₁, a = v ++ a₁ ∧ splitFirst? d r = some (a₁, b) := by
  have hmap : splitFirst? d (v ++ r) = (splitFirst? d r).map fun p => (v ++ p.1, p.2) := by
    induction v with
    | nil => exact Option.map_id'.symm
    | cons c v ih =>
      rw [List.mem_cons, not_or] at hv
      rw [List.cons_append, splitFirst?, if_neg (Ne.symm hv.1), ih hv.2, Option.map_map]
      rfl
  rw [hmap, Option.map_eq_some_iff]
  constructor
  · rintro ⟨⟨a₁, b₁⟩, hs, he⟩
    obtain ⟨rfl, rfl⟩ := Prod.mk.inj he
    exact ⟨a₁, rfl, hs⟩
  · rintro ⟨a₁, rfl, hs⟩
    exact ⟨(a₁, b), hs, rfl⟩

theorem quotedName?_eq_some_iff {t w r : Text} :
    quotedName? t = some (w, r) ↔
      ∃ inside, w = '"' :: inside ++ ['"'] ∧ '"' ∉ inside ∧ trimStart t = w ++ r ∧
        startsBlank r = true := by
  unfold quotedName?
  rw [Option.filter_eq_some_iff]
  constructor
  · rintro ⟨hq, hb⟩
    unfold takeQuoted? at hq
    split at hq
    · rename_i u hu
      obtain ⟨⟨inside, r⟩, hs, he⟩ := Option.map_eq_some_iff.mp hq
      obtain ⟨rfl, rfl⟩ := Prod.mk.inj he
      obtain ⟨rfl, hm⟩ := splitFirst?_eq_some_iff.mp hs
      exact ⟨inside, rfl, hm, by rw [hu]; simp, hb⟩
    · cases hq
  · rintro ⟨inside, rfl, hm, ht, hb⟩
    refine ⟨?_, hb⟩
    rw [ht, List.cons_append, List.cons_append, List.append_assoc, List.singleton_append,
      takeQuoted?, splitFirst?_eq_some_iff.mpr ⟨rfl, hm⟩]
    rfl

/-- A number holds no quotation mark. -/
theorem not_mem_quote_of_isNumeral {w : Text} (h : isNumeral w = true) : '"' ∉ w := fun hm =>
  (numeralChars_of_isNumeral h _ hm).ne (by decide) (by decide) rfl

theorem plainName?_of_blanks {b : Text} (hb : Blanks b) : plainName? b = none := by
  rw [plainName?, nextWord_of_blanks hb]
  rfl

theorem plainName?_word {b w r : Text} (hb : Blanks b) (hw : Inked w) (hne : w ≠ [])
    (hr : AtGap r) :
    plainName? (b ++ (w ++ r)) =
      if startsNumeric w = false ∧ startsBlank r = true then some (w, r) else none := by
  have he : w.isEmpty = false := by simpa using hne
  rw [plainName?, nextWord_append hb hw hne hr, he, Bool.false_or]
  cases startsNumeric w <;> cases h : startsBlank r <;> simp [h]

theorem mem_names_of_quotedName? {t : Text} {p : Text × Text} (h : quotedName? t = some p) :
    p ∈ names t := by
  simp [names_eq, h]

theorem mem_names_of_plainName? {t : Text} {p : Text × Text} (h : plainName? t = some p) :
    p ∈ names t := by
  simp [names_eq, h]

/-- No name is a number. -/
theorem isNumeral_of_mem_names {t w r : Text} (h : (w, r) ∈ names t) : isNumeral w = false := by
  rw [← Bool.not_eq_true]
  intro hn
  obtain ⟨ht, hb, hw⟩ := mem_names h
  have hfirst := nextWord_append blanks_nil (inked_of_isNumeral hn) (ne_nil_of_isNumeral hn)
    (atGap_of_startsBlank hb)
  rw [List.nil_append, ← ht] at hfirst
  have hnil : names t = [] := by
    refine names_eq_nil ?_
    rw [nextWord, ← trimStart_trimStart, ← nextWord, hfirst]
    exact hn
  rw [hnil] at h
  cases h

/-- A text at a gap starts with a blank, or there is nothing left. -/
theorem startsBlank_or_of_atGap {r : Text} (hr : AtGap r) : startsBlank r = true ∨ r = [] := by
  cases r with
  | nil => exact Or.inr rfl
  | cons c r => exact Or.inl hr

namespace Alike

variable {t t' : Text}

/-- A quotation that ends in a word and in front of a blank ends with the word. -/
theorem splitFirst?_of_mem {r r' : Text} (h : Alike r r') (hr : AtGap r) {v : Text} (hv : Inked v)
    (hm : '"' ∈ v) {a' s' : Text} (hs : Text.splitFirst? '"' (v ++ r') = some (a', s'))
    (hb : startsBlank s' = true) :
    Blanks s' ∨ ∃ a s, Text.splitFirst? '"' (v ++ r) = some (a, s) ∧ startsBlank s = true ∧
      Alike s s' := by
  obtain ⟨v₁, v₂, rfl, hv₁⟩ := List.eq_append_cons_of_mem hm
  rw [List.append_assoc, List.cons_append] at hs ⊢
  rw [splitFirst?_eq_some_iff.mpr ⟨rfl, hv₁⟩] at hs
  obtain ⟨-, rfl⟩ := Prod.mk.inj (Option.some.inj hs)
  have hnil : v₂ = [] := by
    cases v₂ with
    | nil => rfl
    | cons c v₂ =>
      have hc : isBlank c = false := hv c (by simp)
      exact absurd hb (by simp [startsBlank, hc])
  subst hnil
  rcases startsBlank_or_of_atGap hr with hblank | rfl
  · exact Or.inr ⟨v₁, r, splitFirst?_eq_some_iff.mpr ⟨rfl, hv₁⟩, hblank, h⟩
  · exact Or.inl (h.blanks_right blanks_nil)

/-- **A quotation that ends in front of a blank** in one text does so in the other.  It begins
somewhere in front, in a word of which `v` is the rest. -/
theorem splitFirst? {r r' : Text} (h : Alike r r') (hr : AtGap r) {v : Text} (hv : Inked v)
    {a' s' : Text} (hs : Text.splitFirst? '"' (v ++ r') = some (a', s'))
    (hb : startsBlank s' = true) :
    Blanks s' ∨ ∃ a s, Text.splitFirst? '"' (v ++ r) = some (a, s) ∧ startsBlank s = true ∧
      Alike s s' := by
  have hquote : isBlank '"' = false := by decide
  induction h generalizing v a' with
  | @blanks r r' hc hc' =>
    by_cases hm : '"' ∈ v
    · exact splitFirst?_of_mem (.blanks hc hc') hr hv hm hs hb
    · -- there is no quotation mark left
      exfalso
      have hnone : '"' ∉ v ++ r' := by
        rw [List.mem_append, not_or]
        exact ⟨hm, hc'.not_mem hquote⟩
      rw [(splitFirst?_eq_some_iff.mp hs).1] at hnone
      exact hnone (by simp)
  | @word b b' w w' r r' hc hc' hw hne hww hg hg' h ih =>
    by_cases hm : '"' ∈ v
    · exact splitFirst?_of_mem (.word hc hc' hw hne hww hg hg' h) hr hv hm hs hb
    · obtain ⟨a₁, -, hs₁⟩ := (splitFirst?_append_iff hm).mp hs
      obtain ⟨a₂, -, hs₂⟩ := (splitFirst?_append_iff (hc'.not_mem hquote)).mp hs₁
      -- the word is kept, or it is a number and holds no quotation mark
      have hword : Blanks s' ∨ ∃ a s, Text.splitFirst? '"' (w ++ r) = some (a, s) ∧
          startsBlank s = true ∧ Alike s s' := by
        rcases hww with rfl | ⟨hn, hn'⟩
        · exact ih hg hw hs₂
        · have hn' := not_mem_quote_of_isNumeral hn'
          obtain ⟨a₃, -, hs₃⟩ := (splitFirst?_append_iff hn').mp hs₂
          refine (ih (v := []) hg inked_nil hs₃).imp_right ?_
          rintro ⟨a, s, hs, hrest⟩
          have hn := not_mem_quote_of_isNumeral hn
          exact ⟨w ++ a, s, (splitFirst?_append_iff hn).mpr ⟨a, rfl, hs⟩, hrest⟩
      refine hword.imp_right ?_
      rintro ⟨a, s, hs, hrest⟩
      have hs := (splitFirst?_append_iff (hc.not_mem hquote)).mpr ⟨a, rfl, hs⟩
      exact ⟨v ++ (b ++ a), s, (splitFirst?_append_iff hm).mpr ⟨b ++ a, rfl, hs⟩, hrest⟩

/-- **A quotation that is a name in one text** is one in the other. -/
theorem quotedName? (h : Alike t t') {a' s' : Text}
    (hq : ModelScale.quotedName? t' = some (a', s')) :
    Blanks s' ∨ ∃ a s, ModelScale.quotedName? t = some (a, s) ∧ Alike s s' := by
  obtain ⟨inside, rfl, hm, ht, hb⟩ := quotedName?_eq_some_iff.mp hq
  cases h with
  | blanks hc hc' =>
    rw [trimStart_of_blanks hc'] at ht
    cases ht
  | @word b b' w w' r r' hc hc' hw hne hww hg hg' h =>
    obtain ⟨d, v', rfl⟩ := List.exists_cons_of_ne_nil (hww.ne_nil hne)
    have hink := inked_cons.mp (hww.inked hw)
    rw [trimStart_append hc', List.cons_append, trimStart_of_inked hink.1] at ht
    simp only [List.cons_append, List.append_assoc, List.nil_append] at ht
    obtain ⟨rfl, hrest⟩ := List.cons.inj ht
    -- the word begins with the mark, so it is no number
    obtain rfl : w = '"' :: v' := by
      rcases hww with h | ⟨-, hn⟩
      · exact h.symm
      · exact absurd List.mem_cons_self (not_mem_quote_of_isNumeral hn)
    refine (h.splitFirst? hg hink.2 (splitFirst?_eq_some_iff.mpr ⟨hrest, hm⟩) hb).imp_right ?_
    rintro ⟨a, s, hs, hbs, hsim⟩
    obtain ⟨he, hma⟩ := splitFirst?_eq_some_iff.mp hs
    refine ⟨_, s, quotedName?_eq_some_iff.mpr ⟨a, rfl, hma, ?_, hbs⟩, hsim⟩
    rw [trimStart_append hc, List.cons_append, trimStart_of_inked hink.1, he]
    simp

/-- **A word that is a name in one text** is one in the other. -/
theorem plainName? (h : Alike t t') {a' s' : Text}
    (hp : ModelScale.plainName? t' = some (a', s')) :
    Blanks s' ∨ ∃ a s, ModelScale.plainName? t = some (a, s) ∧ Alike s s' := by
  cases h with
  | blanks hb hb' =>
    rw [plainName?_of_blanks hb'] at hp
    cases hp
  | @word b b' w w' r r' hb hb' hw hne hs hr hr' h =>
    rw [plainName?_word hb' (hs.inked hw) (hs.ne_nil hne) hr'] at hp
    rw [plainName?_word hb hw hne hr]
    split at hp
    · rename_i hname
      obtain ⟨-, rfl⟩ := Prod.mk.inj (Option.some.inj hp)
      have hnumeric : startsNumeric w = false := by
        rcases hs with rfl | ⟨-, hn⟩
        · exact hname.1
        · rw [startsNumeric_of_isNumeral hn] at hname
          cases hname.1
      rcases startsBlank_or_of_atGap hr with hblank | rfl
      · exact Or.inr ⟨w, r, if_pos ⟨hnumeric, hblank⟩, h⟩
      · exact Or.inl (h.blanks_right blanks_nil)
    · cases hp

end Alike

end ModelScale
