import Mathlib.Tactic.Common
import ModelScale.Proofs.Text.Words
import ModelScale.Text.Letter

/-
# Keywords in either case

A keyword is taken from a text letter by letter, up to case.  Put without recursion: a text starts
with the keyword exactly when it starts with a word that folds to it (`takeKeyword?_eq_some`).  The
characters that are no letters stand for themselves (`eq_of_foldCase`), so a keyword is as free of
blanks in a text as it is spelled.
-/

namespace ModelScale.Text

/-- A character that is no small letter stands only for itself. -/
theorem eq_of_foldCase {c d : Char} (h : foldCase c = d) (hd : d.isLower = false) : c = d := by
  unfold foldCase at h
  split at h
  · subst h; exact absurd hd (by decide)
  · split at h
    · subst h; exact absurd hd (by decide)
    · delta Char.toLower at h
      split at h
      · rename_i hu
        subst h
        have h1 : 65 ≤ c.val.toNat := UInt32.le_iff_toNat_le.mp hu.1
        have h2 : c.val.toNat ≤ 90 := UInt32.le_iff_toNat_le.mp hu.2
        have h3 : (c.val + ('a'.val - 'A'.val)).toNat = c.val.toNat + 32 := by
          rw [UInt32.toNat_add]
          have : ('a'.val - 'A'.val).toNat = 32 := by decide
          omega
        delta Char.isLower at hd
        simp only [Bool.and_eq_false_iff, decide_eq_false_iff_not, ge_iff_le,
          UInt32.le_iff_toNat_le, h3] at hd
        have h4 : 'a'.val.toNat = 97 := by decide
        have h5 : 'z'.val.toNat = 122 := by decide
        omega
      · exact h

/-- A blank stands for itself. -/
theorem foldCase_of_blank {c : Char} (h : isBlank c = true) : foldCase c = c := by
  simp only [isBlank, Bool.or_eq_true, Bool.and_eq_true, decide_eq_true_eq, beq_iff_eq] at h
  unfold foldCase
  rw [if_neg (by simp only [beq_iff_eq]; omega),
    if_neg (by simp only [Bool.or_eq_true, beq_iff_eq]; omega)]
  refine dif_neg ?_
  rintro ⟨h1, h2⟩
  have h1 : 65 ≤ c.toNat := UInt32.le_iff_toNat_le.mp h1
  have h2 : c.toNat ≤ 90 := UInt32.le_iff_toNat_le.mp h2
  omega

/-- **A text starts with a keyword when it starts with a word that folds to it.** -/
theorem takeKeyword?_eq_some {keyword t word rest : Text} :
    takeKeyword? keyword t = some (word, rest) ↔
      t = word ++ rest ∧ word.map foldCase = keyword := by
  induction keyword generalizing t word with
  | nil =>
    rw [takeKeyword?, List.map_eq_nil_iff]
    constructor
    · intro h
      obtain ⟨rfl, rfl⟩ := Prod.mk.inj (Option.some.inj h)
      exact ⟨rfl, rfl⟩
    · rintro ⟨rfl, rfl⟩
      rfl
  | cons k ks ih =>
    cases t with
    | nil =>
      rw [takeKeyword?]
      constructor
      · intro h; cases h
      · rintro ⟨h, hw⟩
        obtain ⟨rfl, -⟩ := List.append_eq_nil_iff.mp h.symm
        cases hw
    | cons c t =>
      rw [takeKeyword?]
      constructor
      · intro h
        split at h
        · rename_i hc
          obtain ⟨⟨w, r⟩, hw, he⟩ := Option.map_eq_some_iff.mp h
          obtain ⟨rfl, rfl⟩ := Prod.mk.inj he
          obtain ⟨rfl, hm⟩ := ih.mp hw
          exact ⟨rfl, by rw [List.map_cons, hc, hm]⟩
        · cases h
      · rintro ⟨ht, hm⟩
        cases word with
        | nil => cases hm
        | cons d w =>
          obtain ⟨rfl, rfl⟩ := List.cons.inj ht
          obtain ⟨hc, hm⟩ := List.cons.inj hm
          rw [if_pos hc, ih.mpr ⟨(rfl : w.append rest = w ++ rest), hm⟩]
          rfl

/-- A text that starts with another character than a keyword does not start with the keyword. -/
theorem takeKeyword?_eq_none_of_ne {k c : Char} (hk : k.isLower = false) (hc : c ≠ k)
    (keyword t : Text) : takeKeyword? (k :: keyword) (c :: t) = none := by
  by_contra hn
  obtain ⟨⟨word, rest⟩, h⟩ := Option.ne_none_iff_exists'.mp hn
  obtain ⟨e, hw⟩ := takeKeyword?_eq_some.mp h
  cases word with
  | nil => cases hw
  | cons d word =>
    obtain ⟨rfl, -⟩ := List.cons.inj e
    exact hc (eq_of_foldCase (List.cons.inj hw).1 hk)

/-- What is in no keyword is in no word that folds to it. -/
theorem not_mem_of_map_foldCase {word keyword : Text} (h : word.map foldCase = keyword) {c : Char}
    (hc : foldCase c ∉ keyword) : c ∉ word := by
  intro hm
  exact hc (h ▸ List.mem_map_of_mem hm)

theorem inked_of_map_foldCase {word keyword : Text} (h : word.map foldCase = keyword)
    (hk : Inked keyword) : Inked word := by
  intro c hc
  by_contra hb
  have hb : isBlank c = true := by simpa using hb
  have hm : c ∈ keyword := by
    rw [← h, ← foldCase_of_blank hb]
    exact List.mem_map_of_mem hc
  exact absurd (hk c hm) (by simp [hb])

theorem ne_nil_of_map_foldCase {word keyword : Text} (h : word.map foldCase = keyword)
    (hne : keyword ≠ []) : word ≠ [] := by
  rintro rfl
  exact hne h.symm

/-- A word that folds to a keyword ends like it, if that is no letter. -/
theorem exists_of_map_foldCase_concat {word keyword : Text} {d : Char} (hd : d.isLower = false)
    (h : word.map foldCase = keyword ++ [d]) :
    ∃ w, word = w ++ [d] ∧ w.map foldCase = keyword := by
  rcases List.eq_nil_or_concat word with rfl | ⟨w, c, rfl⟩
  · simp at h
  · rw [List.concat_eq_append, List.map_append, List.map_singleton] at h
    obtain ⟨hw, hc⟩ := List.append_inj' h rfl
    obtain rfl := eq_of_foldCase (List.cons.inj hc).1 hd
    exact ⟨w, List.concat_eq_append, hw⟩

/-- A text holds a keyword when it holds a word that folds to it. -/
theorem containsKeyword_iff {keyword t : Text} :
    containsKeyword keyword t = true ↔
      ∃ pre word rest, t = pre ++ (word ++ rest) ∧ word.map foldCase = keyword := by
  induction t with
  | nil =>
    rw [containsKeyword, List.isEmpty_iff]
    constructor
    · rintro rfl
      exact ⟨[], [], [], rfl, rfl⟩
    · rintro ⟨pre, word, rest, h, rfl⟩
      obtain ⟨-, h⟩ := List.append_eq_nil_iff.mp h.symm
      rw [(List.append_eq_nil_iff.mp h).1]
      rfl
  | cons c t ih =>
    rw [containsKeyword, Bool.or_eq_true, ih]
    constructor
    · rintro (h | ⟨pre, word, rest, rfl, hm⟩)
      · obtain ⟨⟨word, rest⟩, h⟩ := Option.isSome_iff_exists.mp h
        obtain ⟨ht, hm⟩ := takeKeyword?_eq_some.mp h
        exact ⟨[], word, rest, ht, hm⟩
      · exact ⟨c :: pre, word, rest, rfl, hm⟩
    · rintro ⟨pre, word, rest, h, hm⟩
      cases pre with
      | nil =>
        have h : c :: t = word ++ rest := h
        have hk := takeKeyword?_eq_some.mpr ⟨h, hm⟩
        exact Or.inl (Option.isSome_iff_exists.mpr ⟨_, hk⟩)
      | cons d pre =>
        obtain ⟨rfl, rfl⟩ := List.cons.inj h
        exact Or.inr ⟨pre, word, rest, rfl, hm⟩

end ModelScale.Text
