import ModelScale.Proofs.Qc.ModelName

/-
# The suffix of a model name

A rename takes the suffix of a scale off the stem of a file name and puts the new one on.  It should
not matter then how often a model was renamed before: the name is the one that the last scale gives
to the first name.  Main statements:

* `dropSuffix_append`, `atMostOneSuffix_iff`: what is put on is taken off again, and once is enough
  for a stem with one suffix;
* `withScale_withScale_iff`: a second rename makes up for the first one, if the file name has an
  extension or the first scale is a whole number.

The condition is needed.  A suffix such as `_x0.5` has a point in it, and behind a name without an
extension the next rename takes this point for the start of one (`withScale_withScale_iff_bare`).
-/

namespace ModelScale

open Text Numeral

namespace ModelPath

/-! ## 1. Stems -/

/-- The part of a file name in front of its extension, all of it if it has none. -/
def stem (name : Text) : Text :=
  (splitLast? '.' name).elim name Prod.fst

theorem isStem_append {e : Text} (he : '.' ∉ e) (s : Text) :
    IsStem (s ++ '.' :: e) s ('.' :: e) :=
  Or.inl ⟨e, splitLast?_append_cons he s, rfl⟩

theorem isStem_of_not_mem {name : Text} (h : '.' ∉ name) : IsStem name name [] :=
  Or.inr ⟨splitLast?_of_not_mem h, rfl, rfl⟩

/-- A file name is its stem and perhaps an extension. -/
theorem stem_cases (name : Text) :
    ('.' ∉ name ∧ stem name = name) ∨ ∃ e, '.' ∉ e ∧ name = stem name ++ '.' :: e := by
  unfold stem
  cases hs : splitLast? '.' name with
  | none => exact Or.inl ⟨splitLast?_eq_none hs, rfl⟩
  | some p =>
    obtain ⟨hn, he⟩ := splitLast?_eq_some (a := p.1) (b := p.2) hs
    exact Or.inr ⟨p.2, he, hn⟩

/-! ## 2. Suffixes -/

/-- The stem ends in the suffix of a scale. -/
def HasSuffix (t : Text) : Prop :=
  ∃ front body, t = front ++ '_' :: body ∧ isSuffixBody body = true

/-- The stem does not end in two suffixes, one behind the other. -/
def AtMostOneSuffix (t : Text) : Prop :=
  ∀ front body, t = front ++ '_' :: body → isSuffixBody body = true → ¬ HasSuffix front

theorem digit_or_point_of_isSuffixNumber {t : Text} (h : isSuffixNumber t = true) :
    ∀ c ∈ t, isDigit c = true ∨ c = '.' := by
  unfold isSuffixNumber at h
  rw [List.span_eq_takeWhile_dropWhile] at h
  obtain ⟨-, h⟩ := Bool.and_eq_true_iff.mp h
  intro c hc
  rw [← List.takeWhile_append_dropWhile (p := isDigit) (l := t)] at hc
  rcases List.mem_append.mp hc with hc | hc
  · exact Or.inl (List.all_eq_true.mp List.all_takeWhile c hc)
  · split at h
    · rename_i hr
      rw [hr] at hc
      cases hc
    · rename_i fraction hr
      rw [hr] at hc
      rcases List.mem_cons.mp hc with rfl | hc
      · exact Or.inr rfl
      · exact Or.inl (List.all_eq_true.mp (Bool.and_eq_true_iff.mp h).2 c hc)
    · cases h

/-- A suffix begins with its only low line. -/
theorem not_mem_of_isSuffixBody {body : Text} (h : isSuffixBody body = true) : '_' ∉ body := by
  cases body with
  | nil => simp
  | cons c t =>
    obtain ⟨hx, hn⟩ := Bool.and_eq_true_iff.mp h
    have hnumber : '_' ∉ (takeSign t).2 := by
      intro hm
      rcases digit_or_point_of_isSuffixNumber hn _ hm with h | h
      · exact absurd h (by decide)
      · exact absurd h (by decide)
    rw [List.mem_cons, not_or]
    constructor
    · rintro rfl
      exact absurd hx (by decide)
    · rcases takeSign_eq t with e | e | e
      · rwa [e]
      all_goals
        rw [e, List.mem_cons, not_or]
        exact ⟨by decide, hnumber⟩

/-- **What is put on is taken off again.** -/
theorem dropSuffix_append {front body : Text} (hu : Unbroken (front ++ '_' :: body))
    (hb : isSuffixBody body = true) : dropSuffix (front ++ '_' :: body) = front := by
  have hlast : (front ++ '_' :: body).getLast? ≠ some '\n' := fun h => hu (List.mem_of_getLast? h)
  unfold dropSuffix
  rw [if_neg hlast]
  dsimp only
  rw [splitLast?_append_cons (not_mem_of_isSuffixBody hb)]
  dsimp only
  rw [if_pos hb, List.append_nil]

theorem dropSuffix_eq_self_iff {t : Text} (hu : Unbroken t) :
    dropSuffix t = t ↔ ¬ HasSuffix t := by
  constructor
  · rintro h ⟨front, body, rfl, hb⟩
    rw [dropSuffix_append hu hb] at h
    have := congrArg List.length h
    simp at this
  · intro h
    have hlast : t.getLast? ≠ some '\n' := fun hl => hu (List.mem_of_getLast? hl)
    unfold dropSuffix
    rw [if_neg hlast]
    dsimp only
    split
    · rename_i front body hs
      rw [if_neg]
      exact fun hb => h ⟨front, body, (splitLast?_eq_some hs).1, hb⟩
    · rfl

/-- **A stem has at most one suffix if there is none left once one is taken off.** -/
theorem atMostOneSuffix_iff {t : Text} (hu : Unbroken t) :
    AtMostOneSuffix t ↔ dropSuffix (dropSuffix t) = dropSuffix t := by
  by_cases hs : HasSuffix t
  · obtain ⟨front, body, rfl, hb⟩ := hs
    rw [dropSuffix_append hu hb, dropSuffix_eq_self_iff (unbroken_append.mp hu).1]
    constructor
    · exact fun h => h front body rfl hb
    · -- the suffix begins at the last low line, whichever way it is read
      intro h front' body' he hb'
      have hcut := splitLast?_append_cons (not_mem_of_isSuffixBody hb) front
      rw [he, splitLast?_append_cons (not_mem_of_isSuffixBody hb')] at hcut
      rwa [(Prod.mk.inj (Option.some.inj hcut)).1]
  · refine iff_of_true ?_ ?_
    · exact fun front body he hb => absurd ⟨front, body, he, hb⟩ hs
    · rw [(dropSuffix_eq_self_iff hu).mpr hs, (dropSuffix_eq_self_iff hu).mpr hs]

theorem mem_of_mem_dropSuffix {t : Text} (hu : Unbroken t) {c : Char} (h : c ∈ dropSuffix t) :
    c ∈ t := by
  obtain ⟨gone, hgone, -⟩ := exists_dropSuffix hu
  rw [hgone]
  exact List.mem_append_left gone h

theorem unbroken_dropSuffix {t : Text} (hu : Unbroken t) : Unbroken (dropSuffix t) :=
  fun h => hu (mem_of_mem_dropSuffix hu h)

/-! ## 3. The suffix of a scale -/

/-- The suffix that a rename puts on, none for scale 1. -/
def scaleSuffix (scale : Decimal) : Text :=
  if scale.sameValue .one then [] else ({} : Settings).suffixLead ++ compact scale

/-- A number in fixed point is the number of a suffix. -/
theorem isSuffixBody_fixedPoint {negative : Bool} {whole g : Text} (hw : Digits whole)
    (hg : Digits g) (hne : whole ≠ []) :
    isSuffixBody ('x' :: fixedPoint negative whole g) = true := by
  rw [isSuffixBody, takeSign_fixedPoint hw hne, isSuffixNumber]
  by_cases hz : g = []
  · subst hz
    rw [if_pos rfl, span_append hw (by simp)]
    simpa using hne
  · have hdot : ∀ c ∈ ('.' :: g).head?, isDigit c = false := by
      intro c hc
      obtain rfl : '.' = c := by simpa using hc
      decide
    rw [if_neg hz, span_append hw hdot]
    have hall : g.all isDigit = true := List.all_eq_true.mpr hg
    simp [hne, hz, hall]

/-- A suffix is nothing, or a low line and the body of a suffix. -/
theorem scaleSuffix_cases (scale : Decimal) :
    scaleSuffix scale = [] ∨
      isSuffixBody ('x' :: compact scale) = true ∧ scaleSuffix scale = '_' :: 'x' :: compact scale
    := by
  unfold scaleSuffix
  split
  · exact Or.inl rfl
  · obtain ⟨negative, whole, g, hw, hg, hne, h, -⟩ := Decimal.exists_compact scale
    exact Or.inr ⟨by rw [h]; exact isSuffixBody_fixedPoint hw hg hne, rfl⟩

theorem unbroken_scaleSuffix (scale : Decimal) : Unbroken (scaleSuffix scale) := by
  rcases scaleSuffix_cases scale with h | ⟨-, h⟩ <;> rw [h]
  · exact unbroken_nil
  · exact unbroken_cons.mpr ⟨by decide, unbroken_cons.mpr ⟨by decide, unbroken_compact scale⟩⟩

theorem flat_scaleSuffix (scale : Decimal) : Flat (scaleSuffix scale) := by
  have hcompact : Flat (compact scale) := by
    intro c hc
    have hn := numeralChars_of_isNumeral (Decimal.isNumeral_compact scale) c hc
    have h1 := hn.ne (d := '/') (by decide) (by decide)
    have h2 := hn.ne (d := '\\') (by decide) (by decide)
    simp [isSeparator, h1, h2]
  rcases scaleSuffix_cases scale with h | ⟨-, h⟩ <;> rw [h]
  · exact fun c hc => absurd hc (by simp)
  · intro c hc
    rcases List.mem_cons.mp hc with rfl | hc
    · decide
    · rcases List.mem_cons.mp hc with rfl | hc
      · decide
      · exact hcompact c hc

/-- A stem with another suffix is as flat as it was. -/
theorem flat_dropSuffix_append_scaleSuffix {t : Text} (hu : Unbroken t) (hn : Flat t)
    (scale : Decimal) : Flat (dropSuffix t ++ scaleSuffix scale) :=
  flat_append.mpr ⟨fun c hc => hn c (mem_of_mem_dropSuffix hu hc), flat_scaleSuffix scale⟩

/-- A suffix that was put on a stem without one is taken off again. -/
theorem dropSuffix_append_scaleSuffix {t : Text} (hu : Unbroken t) (h : dropSuffix t = t)
    (scale : Decimal) : dropSuffix (t ++ scaleSuffix scale) = t := by
  have hus := unbroken_append.mpr ⟨hu, unbroken_scaleSuffix scale⟩
  rcases scaleSuffix_cases scale with he | ⟨hb, he⟩
  · rw [he, List.append_nil, h]
  · rw [he] at hus ⊢
    exact dropSuffix_append hus hb

/-- The suffix of a whole number has no point. -/
theorem not_mem_scaleSuffix {scale : Decimal} (h : ∃ n : ℤ, scale.toRat = n) :
    '.' ∉ scaleSuffix scale := by
  obtain ⟨negative, whole, g, hw, -, -, hc, hg⟩ := Decimal.exists_compact scale
  obtain rfl := hg.mpr h
  have hdot : '.' ∉ compact scale := by
    rw [hc, fixedPoint, if_pos rfl, List.append_nil, List.mem_append, not_or]
    refine ⟨by cases negative <;> decide, ?_⟩
    exact fun hm => absurd (hw _ hm) (by decide)
  rcases scaleSuffix_cases scale with he | ⟨-, he⟩ <;> rw [he]
  · simp
  · simpa using hdot

/-- **The suffix of another number is cut in two by its point**, and the first part is a suffix. -/
theorem scaleSuffix_eq_append {scale : Decimal} (h : ¬ ∃ n : ℤ, scale.toRat = n) :
    ∃ body g, scaleSuffix scale = '_' :: body ++ '.' :: g ∧ isSuffixBody body = true ∧ '.' ∉ g := by
  obtain ⟨negative, whole, g, hw, hg, hne, hc, hz⟩ := Decimal.exists_compact scale
  have hone : ¬ scale.sameValue .one = true := by
    intro h1
    refine h ⟨1, ?_⟩
    rw [Decimal.sameValue_iff.mp h1]
    simp [Decimal.toRat, Decimal.size, Decimal.one]
  refine ⟨'x' :: fixedPoint negative whole [], g, ?_,
    isSuffixBody_fixedPoint hw digits_nil hne, ?_⟩
  · rw [scaleSuffix, if_neg hone, hc, fixedPoint, fixedPoint, if_neg (hz.not.mpr h), if_pos rfl]
    simp
  · exact fun hm => absurd (hg _ hm) (by decide)

/-! ## 4. Two renames -/

/-- What a rename makes of a path that is put together from its parts. -/
theorem withScale_append {directory s x : Text} (hd : IsDirectory directory) (hn : Flat (s ++ x))
    (hs : IsStem (s ++ x) s x) (scale : Decimal) :
    withScale (directory ++ (s ++ x)) scale ({} : Settings).suffixLead =
      directory ++ (dropSuffix s ++ scaleSuffix scale ++ x) :=
  withScale_eq (isCut_append hd hn) hs scale _

section Twice

variable {directory s : Text} (hd : IsDirectory directory)
include hd

/-- What a rename makes of a name without an extension. -/
theorem withScale_append_of_not_mem (hn : Flat s) (hdot : '.' ∉ s) (scale : Decimal) :
    withScale (directory ++ s) scale ({} : Settings).suffixLead =
      directory ++ (dropSuffix s ++ scaleSuffix scale) := by
  have hstem : IsStem (s ++ []) s [] := by
    rw [List.append_nil]
    exact isStem_of_not_mem hdot
  have h := withScale_append hd (by rwa [List.append_nil]) hstem scale
  rwa [List.append_nil, List.append_nil] at h

/-- With an extension, the second rename finds the stem that the first one left. -/
theorem withScale_withScale_of_extension {e : Text} (he : '.' ∉ e) (hn : Flat (s ++ '.' :: e))
    (hu : Unbroken s) (h1 : dropSuffix (dropSuffix s) = dropSuffix s) (a b : Decimal) :
    withScale (withScale (directory ++ (s ++ '.' :: e)) a ({} : Settings).suffixLead) b
        ({} : Settings).suffixLead =
      withScale (directory ++ (s ++ '.' :: e)) b ({} : Settings).suffixLead := by
  obtain ⟨hns, hne⟩ := flat_append.mp hn
  have hn' : Flat (dropSuffix s ++ scaleSuffix a ++ '.' :: e) :=
    flat_append.mpr ⟨flat_dropSuffix_append_scaleSuffix hu hns a, hne⟩
  rw [withScale_append hd hn (isStem_append he _), withScale_append hd hn (isStem_append he _),
    withScale_append hd hn' (isStem_append he _),
    dropSuffix_append_scaleSuffix (unbroken_dropSuffix hu) h1]

/-- So it does without one, if no point came with the suffix. -/
theorem withScale_withScale_of_whole (hn : Flat s) (hdot : '.' ∉ s) (hu : Unbroken s)
    (h1 : dropSuffix (dropSuffix s) = dropSuffix s) {a : Decimal} (ha : ∃ n : ℤ, a.toRat = n)
    (b : Decimal) :
    withScale (withScale (directory ++ s) a ({} : Settings).suffixLead) b
        ({} : Settings).suffixLead =
      withScale (directory ++ s) b ({} : Settings).suffixLead := by
  have hn' := flat_dropSuffix_append_scaleSuffix hu hn a
  have hdot' : '.' ∉ dropSuffix s ++ scaleSuffix a := by
    rw [List.mem_append, not_or]
    exact ⟨fun hm => hdot (mem_of_mem_dropSuffix hu hm), not_mem_scaleSuffix ha⟩
  rw [withScale_append_of_not_mem hd hn hdot, withScale_append_of_not_mem hd hn hdot,
    withScale_append_of_not_mem hd hn' hdot',
    dropSuffix_append_scaleSuffix (unbroken_dropSuffix hu) h1]

/-- **A point that came with the suffix stays**, and what is behind it: it is taken for the start of
an extension. -/
theorem withScale_withScale_of_not_whole (hn : Flat s) (hdot : '.' ∉ s) (hu : Unbroken s)
    {a : Decimal} (ha : ¬ ∃ n : ℤ, a.toRat = n) (b : Decimal) :
    ∃ g, withScale (withScale (directory ++ s) a ({} : Settings).suffixLead) b
        ({} : Settings).suffixLead =
      withScale (directory ++ s) b ({} : Settings).suffixLead ++ '.' :: g := by
  obtain ⟨body, g, hsuffix, hb, hg⟩ := scaleSuffix_eq_append ha
  have hsplit : dropSuffix s ++ scaleSuffix a = (dropSuffix s ++ '_' :: body) ++ '.' :: g := by
    rw [hsuffix, List.append_assoc]
  have hn' := flat_dropSuffix_append_scaleSuffix hu hn a
  have hus := unbroken_append.mpr ⟨unbroken_dropSuffix hu, unbroken_scaleSuffix a⟩
  rw [hsplit] at hn' hus
  refine ⟨g, ?_⟩
  rw [withScale_append_of_not_mem hd hn hdot, withScale_append_of_not_mem hd hn hdot, hsplit,
    withScale_append hd hn' (isStem_append hg _), dropSuffix_append (unbroken_append.mp hus).1 hb]
  simp only [List.append_assoc]

end Twice

/-- **A second rename makes up for the first one**, exactly if the file name has an extension or the
first scale is a whole number.  The stem may have one suffix to begin with. -/
theorem withScale_withScale_iff {path : Text} (hu : Unbroken path)
    (h1 : AtMostOneSuffix (stem (fileName path))) (a b : Decimal) :
    withScale (withScale path a ({} : Settings).suffixLead) b ({} : Settings).suffixLead =
        withScale path b ({} : Settings).suffixLead ↔
      '.' ∈ fileName path ∨ ∃ n : ℤ, a.toRat = n := by
  obtain ⟨directory, hd, hpath⟩ := exists_directory path
  have hn := flat_fileName path
  rw [hpath] at hu
  generalize fileName path = name at hpath h1 hn hu ⊢
  obtain ⟨-, hun⟩ := unbroken_append.mp hu
  rw [hpath]
  rcases stem_cases name with ⟨hdot, hstem⟩ | ⟨e, he, hname⟩
  · rw [hstem, atMostOneSuffix_iff hun] at h1
    by_cases ha : ∃ n : ℤ, a.toRat = n
    · exact iff_of_true (withScale_withScale_of_whole hd hn hdot hun h1 ha b) (Or.inr ha)
    · obtain ⟨g, hg⟩ := withScale_withScale_of_not_whole hd hn hdot hun ha b
      refine iff_of_false ?_ (by simp [hdot, ha])
      intro h
      rw [hg] at h
      simp at h
  · have hus : Unbroken (stem name) := by
      rw [hname] at hun
      exact (unbroken_append.mp hun).1
    rw [atMostOneSuffix_iff hus] at h1
    refine iff_of_true ?_ (Or.inl (by rw [hname]; simp))
    rw [hname] at hn ⊢
    exact withScale_withScale_of_extension hd he hn hus h1 a b

/-- A path with another separator and a suffix, and a name with a point in its directory only. -/
theorem withScale_withScale_iff_small :
    let lead := ({} : Settings).suffixLead
    let half : Decimal := ⟨true, 50, -2⟩
    let three : Decimal := ⟨false, 3, 0⟩
    (Unbroken "props\\crate_x2.mdl".toList ∧
        AtMostOneSuffix (stem (fileName "props\\crate_x2.mdl".toList)) ∧
        withScale "props\\crate_x2.mdl".toList half lead = "props\\crate_x-0.5.mdl".toList ∧
        withScale (withScale "props\\crate_x2.mdl".toList half lead) three lead =
          withScale "props\\crate_x2.mdl".toList three lead) ∧
      Unbroken "models/a.b/crate".toList ∧
        AtMostOneSuffix (stem (fileName "models/a.b/crate".toList)) ∧
        withScale (withScale "models/a.b/crate".toList three lead) half lead =
          withScale "models/a.b/crate".toList half lead := by
  intro lead half three
  have h1 : AtMostOneSuffix (stem (fileName "props\\crate_x2.mdl".toList)) :=
    (atMostOneSuffix_iff (by decide)).mpr (by decide)
  have h2 : AtMostOneSuffix (stem (fileName "models/a.b/crate".toList)) :=
    (atMostOneSuffix_iff (by decide)).mpr (by decide)
  refine ⟨⟨by decide, h1, by decide +kernel, ?_⟩, by decide, h2, ?_⟩
  · exact (withScale_withScale_iff (by decide) h1 half three).mpr (Or.inl (by decide))
  · refine (withScale_withScale_iff (by decide) h2 three half).mpr (Or.inr ⟨3, ?_⟩)
    norm_num [three, Decimal.toRat, Decimal.size]

/-- A name without an extension, at one half and then at two: the name keeps a part of the first
suffix. -/
theorem withScale_withScale_iff_bare :
    let lead := ({} : Settings).suffixLead
    let half : Decimal := ⟨false, 5, -1⟩
    let two : Decimal := ⟨false, 2, 0⟩
    AtMostOneSuffix (stem (fileName "crate".toList)) ∧
      withScale "crate".toList half lead = "crate_x0.5".toList ∧
      withScale (withScale "crate".toList half lead) two lead = "crate_x2.5".toList ∧
      withScale "crate".toList two lead = "crate_x2".toList := by
  refine ⟨(atMostOneSuffix_iff (by decide)).mpr (by decide), ?_, ?_, ?_⟩ <;> decide +kernel

end ModelPath

end ModelScale
