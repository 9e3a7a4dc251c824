import ModelScale.Proofs.Qc.Placement

/-
# The rewritten model name

A rename changes the last part of a path and nothing else.  That part holds no slash, and it never
comes to begin with a star, so no comment is opened or closed by it.  Main statements:

* `ModelPath.isCut_append`: a path is cut where it was put together;
* `ModelPath.renamed_withScale`: what a rename keeps of a path;
* `region_scan_path`: the last part of a path decides no comment, whatever it is, as long as it does
  not complete an opening that a slash began;
* `ModelName.read?_eq_some`: the line is its head, the path between its marks, and what comes
  behind;
* `ModelName.spared`: a line with a new model name is one that spares directives.
-/

namespace ModelScale

open Text Comment Numeral

/-! ## 1. Cutting at the last occurrence -/

namespace Text

theorem splitLast?_eq_none {d : Char} {t : Text} (h : splitLast? d t = none) : d ∉ t := by
  induction t with
  | nil => simp
  | cons c t ih =>
    rw [splitLast?] at h
    split at h
    · cases h
    · rename_i hn
      split at h
      · cases h
      · rename_i hc
        rw [List.mem_cons, not_or]
        exact ⟨Ne.symm hc, ih hn⟩

theorem splitLast?_eq_some {d : Char} {t a b : Text} (h : splitLast? d t = some (a, b)) :
    t = a ++ d :: b ∧ d ∉ b := by
  induction t generalizing a with
  | nil => cases h
  | cons c t ih =>
    rw [splitLast?] at h
    split at h
    · rename_i x y hxy
      obtain ⟨rfl, rfl⟩ := Prod.mk.inj (Option.some.inj h)
      obtain ⟨rfl, hd⟩ := ih hxy
      exact ⟨rfl, hd⟩
    · rename_i hn
      split at h
      · rename_i hc
        obtain ⟨rfl, rfl⟩ := Prod.mk.inj (Option.some.inj h)
        exact ⟨by rw [hc, List.nil_append], splitLast?_eq_none hn⟩
      · cases h

theorem splitLast?_of_not_mem {d : Char} {t : Text} (h : d ∉ t) : splitLast? d t = none := by
  cases hs : splitLast? d t with
  | none => rfl
  | some p =>
    refine absurd ?_ h
    rw [(splitLast?_eq_some hs).1]
    simp

theorem splitLast?_append_cons {d : Char} {b : Text} (h : d ∉ b) (a : Text) :
    splitLast? d (a ++ d :: b) = some (a, b) := by
  induction a with
  | nil => rw [List.nil_append, splitLast?, splitLast?_of_not_mem h, if_pos rfl]
  | cons c a ih => rw [List.cons_append, splitLast?, ih]

end Text

/-! ## 2. The parts of a path -/

namespace ModelPath

/-- A separator of either kind. -/
def isSeparator (c : Char) : Bool := c == '/' || c == '\\'

/-- The part of a path behind its last separator. -/
def fileName (path : Text) : Text :=
  (path.reverse.takeWhile fun c => !isSeparator c).reverse

/-- No separator in a text. -/
def Flat (t : Text) : Prop := ∀ c ∈ t, isSeparator c = false

theorem flat_append {s t : Text} : Flat (s ++ t) ↔ Flat s ∧ Flat t := by
  simp [Flat, or_imp, forall_and]

/-- Nothing, or a text that ends in a separator. -/
def IsDirectory (t : Text) : Prop := ∀ c ∈ t.getLast?, isSeparator c = true

theorem flat_fileName (path : Text) : Flat (fileName path) := by
  intro c hc
  have h := List.all_takeWhile (p := fun c => !isSeparator c) (l := path.reverse)
  simpa using List.all_eq_true.mp h c (List.mem_reverse.mp hc)

theorem exists_directory (path : Text) :
    ∃ directory, IsDirectory directory ∧ path = directory ++ fileName path := by
  refine ⟨(path.reverse.dropWhile fun c => !isSeparator c).reverse, ?_, ?_⟩
  · intro c hc
    rw [List.getLast?_reverse] at hc
    have h := List.head?_dropWhile_not (fun c => !isSeparator c) path.reverse
    rw [Option.mem_def.mp hc] at h
    simpa using h
  · rw [fileName, ← List.reverse_append, List.takeWhile_append_dropWhile, List.reverse_reverse]

/-- The cut between the directory of a path and its last part. -/
def IsCut (path directory base : Text) : Prop :=
  (∃ head, splitLast? (separator path) path = some (head, base) ∧
    directory = head ++ [separator path]) ∨
  splitLast? (separator path) path = none ∧ directory = [] ∧ base = path

/-- **A directory and a flat name are told apart again.** -/
theorem isCut_append {directory name : Text} (hd : IsDirectory directory) (hn : Flat name) :
    IsCut (directory ++ name) directory name := by
  have hfind : name.reverse.find? (fun c => c == '/' || c == '\\') = none := by
    rw [List.find?_eq_none]
    intro c hc
    have h := hn c (List.mem_reverse.mp hc)
    rw [isSeparator] at h
    simp [h]
  have hmem : ∀ c, isSeparator c = true → c ∉ name := by
    intro c hc hm
    rw [hn c hm] at hc
    cases hc
  rcases List.eq_nil_or_concat directory with rfl | ⟨head, c, rfl⟩
  · have hs : separator name = '/' := by rw [separator, hfind, if_neg (by simp)]
    refine Or.inr ⟨?_, rfl, rfl⟩
    rw [List.nil_append, hs]
    exact splitLast?_of_not_mem (hmem '/' (by decide))
  · rw [List.concat_eq_append] at hd ⊢
    have hc : isSeparator c = true := hd c (by simp)
    have hs : separator (head ++ [c] ++ name) = c := by
      have hlast : (c :: head.reverse).find? (fun c => c == '/' || c == '\\') = some c :=
        List.find?_cons_of_pos hc
      rw [separator, List.reverse_append, List.find?_append, hfind, Option.none_or,
        List.reverse_append, List.reverse_singleton, List.singleton_append, hlast]
      rcases Bool.or_eq_true_iff.mp hc with h | h
      · rw [beq_iff_eq.mp h]
        decide
      · rw [beq_iff_eq.mp h]
        decide
    refine Or.inl ⟨head, ?_, by rw [hs]⟩
    rw [hs, List.append_assoc, List.singleton_append]
    exact splitLast?_append_cons (hmem c hc) head

theorem exists_isCut (path : Text) :
    ∃ directory base, IsCut path directory base ∧ path = directory ++ base ∧ '/' ∉ base := by
  obtain ⟨directory, hd, hp⟩ := exists_directory path
  have hn := flat_fileName path
  generalize fileName path = name at hp hn
  subst hp
  exact ⟨directory, name, isCut_append hd hn, rfl, fun h => absurd (hn _ h) (by decide)⟩

/-- The cut in front of the extension. -/
def IsStem (base stem extension : Text) : Prop :=
  (∃ e, splitLast? '.' base = some (stem, e) ∧ extension = '.' :: e) ∨
  splitLast? '.' base = none ∧ stem = base ∧ extension = []

theorem exists_isStem (base : Text) :
    ∃ stem extension, IsStem base stem extension ∧ base = stem ++ extension ∧
      ∀ c ∈ extension.head?, c = '.' := by
  cases hs : splitLast? '.' base with
  | some p =>
    obtain ⟨stem, e⟩ := p
    exact ⟨stem, _, Or.inl ⟨e, hs, rfl⟩, (splitLast?_eq_some hs).1, by simp⟩
  | none => exact ⟨base, [], Or.inr ⟨hs, rfl, rfl⟩, by simp, by simp⟩

/-! ## 3. What a rename keeps of a path -/

/-- A stem without its suffix: what goes begins with the low line. -/
theorem exists_dropSuffix {stem : Text} (hu : Unbroken stem) :
    ∃ gone, stem = dropSuffix stem ++ gone ∧ ∀ c ∈ gone.head?, c = '_' := by
  have hlast : stem.getLast? ≠ some '\n' := by
    intro h
    exact hu (List.mem_of_getLast? h)
  unfold dropSuffix
  rw [if_neg hlast]
  dsimp only
  split
  · rename_i head suffix hs
    split
    · rw [List.append_nil]
      exact ⟨'_' :: suffix, (splitLast?_eq_some hs).1, by simp⟩
    · exact ⟨[], by simp, by simp⟩
  · exact ⟨[], by simp, by simp⟩

/-- A stem gets a low line and a number, or nothing. -/
theorem exists_suffix (scale : Decimal) :
    ∃ suffix, (if scale.sameValue .one then [] else ({} : Settings).suffixLead ++ compact scale) =
        suffix ∧ '/' ∉ suffix ∧ Unbroken suffix ∧ (∀ c ∈ suffix, Plain c) ∧
      ∀ c ∈ suffix.head?, c = '_' := by
  have hn := Decimal.isNumeral_compact scale
  split
  · exact ⟨[], rfl, by simp, unbroken_nil, by simp, by simp⟩
  · refine ⟨_, rfl, ?_, unbroken_append.mpr ⟨by decide, unbroken_compact scale⟩,
      List.forall_mem_append.mpr ⟨by decide, plain_of_isNumeral hn⟩, ?_⟩
    · rw [List.mem_append, not_or]
      exact ⟨by decide, fun h => (neutral_of_isNumeral hn _ h).1 rfl⟩
    · intro c hc
      exact (Option.some.inj hc).symm

theorem withScale_eq {path directory base stem extension : Text} (hc : IsCut path directory base)
    (hs : IsStem base stem extension) (scale : Decimal) (lead : Text) :
    withScale path scale lead = directory ++ (dropSuffix stem ++
      (if scale.sameValue .one then [] else lead ++ compact scale) ++ extension) := by
  unfold withScale
  rcases hc with ⟨head, hc, rfl⟩ | ⟨hc, rfl, rfl⟩ <;>
    rcases hs with ⟨e, hs, rfl⟩ | ⟨hs, rfl, rfl⟩ <;>
    simp only [hc, hs, List.append_assoc]

/-- A path and another one for it, with the last part changed.  No slash is in that part before or
after, and whether it begins with a star stays the same. -/
structure Renamed (path path' : Text) : Prop where
  exists_parts : ∃ directory base base', path = directory ++ base ∧ path' = directory ++ base' ∧
    '/' ∉ base ∧ '/' ∉ base' ∧ (base'.head? = some '*' ↔ base.head? = some '*')
  unbroken : Unbroken path → Unbroken path'
  faithful : Faithful path → Faithful path'

/-- What is put behind a text does not decide how it begins, unless the text is empty. -/
theorem head?_append_congr {t u v : Text} {c : Char} (hu : u.head? ≠ some c)
    (hv : v.head? ≠ some c) : (t ++ u).head? = some c ↔ (t ++ v).head? = some c := by
  cases t with
  | nil => exact iff_of_false hu hv
  | cons d t => rfl

/-- **A rename changes the last part of a path.** -/
theorem renamed_withScale {path : Text} (hu : Unbroken path) (scale : Decimal) :
    Renamed path (withScale path scale ({} : Settings).suffixLead) := by
  obtain ⟨directory, base, hcut, rfl, hslash⟩ := exists_isCut path
  obtain ⟨stem, extension, hstem, rfl, hext⟩ := exists_isStem base
  obtain ⟨suffix, hsuffix, hsn, hsu, hsp, hsh⟩ := exists_suffix scale
  obtain ⟨-, hus, hue⟩ := by simpa only [unbroken_append] using hu
  obtain ⟨gone, hgone, hgh⟩ := exists_dropSuffix hus
  rw [withScale_eq hcut hstem, hsuffix]
  generalize dropSuffix stem = kept at hgone ⊢
  subst hgone
  simp only [List.append_assoc] at hslash ⊢
  -- what comes in and what goes out begin with a low line, and the extension with a point
  have hstar : ∀ u : Text, (∀ c ∈ u.head?, c = '_') → (u ++ extension).head? ≠ some '*' := by
    intro u hu hh
    cases u with
    | nil => exact absurd (hext _ hh) (by decide)
    | cons c u => exact absurd (hu _ hh) (by decide)
  refine ⟨⟨directory, _, _, rfl, rfl, hslash, ?_, head?_append_congr (hstar _ hsh) (hstar _ hgh)⟩,
    ?_, ?_⟩
  · simp only [List.mem_append, not_or] at hslash ⊢
    exact ⟨hslash.1, hsn, hslash.2.2⟩
  · simp only [unbroken_append]
    rintro ⟨hd, hk, -, he⟩
    exact ⟨hd, hk, hsu, he⟩
  · intro hf
    have hx : ∀ c ∈ extension.head?, Plain c := by
      intro c hc
      rw [hext c hc]
      decide
    rw [← List.append_assoc, ← List.append_assoc, faithful_append hx, faithful_append_plain hsp]
    exact ⟨hf.piece ⟨[], gone ++ extension, by simp⟩,
      hf.piece ⟨directory ++ (kept ++ gone), [], by simp⟩⟩

end ModelPath

/-! ## 4. No comment is opened or closed -/

/-- Without a slash before it and without one to come, a character decides no comment. -/
theorem Scan.step_slashless {s : Scan} (hs : s ≠ .slash) {c : Char} (hc : c ≠ '/') :
    (s.step c).idle = s.idle ∧ s.step c ≠ .slash := by
  cases s with
  | code => simp [Scan.step, hc, Scan.idle]
  | slash => exact absurd rfl hs
  | block => by_cases h : c = '*' <;> simp [Scan.step, h, Scan.idle]
  | star => by_cases h : c = '*' <;> simp [Scan.step, hc, h, Scan.idle]
  | line => simp [Scan.step, Scan.idle]

theorem idle_scan_slashless {s : Scan} (hs : s ≠ .slash) {t : Text} (ht : '/' ∉ t) :
    (scan s t).idle = s.idle := by
  induction t generalizing s with
  | nil => rfl
  | cons c t ih =>
    rw [List.mem_cons, not_or] at ht
    obtain ⟨h1, h2⟩ := Scan.step_slashless hs (Ne.symm ht.1)
    rw [scan_cons, ih h2 ht.2, h1]

/-- Two stretches without a slash do the same, if both or neither begin with a star. -/
theorem idle_scan_congr {t u : Text} (ht : '/' ∉ t) (hu : '/' ∉ u)
    (hh : u.head? = some '*' ↔ t.head? = some '*') (s : Scan) :
    (scan s u).idle = (scan s t).idle := by
  have hslash : ∀ v : Text, '/' ∉ v →
      (scan .slash v).idle = if v.head? = some '*' then .block else .code := by
    intro v hv
    cases v with
    | nil => rfl
    | cons c v =>
      rw [List.mem_cons, not_or] at hv
      by_cases hc : c = '*'
      · subst hc
        exact idle_scan_slashless (by decide) hv.2
      · have hstep : Scan.slash.step c = .code := by simp [Scan.step, hc, Ne.symm hv.1]
        rw [scan_cons, hstep, idle_scan_slashless (by simp) hv.2]
        simp [hc, Scan.idle]
  by_cases hs : s = .slash
  · subst hs
    rw [hslash t ht, hslash u hu]
    exact if_congr hh rfl rfl
  · rw [idle_scan_slashless hs ht, idle_scan_slashless hs hu]

/-- **The last part of a path decides no comment**: what follows it begins with no part of a
delimiter. -/
theorem region_scan_path {t u r : Text} (ht : '/' ∉ t) (hu : '/' ∉ u)
    (hh : u.head? = some '*' ↔ t.head? = some '*')
    (hr : ∀ c ∈ r.head?, c ≠ '/' ∧ c ≠ '*') (s : Scan) :
    (scan s (u ++ r)).region = (scan s (t ++ r)).region := by
  have hi := idle_scan_congr ht hu hh s
  rw [scan_append, scan_append]
  cases r with
  | nil => rw [scan_nil, scan_nil, ← Scan.region_idle, hi, Scan.region_idle]
  | cons c r =>
    obtain ⟨h1, h2⟩ := hr c rfl
    rw [scan_cons, scan_cons, Scan.step_of_ne _ h1 h2, Scan.step_of_ne _ h1 h2, hi]

/-- **A renamed path stands for the path** in front of what begins with no part of a delimiter. -/
theorem ModelPath.Renamed.exchanged {path path' r : Text} (h : Renamed path path')
    (hr : ∀ c ∈ r.head?, (c ≠ '/' ∧ c ≠ '*') ∧ Plain c) : Exchanged (path ++ r) (path' ++ r) where
  region_eq := by
    obtain ⟨directory, base, base', rfl, rfl, h1, h2, hstar⟩ := h.exists_parts
    intro s
    rw [List.append_assoc, List.append_assoc, scan_append s directory, scan_append s directory,
      region_scan_path h1 h2 hstar fun c hc => (hr c hc).1]
  unbroken := by
    intro hu
    rw [unbroken_append] at hu ⊢
    exact ⟨h.unbroken hu.1, hu.2⟩
  faithful := by
    have hplain : ∀ c ∈ r.head?, Plain c := fun c hc => (hr c hc).2
    intro hf
    rw [faithful_append hplain] at hf ⊢
    exact ⟨h.faithful hf.1, hf.2⟩

/-! ## 5. The line -/

namespace ModelName

/-- The mark on either side of a path. -/
def mark (quoted : Bool) : Text := if quoted then ['"'] else []

/-- A path is taken with its marks, and what comes behind decides no comment. -/
theorem takePath?_eq_some {t path rest : Text} {quoted : Bool}
    (h : takePath? t = some (quoted, path, rest)) :
    t = mark quoted ++ (path ++ (mark quoted ++ rest)) ∧
      ∀ c ∈ (mark quoted ++ rest).head?, (c ≠ '/' ∧ c ≠ '*') ∧ Plain c := by
  unfold takePath? at h
  split at h
  · obtain ⟨⟨p, r⟩, hs, he⟩ := Option.map_eq_some_iff.mp h
    obtain ⟨rfl, hp⟩ := Prod.mk.inj he
    obtain ⟨rfl, rfl⟩ := Prod.mk.inj hp
    refine ⟨by rw [splitFirst?_append hs]; rfl, ?_⟩
    intro c hc
    obtain rfl : '"' = c := Option.some.inj hc
    decide
  · rw [List.span_eq_takeWhile_dropWhile] at h
    dsimp only at h
    split at h
    · cases h
    · obtain ⟨rfl, he⟩ := Prod.mk.inj (Option.some.inj h)
      obtain ⟨rfl, rfl⟩ := Prod.mk.inj he
      refine ⟨List.takeWhile_append_dropWhile.symm, ?_⟩
      intro c hc
      have hd := List.head?_dropWhile_not (fun c => isInk c && c != '"') t
      rw [show (t.dropWhile fun c => isInk c && c != '"').head? = some c from hc] at hd
      have hd : (isInk c && c != '"') = false := by simpa using hd
      -- a blank or a quotation mark is none of the characters that count
      refine ⟨⟨?_, ?_⟩, ?_⟩
      · rintro rfl
        exact absurd hd (by decide)
      · rintro rfl
        exact absurd hd (by decide)
      · rcases Bool.and_eq_false_iff.mp hd with hb | hq
        · exact plain_of_isBlank (by simpa [isInk] using hb)
        · obtain rfl : c = '"' := by simpa using hq
          decide

theorem plain_mark (quoted : Bool) : ∀ c ∈ mark quoted, Plain c := by
  cases quoted <;> decide

theorem setPath_eq (m : ModelName) (path : Text) :
    m.setPath path = trimEnd (m.lead ++ (mark m.quoted ++ (path ++ (mark m.quoted ++ m.trail)))) := by
  unfold setPath mark
  split <;> simp

/-- **A line that names the model** is its head, the path between its marks, and what comes
behind. -/
theorem read?_eq_some {line : Text} {m : ModelName} (hu : Unbroken line)
    (h : read? line = some m) :
    IsHead spelling m.lead ∧
      line = m.lead ++ (mark m.quoted ++ (m.path ++ (mark m.quoted ++ m.trail))) ∧
      ∀ c ∈ (mark m.quoted ++ m.trail).head?, (c ≠ '/' ∧ c ≠ '*') ∧ Plain c := by
  obtain ⟨⟨lead, rest⟩, hhead, h⟩ := Option.bind_eq_some_iff.mp h
  obtain ⟨⟨quoted, path, rest'⟩, hpath, h⟩ := Option.bind_eq_some_iff.mp h
  obtain ⟨trail, htrail, h⟩ := Option.bind_eq_some_iff.mp h
  obtain ⟨hlead, hline, -⟩ := (takeHead?_eq_some_iff (by decide) (by decide)).mp hhead
  obtain ⟨hrest, hend⟩ := takePath?_eq_some hpath
  have hur : Unbroken rest' := by
    rw [hline, hrest] at hu
    simp only [unbroken_append] at hu
    exact hu.2.2.2.2
  rw [restOfLine?_of_unbroken hur] at htrail
  obtain rfl := Option.some.inj htrail
  obtain rfl := Option.some.inj h
  exact ⟨hlead, by rw [hline, hrest], hend⟩

/-- **A line with a new model name is one that spares directives.** -/
theorem spared {line : Text} {m : ModelName} (hu : Unbroken line) (h : read? line = some m)
    (scale : Decimal) :
    Spared line (m.setPath (ModelPath.withScale m.path scale ({} : Settings).suffixLead)) := by
  obtain ⟨hlead, hline, hend⟩ := read?_eq_some hu h
  -- the first word is not the keyword of a directive
  have hnone : Directive.read? line = none := by
    rw [← Option.not_isSome_iff_eq_none, Directive.isSome_read?_iff hu, hline,
      hlead.nextWord_append (by decide) (by decide)]
    decide
  refine Or.inr ⟨?_, fun d hd => by rw [hnone] at hd; cases hd⟩
  have hpath : Unbroken m.path := by
    rw [hline] at hu
    simp only [unbroken_append] at hu
    exact hu.2.2.1
  have hexchanged := (ModelPath.renamed_withScale hpath scale).exchanged hend
  have hretouched := Retouched.of_head hlead (by decide) (by decide)
    (hexchanged.append_left (plain_mark m.quoted))
  rw [← hline] at hretouched
  rw [setPath_eq]
  exact hretouched.trans (Retouched.trimEnd _)

end ModelName

end ModelScale
