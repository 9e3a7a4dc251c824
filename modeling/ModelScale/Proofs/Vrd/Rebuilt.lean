import ModelScale.Proofs.Vrd.Restored

/-
# A rebuilt line keeps its shape

A line with coordinates may hold several tags, other numbers and the ends of comments next to the
three numbers that count.  That it is classified as before once these are replaced, with the same
text around them and in the same region, is known (`classify_withValues_rest`,
`classify_withValues_offset`).  Here it is put together with what the new line is read as: the
numbers written, without the blank that stands in the column of a sign.  The main statement is
`rebuilt_line_keeps_shape`.
-/

namespace ModelScale

open Text

/-! ## 1. Coordinates that come from scaling -/

/-- Each coordinate is a text that scaling a literal returned. -/
def Triple.FromScaling (v : Triple) : Prop :=
  ∀ t ∈ v.toList, ∃ written factor places?, scaleLiteral written factor places? = .ok t

theorem Triple.FromScaling.scaled {v : Triple} (h : v.FromScaling) : v.Scaled := by
  have hscaled : ∀ t ∈ v.toList, ScaledText t := by
    intro t ht
    obtain ⟨written, factor, places?, hs⟩ := h t ht
    exact scaleLiteral_eq_ok hs
  exact ⟨hscaled _ (by simp [toList]), hscaled _ (by simp [toList]), hscaled _ (by simp [toList])⟩

/-- Nothing blank stands behind a scaled literal. -/
theorem ScaledText.trimStart_eq_trim {t : Text} (h : ScaledText t) : trimStart t = trim t := by
  obtain ⟨b, ht, hb, hn⟩ := h.exists_trim
  obtain ⟨c, u, hc⟩ := List.exists_cons_of_ne_nil (Numeral.ne_nil_of_isNumeral hn)
  have hi := Numeral.inked_of_isNumeral hn
  rw [hc] at hi
  conv_lhs => rw [ht, trimStart_append hb, hc, trimStart_of_inked (inked_cons.mp hi).1]
  exact hc.symm

/-- Coordinates without the blanks in front of them. -/
def Triple.unindented (v : Triple) : Triple := ⟨trimStart v.x, trimStart v.y, trimStart v.z⟩

theorem Triple.Scaled.unindented_eq {v : Triple} (h : v.Scaled) : v.unindented = v.trimmed := by
  rw [unindented, trimmed, h.x.trimStart_eq_trim, h.y.trimStart_eq_trim, h.z.trimStart_eq_trim]

/-! ## 2. Rebuilt lines -/

/-- The shapes of the lines that a rescale writes to. -/
def VrdShape.Writes (kind : TripleLine → VrdShape) : Prop := kind = .rest ∨ kind = .offset

/-- A line that is classified by its coordinates is made of them and of their frame. -/
theorem reads_of_classify {kind : TripleLine → VrdShape} (hk : VrdShape.Writes kind)
    {start finish : Region} {line : Text} {l : TripleLine} (hu : Unbroken line)
    (h : classify start line = (some (kind l), finish)) : l.Reads line := by
  rcases hk with rfl | rfl
  · obtain ⟨-, -, hl⟩ := classify_eq_live h trivial
    exact TripleLine.reads_of_readRest? hu (live?_eq_rest.mp hl).2
  · obtain ⟨-, -, hl⟩ := classify_eq_live h trivial
    exact TripleLine.reads_of_readOffset? (live?_eq_offset.mp hl).2.2

/-- **A rebuilt line keeps its shape.**  With coordinates that come from scaling, a rest position is
a rest position and an offset an offset; what stands in front of the coordinates is the same up to
blanks, what stands behind them is the same, the coordinates are those written but for the blanks in
front of them, and the line ends in the region where it ended. -/
theorem rebuilt_line_keeps_shape {kind : TripleLine → VrdShape} (hk : VrdShape.Writes kind)
    {start finish : Region} {line : Text} {l : TripleLine} {v : Triple} (hu : Unbroken line)
    (h : classify start line = (some (kind l), finish)) (hv : v.FromScaling) :
    ∃ m, classify start (l.withValues v) = (some (kind m), finish) ∧
      trimEnd m.before = trimEnd l.before ∧ m.after = l.after ∧ m.values = v.unindented := by
  have hscaled := hv.scaled
  have hagain : ∃ m, classify start (l.withValues v) = (some (kind m), finish) ∧
      m.SameFrame l := by
    rcases hk with rfl | rfl
    · exact classify_withValues_rest hu h hscaled
    · exact classify_withValues_offset hu h hscaled
  obtain ⟨m, hm, hframe⟩ := hagain
  have hline := (reads_of_classify hk hu h).unbroken_withValues hu hscaled
  refine ⟨m, hm, hframe.1, hframe.2, ?_⟩
  rw [(reads_of_classify hk hline hm).values_withValues hframe hscaled, hscaled.unindented_eq]

/-- The second of two tags has the coordinates, and a comment is opened behind them that holds a tag
and three numbers of its own. -/
theorem rebuilt_line_keeps_shape_between_tags :
    ∃ m, classify .code "\t<basepos> of <BASEPOS>  3.0 -1.0 -4000 /* <trigger> 1 2 3".toList =
        (some (.rest m), .block) ∧
      trimEnd m.before = "\t<basepos> of <BASEPOS>".toList ∧
      m.after = " /* <trigger> 1 2 3".toList ∧
      m.values = ⟨"3.0".toList, "-1.0".toList, "-4000".toList⟩ := by
  let l : TripleLine := ⟨"\t<basepos> of <BASEPOS>\t".toList,
    ⟨"-1.5".toList, ".5".toList, "2e3".toList⟩, " /* <trigger> 1 2 3".toList⟩
  let v : Triple := ⟨" 3.0".toList, "-1.0".toList, "-4000".toList⟩
  have hclass : classify .code "\t<basepos> of <BASEPOS>\t-1.5 .5 2e3 /* <trigger> 1 2 3".toList =
      (some (.rest l), .block) := by decide +kernel
  have hx : scaleLiteral "-1.5".toList (.written "-2".toList) none = .ok " 3.0".toList := by
    decide +kernel
  have hy : scaleLiteral ".5".toList (.written "-2".toList) none = .ok "-1.0".toList := by
    decide +kernel
  have hz : scaleLiteral "2e3".toList (.written "-2".toList) none = .ok "-4000".toList := by
    decide +kernel
  have hv : v.FromScaling := by
    intro t ht
    simp only [v, Triple.toList, List.mem_cons, List.not_mem_nil, or_false] at ht
    rcases ht with rfl | rfl | rfl
    · exact ⟨_, _, _, hx⟩
    · exact ⟨_, _, _, hy⟩
    · exact ⟨_, _, _, hz⟩
  obtain ⟨m, hm, hbefore, hafter, hvalues⟩ :=
    rebuilt_line_keeps_shape (Or.inl rfl) (by decide +kernel) hclass hv
  exact ⟨m, hm, hbefore, hafter, hvalues⟩

end ModelScale
