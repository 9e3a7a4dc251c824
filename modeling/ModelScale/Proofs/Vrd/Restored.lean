import ModelScale.Proofs.Decimal.ThereAndBack
import ModelScale.Proofs.Vrd.Compounding
import ModelScale.Proofs.Vrd.Positions

/-
# Going back restores the coordinates

A script is rescaled from the scale that it was authored at, and later it is rescaled to that scale
again.  The second rescale makes of it what a rescale of the original from this scale to the same
scale would (`rescale_twice`), so each coordinate has been stored at scale 1 and multiplied by the
scale once.  What this does to a number is the matter of `restored_of_scaled`; here the literals are
followed from the line they stand on into the baseline and back.  Main statements:

* `TripleLine.Reads.values_withValues`: what is read from a line that was rebuilt;
* `Baseline.stores_of_capture`, `Baseline.exists_rest_of_capture`: what is stored for a site;
* `rescale_back_restores`: every coordinate that belongs to a helper, after both rescales.

A helper with two rest positions has only the last of them stored, and both lines are written from
it; so each helper must have at most one.
-/

namespace ModelScale

open Text Baseline

/-! ## 1. What stands between the frame of a line -/

theorem Triple.toList_inj {v w : Triple} (h : v.toList = w.toList) : v = w := by
  obtain ⟨x, y, z⟩ := v
  obtain ⟨x', y', z'⟩ := w
  simpa [Triple.toList] using h

/-- Coordinates without blanks around them. -/
def Triple.trimmed (v : Triple) : Triple := ⟨trim v.x, trim v.y, trim v.z⟩

theorem ScaledText.exists_trim {t : Text} (h : ScaledText t) :
    ∃ b, t = b ++ trim t ∧ Blanks b ∧ isNumeral (trim t) = true := by
  obtain ⟨u, hu, rfl | rfl⟩ := h
  · rw [Numeral.trim_of_isNumeral hu]
    exact ⟨[], rfl, blanks_nil, hu⟩
  · rw [Numeral.trim_space_of_isNumeral hu]
    exact ⟨[' '], rfl, by simp [isBlank_space], hu⟩

/-- The words of coordinates as a rescale writes them. -/
theorem Triple.Scaled.words_joined {v : Triple} (h : v.Scaled) :
    words (' ' :: v.joined) = v.trimmed.toList := by
  obtain ⟨b, hx, hb, hnx⟩ := h.x.exists_trim
  obtain ⟨c, hy, hc, hny⟩ := h.y.exists_trim
  obtain ⟨d, hz, hd, hnz⟩ := h.z.exists_trim
  have hspace : ∀ {e : Text}, Blanks e → Blanks (' ' :: e) :=
    fun he => blanks_cons.mpr ⟨isBlank_space, he⟩
  have hjoined : ' ' :: v.joined = (' ' :: b) ++ (v.trimmed.x ++ ((' ' :: c) ++
      (v.trimmed.y ++ ((' ' :: d) ++ v.trimmed.z)))) := by
    unfold joined toList trimmed
    conv_lhs => rw [hx, hy, hz]
    simp [join]
  rw [hjoined]
  exact words_triple ⟨hnx, hny, hnz⟩ (hspace hb) (hspace hc) (by simp) (hspace hd) (by simp)

namespace TripleLine

/-- The line is made of the frame and, in between, of the coordinates as words. -/
structure Reads (l : TripleLine) (line : Text) : Prop where
  numerals : l.values.Numerals
  between : ∃ t, line = trimEnd l.before ++ (t ++ l.after) ∧ words t = l.values.toList

variable {l m : TripleLine} {line : Text}

theorem reads_of_readRest? (hu : Unbroken line) (h : readRest? line = some l) : l.Reads line := by
  induction line generalizing l with
  | nil => cases h
  | cons c t ih =>
    obtain ⟨hc, htu⟩ := unbroken_cons.mp hu
    rw [readRest?_cons, if_neg hc] at h
    cases hh : restHere? (c :: t) with
    | some l0 =>
      rw [hh] at h
      obtain rfl : l0 = l := Option.some.inj h
      obtain ⟨w, r, e, -, hr⟩ := restHere?_eq_some hh
      unfold readAfterTag? at hr
      obtain ⟨⟨v, s⟩, ht, hr⟩ := Option.bind_eq_some_iff.mp hr
      obtain ⟨after, ha, hr⟩ := Option.bind_eq_some_iff.mp hr
      obtain rfl := Option.some.inj hr
      obtain ⟨b, c', d, rfl, hv, hb, hc', hcne, hd, hdne, hs⟩ := takeTriple?_eq_some ht
      have hsu : Unbroken s := by
        rw [e] at hu
        simp only [unbroken_append, unbroken_cons] at hu
        exact hu.2.2.2.2.2.2.2.2
      rw [tailOfLine?_of_unbroken hsu hs] at ha
      obtain rfl := Option.some.inj ha
      refine ⟨hv, _, ?_, words_triple hv hb hc' hcne hd hdne⟩
      rw [e, trimEnd_append_blanks (blanks_takeWhile _),
        trimEnd_append_inked (w := ['>']) (by decide) (by simp)]
      simp
    | none =>
      rw [hh] at h
      obtain ⟨l0, hl0, rfl⟩ := Option.map_eq_some_iff.mp h
      obtain ⟨hv, u, rfl, hwords⟩ := ih htu hl0
      obtain ⟨q, -, -, -, hb, -⟩ := readRest?_eq_some htu hl0
      refine ⟨hv, u, ?_, hwords⟩
      rw [trimEnd_cons hb, hb]
      rfl

theorem reads_of_readOffset? (h : readOffset? line = some l) : l.Reads line := by
  unfold readOffset? at h
  obtain ⟨⟨u, v⟩, ht, h⟩ := Option.bind_eq_some_iff.mp h
  dsimp only at h
  split at h
  · obtain rfl := Option.some.inj h
    obtain ⟨c, d, e, hv, -, hc, hcne, hd, hdne⟩ := takeLastTriple?_eq_some ht
    refine ⟨hv, _, ?_, words_triple hv (blanks_trailingBlanks u) hc hcne hd hdne⟩
    dsimp only
    rw [trimEnd_trimEnd]
    conv_lhs => rw [e]
    conv_lhs => rw [← trimEnd_append_trailingBlanks u]
    simp
  · cases h

/-- Lines that are read with the same frame from the same text have the same coordinates. -/
theorem Reads.values_eq (hl : l.Reads line) (hm : m.Reads line) (hf : m.SameFrame l) :
    m.values = l.values := by
  obtain ⟨-, t, ht, hwt⟩ := hl
  obtain ⟨-, u, hu, hwu⟩ := hm
  rw [hf.1, hf.2, ht] at hu
  obtain rfl := List.append_cancel_right (List.append_cancel_left hu)
  exact Triple.toList_inj (hwu.symm.trans hwt)

/-- **What is read from a line that was rebuilt** is what was written, blanks aside. -/
theorem Reads.values_withValues {v : Triple} (hm : m.Reads (l.withValues v)) (hf : m.SameFrame l)
    (hv : v.Scaled) : m.values = v.trimmed := by
  obtain ⟨-, t, ht, hwords⟩ := hm
  rw [withValues_eq, hf.1, hf.2] at ht
  obtain rfl := List.append_cancel_right (List.append_cancel_left ht)
  exact Triple.toList_inj (hwords.symm.trans hv.words_joined)

/-- A line that is rebuilt stays one line. -/
theorem Reads.unbroken_withValues {v : Triple} (hl : l.Reads line) (hu : Unbroken line)
    (hv : v.Scaled) : Unbroken (l.withValues v) := by
  obtain ⟨-, t, rfl, -⟩ := hl
  rw [unbroken_append, unbroken_append] at hu
  rw [withValues_eq, unbroken_append, unbroken_append]
  exact ⟨hu.1, hv.coordinates.2, hu.2.2⟩

end TripleLine

/-! ## 2. The sites of a script -/

theorem getElem?_classifyAll (g : Region) (lines : List Text) (i : Nat) :
    (classifyAll g lines)[i]? =
      lines[i]?.map fun line => (classify (regionOf g (lines.take i)) line).1 := by
  induction lines generalizing g i with
  | nil => rfl
  | cons line lines ih =>
    cases i with
    | zero => rfl
    | succ i =>
      rw [classifyAll_cons, List.getElem?_cons_succ, List.getElem?_cons_succ, ih]
      rfl

/-- Each site is made from the shape of its line. -/
theorem exists_shape_of_survey {lines : List Text} {i : Nat} {line : Text} {site : Site}
    (hline : lines[i]? = some line) (hs : (survey lines)[i]? = some site) :
    ∃ g owner earlier, site = siteOf owner earlier (classify g line).1 := by
  rw [survey, getElem?_sitesFrom, getElem?_classifyAll, hline, Option.map_some, Option.map_some] at hs
  exact ⟨_, _, _, (Option.some.inj hs).symm⟩

/-- Coordinates of a site are those that one of the readers finds on its line. -/
theorem read?_of_survey {lines : List Text} {i : Nat} {line : Text} {site : Site} {l : TripleLine}
    (hline : lines[i]? = some line) (hs : (survey lines)[i]? = some site)
    (hl : site.line? = some l) :
    TripleLine.readRest? line = some l ∨ TripleLine.readOffset? line = some l := by
  obtain ⟨g, owner, earlier, rfl⟩ := exists_shape_of_survey hline hs
  generalize hc : (classify g line).1 = shape at hl
  rcases shape with _ | (_ | m | m | _ | _ | _) <;> cases hl
  · obtain ⟨-, -, hlive⟩ := classify_eq_live (Prod.ext hc rfl) trivial
    exact Or.inl (live?_eq_rest.mp hlive).2
  · obtain ⟨-, -, hlive⟩ := classify_eq_live (Prod.ext hc rfl) trivial
    exact Or.inr (live?_eq_offset.mp hlive).2.2

/-- The line of a site is read as the site says. -/
theorem reads_of_survey {lines : List Text} {i : Nat} {line : Text} {site : Site} {l : TripleLine}
    (hline : lines[i]? = some line) (hu : Unbroken line) (hs : (survey lines)[i]? = some site)
    (hl : site.line? = some l) : l.Reads line :=
  (read?_of_survey hline hs hl).elim (TripleLine.reads_of_readRest? hu)
    TripleLine.reads_of_readOffset?

/-- Lines behind a script do not change its sites. -/
theorem getElem?_survey_append {lines tail : List Text} {i : Nat} (hi : i < lines.length) :
    (survey (lines ++ tail))[i]? = (survey lines)[i]? := by
  have hlen : i < (classifyAll .code lines).length := by rwa [classifyAll_length]
  rw [survey, survey, getElem?_sitesFrom, getElem?_sitesFrom, classifyAll_append,
    List.getElem?_append_left hlen, List.take_append_of_le_length hlen.le]

/-- The coordinates on a line, if they belong to a helper. -/
def Site.owned? : Site → Option Triple
  | .rest (some _) l | .offset (some _) _ l => some l.values
  | _ => none

theorem Site.exists_line_of_owned? {site : Site} {u : Triple} (h : site.owned? = some u) :
    ∃ l, site.line? = some l ∧ l.values = u := by
  rcases site with _ | ⟨_ | helper, l⟩ | ⟨_ | helper, ordinal, l⟩ | _
  all_goals first | (cases h; done) | exact ⟨l, rfl, Option.some.inj h⟩

/-- The coordinates on a line of a script that belong to a helper. -/
def coordinatesAt (lines : List Text) (i : Nat) : Option Triple :=
  (survey lines)[i]?.bind Site.owned?

/-- No helper has two rest positions. -/
def OneRestEach (lines : List Text) : Prop :=
  ∀ (i j : Nat) (helper : Text) (l m : TripleLine),
    (survey lines)[i]? = some (.rest (some helper) l) →
    (survey lines)[j]? = some (.rest (some helper) m) → i = j

/-! ## 3. What is stored for a site -/

namespace Baseline

/-- The offset of a site is stored in its place. -/
def Stores (settings : Settings) (previous : Quantity) (b : Baseline) : Site → Prop
  | .offset (some helper) k l => ∃ v, (b.sequence helper)[k]? = some v ∧
      normalizeTriple settings previous l.values = .ok v
  | _ => True

variable {settings : Settings} {previous : Quantity}

/-- What is stored stays in its place when sequences grow. -/
theorem Stores.mono {b c : Baseline} {site : Site} (h : b.Stores settings previous site)
    (hbc : ∀ helper, b.sequence helper <+: c.sequence helper) :
    c.Stores settings previous site := by
  cases site with
  | offset owner k l =>
    cases owner with
    | none => trivial
    | some helper =>
      obtain ⟨v, hv, hn⟩ := h
      obtain ⟨rest, hrest⟩ := hbc helper
      have hlt := (List.getElem?_eq_some_iff.mp hv).1
      exact ⟨v, by rw [← hrest, List.getElem?_append_left hlt, hv], hn⟩
  | other => trivial
  | rest owner l => trivial
  | unreadable fault => trivial

/-- One site: its offset is stored, and sequences grow at their end. -/
theorem captureSite_stores {b c : Baseline} {owner : Option Text} {earlier : List Text}
    {shape : Option VrdShape} (hb : b.Counts earlier)
    (h : captureSite settings previous b (siteOf owner earlier shape) = .ok c) :
    c.Stores settings previous (siteOf owner earlier shape) ∧
      ∀ helper, b.sequence helper <+: c.sequence helper := by
  have hsame : ∀ {e : Except Fault Baseline}, e = .ok c → e = .ok b →
      ∀ helper, b.sequence helper <+: c.sequence helper := by
    rintro _ rfl hcb helper
    obtain rfl := Except.ok.inj hcb
    exact List.prefix_refl _
  rcases shape with _ | (_ | l | l | _ | _ | _)
  · exact ⟨trivial, hsame h rfl⟩
  · exact ⟨trivial, hsame h rfl⟩
  · cases owner with
    | none => exact ⟨trivial, hsame h rfl⟩
    | some helper =>
      obtain ⟨v, -, rfl⟩ := map_eq_ok.mp h
      exact ⟨trivial, fun _ => List.prefix_refl _⟩
  · cases owner with
    | none => exact ⟨trivial, hsame h rfl⟩
    | some helper =>
      obtain ⟨v, hv, rfl⟩ := map_eq_ok.mp h
      refine ⟨⟨v, ?_, hv⟩, prefix_sequence_addOffset b helper v⟩
      show ((b.addOffset helper v).sequence helper)[earlier.count helper]? = some v
      rw [sequence_addOffset, if_pos rfl, ← hb helper, List.getElem?_concat_length]
  · exact ⟨trivial, hsame h rfl⟩
  · exact ⟨trivial, hsame h rfl⟩
  · cases h

theorem captureSites_stores {b c : Baseline} {owner : Option Text} {earlier : List Text}
    {shapes : List (Option VrdShape)} (hb : b.Counts earlier)
    (h : (sitesFrom owner earlier shapes).foldlM (captureSite settings previous) b = .ok c) :
    (∀ site ∈ sitesFrom owner earlier shapes, c.Stores settings previous site) ∧
      ∀ helper, b.sequence helper <+: c.sequence helper := by
  induction shapes generalizing b owner earlier with
  | nil =>
    obtain rfl := pure_eq_ok.mp h
    exact ⟨fun _ hs => (nomatch hs), fun _ => List.prefix_refl _⟩
  | cons shape shapes ih =>
    rw [sitesFrom_cons, List.foldlM_cons] at h
    obtain ⟨d, hd, h⟩ := bind_eq_ok.mp h
    obtain ⟨hstores, hgrow⟩ := captureSite_stores hb hd
    obtain ⟨ihs, ihg⟩ := ih (captureSite_spec hb hd).2.2 h
    refine ⟨?_, fun helper => (hgrow helper).trans (ihg helper)⟩
    rw [sitesFrom_cons]
    exact List.forall_mem_cons.mpr ⟨hstores.mono ihg, ihs⟩

/-- **The offsets of a script are stored in their places.** -/
theorem stores_of_capture {lines : List Text} {b : Baseline}
    (h : capture settings lines previous = .ok b) :
    ∀ site ∈ survey lines, b.Stores settings previous site :=
  (@captureSites_stores _ _ ∅ _ _ _ _ (fun _ => rfl) h).1

/-- **A stored rest position is that of a site of its helper.** -/
theorem exists_rest_of_capture {lines : List Text} {b : Baseline}
    (h : capture settings lines previous = .ok b) {helper : Text} {v : Triple}
    (hv : b.rest.get? helper = some v) :
    ∃ l, Site.rest (some helper) l ∈ survey lines ∧
      normalizeTriple settings previous l.values = .ok v := by
  let P (b : Baseline) : Prop := ∀ helper v, b.rest.get? helper = some v →
    ∃ l, Site.rest (some helper) l ∈ survey lines ∧
      normalizeTriple settings previous l.values = .ok v
  have hstep : ∀ site ∈ survey lines, ∀ d e, P d →
      captureSite settings previous d site = .ok e → P e := by
    intro site hs d e hd he
    rcases captureSite_cases he with
      rfl | ⟨k, l, u, rfl, hu, rfl⟩ | ⟨k, ordinal, l, u, rfl, -, rfl⟩
    · exact hd
    · intro helper v hv
      rw [addRest, Roster.get?_put] at hv
      split at hv
      · rename_i hk
        subst hk
        obtain rfl := Option.some.inj hv
        exact ⟨l, hs, hu⟩
      · exact hd helper v hv
    · exact hd
  have hempty : P ∅ := by
    intro helper v hv
    cases hv
  exact foldlM_induction hstep hempty h helper v hv

/-- The coordinates of every site that belongs to a helper are brought to scale 1. -/
theorem exists_normalized_of_capture {lines : List Text} {b : Baseline}
    (h : capture settings lines previous = .ok b) {site : Site} (hs : site ∈ survey lines)
    {u : Triple} (hu : site.owned? = some u) :
    ∃ v, normalizeTriple settings previous u = .ok v := by
  obtain ⟨d, e, he⟩ := foldlM_step_of_eq_ok h hs
  rcases site with _ | ⟨_ | helper, l⟩ | ⟨_ | helper, ordinal, l⟩ | _
  all_goals first | (cases hu; done) | skip
  · obtain rfl := Option.some.inj hu
    obtain ⟨v, hv, -⟩ := map_eq_ok.mp he
    exact ⟨v, hv⟩
  · obtain rfl := Option.some.inj hu
    obtain ⟨v, hv, -⟩ := map_eq_ok.mp he
    exact ⟨v, hv⟩

end Baseline

/-! ## 4. Three coordinates -/

/-- What has become of three coordinates. -/
structure Triple.Restored (p : Decimal) (u w : Triple) : Prop where
  x : ModelScale.Restored p u.x w.x
  y : ModelScale.Restored p u.y w.y
  z : ModelScale.Restored p u.z w.z

/-- Coordinates that are left alone. -/
theorem Triple.Restored.refl {p : Decimal} {previous : Quantity} {u v : Triple}
    (hu : u.Numerals) (hn : normalizeTriple {} previous u = .ok v) : u.Restored p u := by
  have hread : ∀ {t s : Text}, isNumeral t = true → normalizeLiteral t previous 6 = .ok s →
      ModelScale.Restored p t t := by
    intro t s ht hs
    obtain ⟨-, x, -, -, -, -, hx, -⟩ := normalizeLiteral_steps 6 hs
    rw [Numeral.trim_of_isNumeral ht] at hx
    exact .refl hx
  obtain ⟨hx, hy, hz⟩ := normalizeTriple_steps hn
  exact ⟨hread hu.1 hx, hread hu.2.1 hy, hread hu.2.2 hz⟩

/-- Coordinates that are stored at scale 1 and scaled back. -/
theorem Triple.restored_of_scaled {p : Decimal} {previous : Quantity} {u v w : Triple}
    (hu : u.Numerals) (hp : previous.value = .ok p) (hn : normalizeTriple {} previous u = .ok v)
    (hs : scaleTriple v p = .ok w) : u.Restored p w.trimmed := by
  obtain ⟨hx, hy, hz⟩ := normalizeTriple_steps hn
  obtain ⟨hx', hy', hz'⟩ := scaleTriple_steps hs
  exact ⟨ModelScale.restored_of_scaled hu.1 hp hx hx',
    ModelScale.restored_of_scaled hu.2.1 hp hy hy', ModelScale.restored_of_scaled hu.2.2 hp hz hz'⟩

/-! ## 5. All lines -/

theorem exists_sameFrame_at {s t : List Site} (h : List.Forall₂ Site.SameFrame s t) {i : Nat}
    {site : Site} (ht : t[i]? = some site) : ∃ site', s[i]? = some site' ∧ site'.SameFrame site := by
  induction h generalizing i with
  | nil => cases ht
  | @cons a b s t hab _ ih =>
    cases i with
    | zero =>
      obtain rfl := Option.some.inj ht
      exact ⟨a, rfl, hab⟩
    | succ i => exact ih ht

/-- A helper with a stored offset is known. -/
theorem Baseline.contains_of_sequence {b : Baseline} {helper : Text} {k : Nat} {v : Triple}
    (h : (b.sequence helper)[k]? = some v) : b.contains helper = true := by
  unfold sequence at h
  cases ho : b.offsets.get? helper with
  | none => rw [ho] at h; cases h
  | some vs =>
    rw [contains, Roster.contains_eq_true.mpr ⟨vs, ho⟩, Bool.or_true]

section Written

variable {lines : List Text} {previous : Quantity} {p : Decimal} {b : Baseline}
  {written : List WrittenLine}

/-- A line that was rebuilt from what is stored for its site. -/
theorem restored_of_rebuilt (hu : ∀ line ∈ lines, Unbroken line) {out : List Text} {site site' : Site}
    {l m : TripleLine} {v t : Triple} {i : Nat} (hp : previous.value = .ok p)
    (hs : (survey lines)[i]? = some site) (hl : site.line? = some l)
    (hs' : (survey out)[i]? = some site') (hm : site'.line? = some m)
    (hout : out[i]? = some (l.withValues t)) (hf : m.SameFrame l)
    (hn : normalizeTriple {} previous l.values = .ok v) (ht : scaleTriple v p = .ok t) :
    l.values.Restored p m.values := by
  obtain ⟨line, hline⟩ := exists_text hs
  have hlu := hu line (List.mem_of_getElem? hline)
  have hreads := reads_of_survey hline hlu hs hl
  have hscaled := scaleTriple_eq_ok ht
  have hreads' := reads_of_survey hout (hreads.unbroken_withValues hlu hscaled) hs' hm
  rw [hreads'.values_withValues hf hscaled]
  exact Triple.restored_of_scaled hreads.numerals hp hn ht

/-- **A script that is captured at a scale and written at it** has its coordinates restored. -/
theorem restored_of_writeSites (hu : ∀ line ∈ lines, Unbroken line) (hone : OneRestEach lines)
    (hp : previous.value = .ok p) (hcap : Baseline.capture {} lines previous = .ok b)
    (hw : writeSites b p 1 (lines.zip (survey lines)) = .ok written) {i : Nat} {u : Triple}
    (h : coordinatesAt lines i = some u) :
    ∃ w, coordinatesAt (written.map (·.text)) i = some w ∧ u.Restored p w := by
  obtain ⟨site, hs, howned⟩ := Option.bind_eq_some_iff.mp h
  obtain ⟨line, hline⟩ := exists_text hs
  have hmem := List.mem_of_getElem? hs
  obtain ⟨site', hs', hframe⟩ :=
    exists_sameFrame_at ((recasts_of_writeSites hw).survey_sameFrame hu none []).1 hs
  obtain ⟨w, hout, hwrite⟩ := exists_written_line hw hline hs
  rcases site with _ | ⟨_ | helper, l⟩ | ⟨_ | helper, k, l⟩ | _
  all_goals first | (cases howned; done) | skip
  · -- a rest position, the only one of its helper
    obtain rfl := Option.some.inj howned
    obtain ⟨v, hv⟩ := Roster.contains_eq_true.mp (Baseline.covers_of_capture hcap _ hmem)
    obtain ⟨l', hl', hn⟩ := Baseline.exists_rest_of_capture hcap hv
    obtain ⟨j, hj⟩ := List.getElem?_of_mem hl'
    obtain rfl := hone i j helper l l' hs hj
    rw [hs] at hj
    obtain ⟨-, rfl⟩ := Site.rest.inj (Option.some.inj hj)
    obtain ⟨t, ht, htext⟩ := writeSite_rest hv hwrite
    cases site' with
    | rest owner m =>
      obtain ⟨rfl, hlm⟩ := hframe
      rw [htext] at hout
      exact ⟨m.values, Option.bind_eq_some_iff.mpr ⟨_, hs', rfl⟩,
        restored_of_rebuilt hu hp hs rfl hs' rfl hout hlm hn ht⟩
    | _ => cases hframe
  · -- an offset, stored in its place
    obtain rfl := Option.some.inj howned
    obtain ⟨v, hv, hn⟩ := Baseline.stores_of_capture hcap _ hmem
    obtain ⟨v', hv', hcase⟩ := writeSite_offset (Baseline.contains_of_sequence hv) hwrite
    rw [hv] at hv'
    obtain rfl := Option.some.inj hv'
    cases site' with
    | offset owner k' m =>
      obtain ⟨rfl, rfl, hlm⟩ := hframe
      refine ⟨m.values, Option.bind_eq_some_iff.mpr ⟨_, hs', rfl⟩, ?_⟩
      rcases hcase with ⟨-, htext⟩ | ⟨-, t, ht, htext⟩
      · rw [htext] at hout
        have hlu := hu line (List.mem_of_getElem? hline)
        have hreads := reads_of_survey hline hlu hs rfl
        rw [hreads.values_eq (reads_of_survey hout hlu hs' rfl) hlm]
        exact .refl hreads.numerals hn
      · rw [htext] at hout
        exact restored_of_rebuilt hu hp hs rfl hs' rfl hout hlm hn ht
    | _ => cases hframe

end Written

/-- **Going back restores the coordinates.**  After a rescale from the scale `p` to any other, and
one to `p` again, every coordinate that belongs to a helper is as near to what was authored as its
fractional digits allow; and if `p` is 1 it is the same number. -/
theorem rescale_back_restores {lines : List Text} (hu : ∀ line ∈ lines, Unbroken line)
    (hmarker : Baseline.hasMarker {} lines = false) (hone : OneRestEach lines)
    {new scale later : Quantity} {p : Decimal} (hp : scale.value = .ok p) {m n : RescaledBones}
    (hm : rescaleBones {} lines new scale = .ok m)
    (hn : rescaleBones {} m.lines scale later = .ok n) {i : Nat} {u : Triple}
    (h : coordinatesAt lines i = some u) :
    ∃ w, coordinatesAt n.lines i = some w ∧ u.Restored p w := by
  have hnone : stored {} lines = .ok none := by
    unfold stored
    rw [hmarker]
    rfl
  obtain ⟨t, ht, hsame⟩ := rescale_twice hu hm hn
  rw [← hsame.lines]
  obtain ⟨b, hcap, ⟨-, r, hr, rfl⟩ | ⟨-, r, hr, rfl⟩⟩ := (rescaleBones_of_none hnone).mp ht
  · -- no rest position: the script is what it was
    dsimp only
    rw [writeBones_empty hr]
    obtain ⟨site, hs, howned⟩ := Option.bind_eq_some_iff.mp h
    obtain ⟨line, hline⟩ := exists_text hs
    obtain ⟨v, hv⟩ := exists_normalized_of_capture hcap (List.mem_of_getElem? hs) howned
    obtain ⟨l, hl, rfl⟩ := site.exists_line_of_owned? howned
    have hreads := reads_of_survey hline (hu line (List.mem_of_getElem? hline)) hs hl
    exact ⟨l.values, h, .refl hreads.numerals hv⟩
  · obtain ⟨d, written, hd, hw, rfl⟩ := writeBones_eq_ok.mp hr
    rw [hp] at hd
    obtain rfl := Except.ok.inj hd
    obtain ⟨w, hw', hrestored⟩ := restored_of_writeSites hu hone hp hcap hw h
    refine ⟨w, ?_, hrestored⟩
    have hi : i < (written.map (·.text)).length := by
      obtain ⟨site, hs, -⟩ := Option.bind_eq_some_iff.mp hw'
      obtain ⟨line, hline⟩ := exists_text hs
      exact (List.getElem?_eq_some_iff.mp hline).1
    show coordinatesAt (appendMarker {} (written.map (·.text)) b) i = some w
    rw [appendMarker, List.append_assoc, coordinatesAt, getElem?_survey_append hi]
    exact hw'

/-- The reciprocal of 3 and the third of 1.25 are far from the smallest numbers. -/
theorem normalThroughout_third : NormalThroughout ⟨false, 125, -2⟩ ⟨false, 3, 0⟩ 6 := by
  have hf : inverse ⟨false, 3, 0⟩ =
      .ok ⟨false, 33333333333333333333333333333333333333333333333333, -50⟩ := by decide +kernel
  have hc : scaleDecimal ⟨false, 125, -2⟩
      ⟨false, 33333333333333333333333333333333333333333333333333, -50⟩ (-(6 : Nat)) =
      .ok ⟨false, 416667, -6⟩ := by decide +kernel
  have hfar : ∀ q : ℚ, 1 / 10 ≤ q → InRange q := by
    intro q hq
    have hsmall : (10 : ℚ) ^ Context.minExponent ≤ 10 ^ (-1 : ℤ) :=
      zpow_le_zpow_right₀ (by norm_num) (by decide)
    rw [InRange, abs_of_nonneg (by linarith)]
    exact Or.inr (hsmall.trans (by norm_num; linarith))
  refine ⟨hfar _ ?_, fun f h => hfar _ ?_, fun f c h hs => hfar _ ?_⟩
  · norm_num [Decimal.toRat, Decimal.size]
  · rw [hf] at h
    obtain rfl := Except.ok.inj h
    norm_num [Decimal.toRat, Decimal.size]
  · rw [hf] at h
    obtain rfl := Except.ok.inj h
    rw [hc] at hs
    obtain rfl := Except.ok.inj hs
    norm_num [Decimal.toRat, Decimal.size]

/-- A rest position that was authored at scale 3, where a third of a number has no end of digits: it
comes back within two units of its sixth place. -/
theorem rescale_back_restores_thirds :
    let lines : List Text := ["<helper> h".toList, "<basepos> 1.25 0 -7".toList,
      "<trigger> 90 0 1e-2 0".toList]
    ∃ m n w y, rescaleBones {} lines (.written "2".toList) (.written "3".toList) = .ok m ∧
      rescaleBones {} m.lines (.written "3".toList) (.written "2".toList) = .ok n ∧
      coordinatesAt n.lines 1 = some w ∧ Decimal.read w.x = .ok y ∧
      |y.toRat - 5 / 4| ≤ 2 * 10 ^ (-6 : ℤ) + 2 * 10 ^ (-49 : ℤ) * (5 / 4 + 3 * 10 ^ (-6 : ℤ)) := by
  intro lines
  let p : Decimal := ⟨false, 3, 0⟩
  let x : Decimal := ⟨false, 125, -2⟩
  have hu : ∀ line ∈ lines, Unbroken line := by decide +kernel
  have hone : OneRestEach lines := by
    have hs : survey lines = [.other,
        .rest (some "h".toList) ⟨"<basepos> ".toList, ⟨"1.25".toList, "0".toList, "-7".toList⟩, []⟩,
        .offset (some "h".toList) 0
          ⟨"<trigger> 90".toList, ⟨"0".toList, "1e-2".toList, "0".toList⟩, []⟩] := by
      decide +kernel
    intro i j helper l m hi hj
    rw [hs] at hi hj
    rcases i with _ | _ | _ | i <;> rcases j with _ | _ | _ | j <;> simp at hi hj ⊢
  have hrun : (rescaleBones {} lines (.written "2".toList) (.written "3".toList)).toOption.isSome := by
    decide +kernel
  obtain ⟨m, hm⟩ := Option.isSome_iff_exists.mp hrun
  have hm := toOption_eq_some.mp hm
  have hagain : ((rescaleBones {} lines (.written "2".toList) (.written "3".toList)).bind fun m =>
      rescaleBones {} m.lines (.written "3".toList) (.written "2".toList)).toOption.isSome := by
    decide +kernel
  rw [hm] at hagain
  obtain ⟨n, hn⟩ := Option.isSome_iff_exists.mp hagain
  have hn : rescaleBones {} m.lines (.written "3".toList) (.written "2".toList) = .ok n :=
    toOption_eq_some.mp hn
  have hat : coordinatesAt lines 1 = some ⟨"1.25".toList, "0".toList, "-7".toList⟩ := by
    decide +kernel
  have hp : (Quantity.written "3".toList).value = .ok p := by decide +kernel
  obtain ⟨w, hw, ⟨x', hx', hrest⟩, -, -⟩ :=
    rescale_back_restores hu (by decide +kernel) hone hp hm hn hat
  have hx : Decimal.read "1.25".toList = .ok x := by decide +kernel
  rw [hx] at hx'
  obtain rfl := Except.ok.inj hx'
  have hplaces : storedPlaces x = 6 := by decide
  rw [hplaces] at hrest
  obtain ⟨y, hy, hbound, -⟩ := hrest (by unfold Representable; decide)
  have hxv : x.toRat = 5 / 4 := by norm_num [x, Decimal.toRat, Decimal.size]
  have hpv : p.toRat = 3 := by norm_num [p, Decimal.toRat, Decimal.size]
  have hnear := hbound normalThroughout_third
  rw [hxv, hpv] at hnear
  refine ⟨m, n, w, y, hm, hn, hw, hy, hnear.trans_eq ?_⟩
  norm_num

end ModelScale
