import ModelScale.Proofs.Qc.Directive

/-
# Where the directive is, and what it says

A rescale sets the scale directive and then goes over the lines again, for eyeballs and for the
model name.  The next rescale believes the first live directive that it finds, so this has to be the
one that was set, on the same line, with the same number.  Main statements:

* `placeDirective_of_some`, `placeDirective_of_none`: after a placement the first live directive is
  the one that was placed (`directs_placeDirective`);
* `placeDirective_located`: where that is (`PlacedIn`), and that it gives the scale;
* `Directs.of_spared`: a pass that keeps first words and comments, and that spares directives with a
  number, leaves it the first;
* `scaleInForce_of_directs`: the scale in force is then the number that was asked for.
-/

namespace ModelScale

open Text Comment Numeral

/-! ## 1. The directive of a scale -/

/-- The first live directive is on a line and gives a scale. -/
def Directs (lines : List Text) (i : Nat) (scale : Decimal) : Prop :=
  ∃ d, firstDirective? lines = some (i, d) ∧ d.token = compact scale

/-- An accepted scale can be read back: it is within reach, and not as good as zero. -/
structure Acceptable (scale : Decimal) : Prop where
  inReach : scale.inReach = true
  exists_size : ∃ size, Context.standard.abs scale = .ok size ∧
    size.isLess ({} : Settings).zeroBoundary = false

theorem acceptScale_eq_ok {answer : Text} {previous : Decimal} {request : Request}
    (h : acceptScale {} answer previous = .ok request) :
    request.previous = previous ∧ Acceptable request.new ∧
      Decimal.read ((trim answer).map fun c => if c = ',' then '.' else c) = .ok request.new := by
  unfold acceptScale at h
  obtain ⟨new, hread, h⟩ := bind_eq_ok.mp h
  obtain ⟨size, hsize, h⟩ := bind_eq_ok.mp h
  have hread := mapError_eq_ok.mp hread
  have hsize := mapError_eq_ok.mp hsize
  split at h
  · cases h
  · rename_i hlt
    obtain ⟨change, -, h⟩ := bind_eq_ok.mp h
    split at h
    · cases h
    · obtain rfl := pure_eq_ok.mp h
      obtain ⟨n, -, hreach, rfl⟩ := Decimal.read_eq_ok_iff.mp hread
      exact ⟨rfl, ⟨hreach, size, hsize, by simpa using hlt⟩, hread⟩

/-- **The scale in force is the number that was asked for.** -/
theorem scaleInForce_of_directs {lines : List Text} {i : Nat} {scale : Decimal}
    (h : Directs lines i scale) (ha : Acceptable scale) (hu : ∀ line ∈ lines, Unbroken line) :
    ∃ d, scaleInForce {} lines = .ok d ∧ d.sameValue scale = true := by
  obtain ⟨d, hd, htoken⟩ := h
  obtain ⟨size, hsize, hlt⟩ := ha.exists_size
  obtain ⟨e, hread, he⟩ := Decimal.read_compact ha.inReach
  obtain ⟨pre, line, post, rfl, -, -, -, hr⟩ := firstLive?_eq_some_iff.mp hd
  obtain ⟨r, -, -, -, -, -, hv⟩ := (Directive.read?_eq_some_iff (hu line (by simp))).mp hr
  have hvalue : d.value = some e := by
    rw [← hv, htoken, hread]
    rfl
  -- the magnitudes of both spellings are one number
  have habs := Context.abs_congr (by decide : 0 < Context.standard.precision) he
  rw [hsize] at habs
  obtain ⟨size', hsize', hs⟩ := exceptMap_eq_ok.mp habs
  have hless : size'.isLess ({} : Settings).zeroBoundary = false := by
    rw [← Bool.not_eq_true, Decimal.isLess_iff, hs, ← Decimal.isLess_iff, hlt]
    simp
  refine ⟨e, ?_, Decimal.sameValue_iff.mpr he⟩
  unfold scaleInForce
  rw [hd, Option.bind_some, hvalue]
  dsimp only
  rw [hsize']
  simp only [bind, Except.bind, hless]
  rfl

/-! ## 2. Placing it -/

theorem Inked.compact (scale : Decimal) : Inked (compact scale) :=
  inked_of_isNumeral (Decimal.isNumeral_compact scale)

theorem unbroken_compact (scale : Decimal) : Unbroken (compact scale) := by
  intro h
  exact absurd (Inked.compact scale _ h) (by decide)

/-- A line that is written in code behind lines without a directive holds the first one. -/
theorem directs_append_cons {pre post : List Text} {line : Text} {scale : Decimal} {d : Directive}
    (hs : Silent Directive.read? .code pre) (hi : inert (behind .code pre) line = false)
    (hr : Directive.read? line = some d) (ht : d.token = compact scale) :
    Directs (pre ++ line :: post) pre.length scale :=
  ⟨d, firstLive?_append_cons hs hi hr, ht⟩

/-- **An existing directive is replaced on its line.** -/
theorem placeDirective_of_some {lines : List Text} (hu : ∀ line ∈ lines, Unbroken line)
    {i : Nat} {d : Directive} (h : firstDirective? lines = some (i, d)) (scale : Decimal) :
    Directs (placeDirective {} lines scale).lines i scale ∧
      (∀ line ∈ (placeDirective {} lines scale).lines, Unbroken line) ∧
      ((∀ line ∈ lines, Faithful line) →
        ∀ line ∈ (placeDirective {} lines scale).lines, Faithful line) ∧
      (placeDirective {} lines scale).placement = .replaced ∧
      (placeDirective {} lines scale).index = i ∧
      (placeDirective {} lines scale).lines.length = lines.length := by
  unfold placeDirective
  rw [h]
  dsimp only
  obtain ⟨pre, line, post, rfl, rfl, hs, hi, hr⟩ := firstLive?_eq_some_iff.mp h
  have hn := Decimal.isNumeral_compact scale
  obtain ⟨⟨e, he, het⟩, heu, hei, hef⟩ := Directive.read?_setArgument (hu line (by simp)) hr
    (Inked.compact scale) (ne_nil_of_isNumeral hn) (unbroken_compact scale) (plain_of_isNumeral hn)
  have hset : (pre ++ line :: post).set pre.length (d.setArgument (compact scale)) =
      pre ++ d.setArgument (compact scale) :: post := by simp
  rw [hset]
  have hmem : ∀ {P : Text → Prop}, (∀ l ∈ pre ++ line :: post, P l) → (P line → P (d.setArgument
      (compact scale))) → ∀ l ∈ pre ++ d.setArgument (compact scale) :: post, P l := by
    intro P hl hd l hm
    rw [List.forall_mem_append, List.forall_mem_cons] at hl
    rcases List.mem_append.mp hm with hm | hm
    · exact hl.1 l hm
    · rcases List.mem_cons.mp hm with rfl | hm
      · exact hd hl.2.1
      · exact hl.2.2 l hm
  exact ⟨directs_append_cons hs (by rw [hei, hi]) he het, hmem hu fun _ => heu,
    fun hf => hmem hf hef, rfl, rfl, by simp⟩

/-- The line of a new directive. -/
def newDirective (scale : Decimal) : Text :=
  ({} : Settings).scaleKeyword ++ ' ' :: compact scale

theorem unbroken_newDirective (scale : Decimal) : Unbroken (newDirective scale) := by
  unfold newDirective
  rw [unbroken_append, unbroken_cons]
  exact ⟨by decide, by decide, unbroken_compact scale⟩

theorem faithful_newDirective (scale : Decimal) : Faithful (newDirective scale) := by
  unfold newDirective
  rw [faithful_plain_append (by decide), faithful_cons (by decide)]
  exact faithful_of_plain (plain_of_isNumeral (Decimal.isNumeral_compact scale))

/-- A new directive in code, behind lines without one, is the first. -/
theorem directs_newDirective {pre : List Text} (post : List Text) (scale : Decimal)
    (hs : Silent Directive.read? .code pre) (hb : behind .code pre = .code) :
    Directs (pre ++ newDirective scale :: post) pre.length scale := by
  have hu := unbroken_newDirective scale
  have he : newDirective scale = [] ++ (Directive.spelling ++ ' ' :: (compact scale ++ [])) := by
    rw [List.append_nil, List.nil_append]
    rfl
  have hk : Directive.spelling.map foldCase = Directive.spelling := by decide
  rw [he] at hu
  have hr := Directive.read?_written blanks_nil hk (Inked.compact scale)
    (ne_nil_of_isNumeral (Decimal.isNumeral_compact scale)) atGap_nil hu
  rw [he]
  refine directs_append_cons hs ?_ hr rfl
  rw [hb, Directive.inert_written blanks_nil hk]
  rfl

/-- The line is the first one with content: it is live and not blank, and the live lines in front of
it are blank. -/
structure FirstContent (pre : List Text) (line : Text) : Prop where
  live : inert (behind .code pre) line = false
  content : ¬ Blanks line
  front : ∀ above, some above ∈ liveLines .code pre → Blanks above

theorem FirstContent.code {pre : List Text} {line : Text} (h : FirstContent pre line) :
    behind .code pre = .code := by
  cases hg : behind .code pre with
  | code => rfl
  | block =>
    have hlive := h.live
    rw [hg] at hlive
    cases hlive

/-- A search for content passes over blank lines. -/
theorem silent_content_iff {lines : List Text} :
    Silent (fun line => if isEmptyLine line then none else some ()) .code lines ↔
      ∀ line, some line ∈ liveLines .code lines → Blanks line := by
  constructor
  · intro h line hl
    have hnone := h (some line) hl
    rw [Option.bind_some] at hnone
    split at hnone
    · exact blanks_iff.mp ‹_›
    · cases hnone
  · intro h line? hl
    cases line? with
    | none => rfl
    | some line => exact if_pos (blanks_iff.mpr (h line hl))

theorem exists_firstContent {lines : List Text} {i : Nat} (h : firstContent? lines = some i) :
    ∃ pre line post, lines = pre ++ line :: post ∧ pre.length = i ∧ FirstContent pre line := by
  obtain ⟨⟨j, u⟩, hj, rfl⟩ := Option.map_eq_some_iff.mp h
  obtain ⟨pre, line, post, rfl, rfl, hs, hi, hr⟩ := firstLive?_eq_some_iff.mp hj
  refine ⟨pre, line, post, rfl, rfl, hi, fun hb => ?_, silent_content_iff.mp hs⟩
  rw [if_pos (blanks_iff.mpr hb)] at hr
  cases hr

theorem blanks_of_firstContent?_eq_none {lines : List Text} (h : firstContent? lines = none) :
    ∀ line, some line ∈ liveLines .code lines → Blanks line :=
  silent_content_iff.mp (firstLive?_eq_none_iff.mp (Option.map_eq_none_iff.mp h))

theorem insertIdx_length_append {α : Type} (pre post : List α) (a : α) :
    (pre ++ post).insertIdx pre.length a = pre ++ a :: post := by
  induction pre with
  | nil => rfl
  | cons b pre ih =>
    rw [List.cons_append, List.length_cons, List.insertIdx_succ_cons, ih, List.cons_append]

/-- Where a scale is set, and what comes of the lines. -/
inductive PlacedIn (lines : List Text) (scale : Decimal) : Placed → Prop where
  /-- The first live directive gets the scale for its argument. -/
  | replaced {pre post : List Text} {line gap : Text} {d : Directive}
      (split : lines = pre ++ line :: post) (front : Silent Directive.read? .code pre)
      (live : inert (behind .code pre) line = false) (directive : Directive.read? line = some d)
      (text : line = d.lead ++ (d.keyword ++ (gap ++ (d.token ++ d.after)))) (blanks : Blanks gap) :
      PlacedIn lines scale
        ⟨pre ++ (d.lead ++ (d.keyword ++ ' ' :: (compact scale ++ trimEnd d.after))) :: post,
          .replaced, pre.length⟩
  /-- There is none, and the line right above the first content is blank and gives way. -/
  | replacedBlank {pre post : List Text} {above line : Text}
      (silent : Silent Directive.read? .code lines) (split : lines = pre ++ above :: line :: post)
      (blank : Blanks above) (first : FirstContent (pre ++ [above]) line) :
      PlacedIn lines scale
        ⟨pre ++ newDirective scale :: line :: post, .replacedBlank, pre.length⟩
  /-- There is none, and it gets a line of its own right above the first content. -/
  | inserted {pre post : List Text} {line : Text}
      (silent : Silent Directive.read? .code lines) (split : lines = pre ++ line :: post)
      (first : FirstContent pre line) (above : ∀ last ∈ pre.getLast?, ¬ Blanks last) :
      PlacedIn lines scale ⟨pre ++ newDirective scale :: line :: post, .inserted, pre.length⟩
  /-- There is no directive and no content, and it gets the first line. -/
  | onTop (silent : Silent Directive.read? .code lines)
      (blank : ∀ line, some line ∈ liveLines .code lines → Blanks line) :
      PlacedIn lines scale ⟨newDirective scale :: lines, .inserted, 0⟩

/-- The first live directive is given the scale. -/
theorem placedIn_of_some {lines : List Text} (hu : ∀ line ∈ lines, Unbroken line) {i : Nat}
    {d : Directive} (h : firstDirective? lines = some (i, d)) (scale : Decimal) :
    PlacedIn lines scale (placeDirective {} lines scale) := by
  unfold placeDirective
  rw [h]
  dsimp only
  obtain ⟨pre, line, post, rfl, rfl, hs, hi, hr⟩ := firstLive?_eq_some_iff.mp h
  obtain ⟨gap, hgap, hline⟩ := Directive.exists_gap (hu line (by simp)) hr
  have hset : (pre ++ line :: post).set pre.length (d.setArgument (compact scale)) =
      pre ++ d.setArgument (compact scale) :: post := by simp
  rw [hset, Directive.setArgument_eq d (Inked.compact scale)
    (ne_nil_of_isNumeral (Decimal.isNumeral_compact scale))]
  exact .replaced rfl hs hi hr hline hgap

/-- A new directive goes above the first content, on a blank line if there is one. -/
theorem placedIn_of_none {lines : List Text} (h : firstDirective? lines = none) (scale : Decimal) :
    PlacedIn lines scale (placeDirective {} lines scale) := by
  have hs : Silent Directive.read? .code lines := firstLive?_eq_none_iff.mp h
  unfold placeDirective
  rw [h]
  dsimp only
  cases hc : firstContent? lines with
  | none =>
    rw [Option.getD_none]
    have htop : PlacedIn lines scale ⟨newDirective scale :: lines, .inserted, 0⟩ :=
      .onTop hs (blanks_of_firstContent?_eq_none hc)
    split
    · rwa [if_neg (by simp)]
    · exact htop
  | some i =>
    obtain ⟨pre, line, post, rfl, rfl, hfirst⟩ := exists_firstContent hc
    rw [Option.getD_some]
    rcases List.eq_nil_or_concat pre with rfl | ⟨front, above, rfl⟩
    · have htop : PlacedIn ([] ++ line :: post) scale
          ⟨[] ++ newDirective scale :: line :: post, .inserted, 0⟩ :=
        .inserted hs rfl hfirst (by simp)
      split
      · rwa [if_neg (by simp)]
      · exact htop
    · rw [List.concat_eq_append] at hs hfirst ⊢
      have hlast : (front ++ [above] ++ line :: post)[(front ++ [above]).length - 1]? =
          some above := by simp
      rw [hlast]
      dsimp only
      split
      · rename_i hblank
        have hset : ∀ l : Text, (front ++ [above] ++ line :: post).set
            ((front ++ [above]).length - 1) l = front ++ l :: line :: post := by
          intro l
          simp
        have hlen : (front ++ [above]).length - 1 = front.length := by simp
        rw [hset, hlen]
        exact .replacedBlank hs (by simp) (blanks_iff.mp hblank.2) hfirst
      · rename_i hblank
        have habove : ∀ last ∈ (front ++ [above]).getLast?, ¬ Blanks last := by
          intro last hl hb
          rw [List.getLast?_concat, Option.mem_some_iff] at hl
          exact hblank ⟨by simp, blanks_iff.mpr (hl ▸ hb)⟩
        rw [insertIdx_length_append]
        exact .inserted hs rfl hfirst habove

/-- **A scale is set in one of these places.** -/
theorem placedIn_placeDirective {lines : List Text} (hu : ∀ line ∈ lines, Unbroken line)
    (scale : Decimal) : PlacedIn lines scale (placeDirective {} lines scale) := by
  cases hfirst : firstDirective? lines with
  | none => exact placedIn_of_none hfirst scale
  | some found => exact placedIn_of_some hu hfirst scale

/-- Where a new directive goes: behind lines that leave it in code, on a line of its own or on a
blank one. -/
theorem exists_placeDirective_of_none {lines : List Text} (h : firstDirective? lines = none)
    (scale : Decimal) :
    ∃ pre gone post, lines = pre ++ (gone ++ post) ∧ behind .code pre = .code ∧
      (placeDirective {} lines scale).lines = pre ++ newDirective scale :: post ∧
      (placeDirective {} lines scale).index = pre.length ∧
      (gone = [] ∧ (placeDirective {} lines scale).placement = .inserted ∨
        ∃ above, gone = [above] ∧ Blanks above ∧
          (placeDirective {} lines scale).placement = .replacedBlank) := by
  obtain ⟨placed, he⟩ : ∃ placed, placeDirective {} lines scale = placed := ⟨_, rfl⟩
  have hplaced := placedIn_of_none h scale
  rw [he] at hplaced ⊢
  cases hplaced with
  | @replaced pre post line gap d split front live directive text blanks =>
    -- there is no directive that could be replaced
    have hfound : firstDirective? lines = some (pre.length, d) := by
      rw [split]
      exact firstLive?_append_cons front live directive
    rw [hfound] at h
    cases h
  | @replacedBlank pre post above line silent split blank first =>
    -- a blank line leaves the region alone, so the place above the content is in code too
    have hcode := first.code
    rw [behind_append, behind_cons, behind_nil, advance_of_blanks blank] at hcode
    exact ⟨pre, [above], line :: post, split, hcode, rfl, rfl, Or.inr ⟨above, rfl, blank, rfl⟩⟩
  | @inserted pre post line silent split first above =>
    exact ⟨pre, [], line :: post, split, first.code, rfl, rfl, Or.inl ⟨rfl, rfl⟩⟩
  | onTop silent blank => exact ⟨[], [], lines, rfl, rfl, rfl, rfl, Or.inl ⟨rfl, rfl⟩⟩

/-- **A new directive is the first**, and takes at most one line more. -/
theorem placeDirective_of_none {lines : List Text} (hu : ∀ line ∈ lines, Unbroken line)
    (h : firstDirective? lines = none) (scale : Decimal) :
    Directs (placeDirective {} lines scale).lines (placeDirective {} lines scale).index scale ∧
      (∀ line ∈ (placeDirective {} lines scale).lines, Unbroken line) ∧
      ((∀ line ∈ lines, Faithful line) →
        ∀ line ∈ (placeDirective {} lines scale).lines, Faithful line) ∧
      lines.length ≤ (placeDirective {} lines scale).lines.length ∧
      (placeDirective {} lines scale).lines.length ≤ lines.length + 1 := by
  obtain ⟨pre, gone, post, rfl, hb, hl, hi, hplace⟩ := exists_placeDirective_of_none h scale
  have hgone : gone.length ≤ 1 := by
    rcases hplace with ⟨rfl, -⟩ | ⟨above, rfl, -⟩ <;> simp
  rw [hl, hi]
  have hs : Silent Directive.read? .code pre := Silent.of_append (firstLive?_eq_none_iff.mp h)
  have hmem : ∀ {P : Text → Prop}, (∀ l ∈ pre ++ (gone ++ post), P l) → P (newDirective scale) →
      ∀ l ∈ pre ++ newDirective scale :: post, P l := by
    intro P hl hd l hm
    rcases List.mem_append.mp hm with hm | hm
    · exact hl l (List.mem_append_left _ hm)
    · rcases List.mem_cons.mp hm with rfl | hm
      · exact hd
      · exact hl l (List.mem_append_right _ (List.mem_append_right _ hm))
  refine ⟨directs_newDirective post scale hs hb, hmem hu (unbroken_newDirective scale),
    fun hf => hmem hf (faithful_newDirective scale), ?_, ?_⟩
  · simp only [List.length_append, List.length_cons]
    omega
  · simp only [List.length_append, List.length_cons]
    omega

/-- **In any case** there is a directive of the scale afterwards, and at most one line more. -/
theorem directs_placeDirective {lines : List Text} (hu : ∀ line ∈ lines, Unbroken line)
    (scale : Decimal) :
    Directs (placeDirective {} lines scale).lines (placeDirective {} lines scale).index scale ∧
      (∀ line ∈ (placeDirective {} lines scale).lines, Unbroken line) ∧
      ((∀ line ∈ lines, Faithful line) →
        ∀ line ∈ (placeDirective {} lines scale).lines, Faithful line) ∧
      lines.length ≤ (placeDirective {} lines scale).lines.length ∧
      (placeDirective {} lines scale).lines.length ≤ lines.length + 1 := by
  cases hd : firstDirective? lines with
  | none => exact placeDirective_of_none hu hd scale
  | some p =>
    obtain ⟨hdir, hpu, hpf, -, hi, hlen⟩ := placeDirective_of_some hu hd scale
    exact ⟨hi ▸ hdir, hpu, hpf, by omega, by omega⟩

/-- **Setting a scale** puts one directive in force, and nothing else changes: the first live
directive of the new lines is where the placement says, it gives the scale, and the lines are the
old ones but for that place. -/
theorem placeDirective_located {lines : List Text} (hu : ∀ line ∈ lines, Unbroken line)
    {scale : Decimal} (hs : scale.inReach = true) :
    PlacedIn lines scale (placeDirective {} lines scale) ∧
      ∃ d v, firstDirective? (placeDirective {} lines scale).lines =
          some ((placeDirective {} lines scale).index, d) ∧
        d.value = some v ∧ v.toRat = scale.toRat := by
  obtain ⟨⟨d, hd, htoken⟩, hplaced, -⟩ := directs_placeDirective hu scale
  obtain ⟨pre, line, post, hlines, -, -, -, hread⟩ := firstLive?_eq_some_iff.mp hd
  obtain ⟨r, -, -, -, -, -, hvalue⟩ :=
    (Directive.read?_eq_some_iff (hplaced line (by rw [hlines]; simp))).mp hread
  obtain ⟨v, hv, hnumber⟩ := Decimal.read_compact hs
  refine ⟨placedIn_placeDirective hu scale, d, v, hd, ?_, hnumber⟩
  rw [← hvalue, htoken, hv]
  rfl

/-- A directive in a comment is passed over, and the blank line behind the comment is taken. -/
theorem placeDirective_located_behind_comment :
    ∃ d v, firstDirective? ["/* old".toList, "$scale 3 */".toList, "$scale 2.5".toList,
        "$body x".toList] = some (2, d) ∧ d.value = some v ∧ v.toRat = 5 / 2 := by
  let lines := ["/* old".toList, "$scale 3 */".toList, [], "$body x".toList]
  have hplaced : placeDirective {} lines ⟨false, 250, -2⟩ =
      ⟨["/* old".toList, "$scale 3 */".toList, "$scale 2.5".toList, "$body x".toList],
        .replacedBlank, 2⟩ := by
    decide +kernel
  have hu : ∀ line ∈ lines, Unbroken line := by decide +kernel
  have hreach : Decimal.inReach ⟨false, 250, -2⟩ = true := by decide +kernel
  obtain ⟨-, d, v, hd, hv, hscale⟩ := placeDirective_located hu hreach
  rw [hplaced] at hd
  refine ⟨d, v, hd, hv, hscale.trans ?_⟩
  norm_num [Decimal.toRat, Decimal.size]

/-! ## 3. Passes that spare it -/

/-- What a later pass does to a line: nothing, or a rewrite that is not on a directive with a
number. -/
def Spared (line line' : Text) : Prop :=
  line' = line ∨
    Retouched line line' ∧ ∀ d, Directive.read? line = some d → isNumeral d.token = false

theorem Spared.unbroken {line line' : Text} (h : Spared line line') (hu : Unbroken line) :
    Unbroken line' := by
  rcases h with rfl | ⟨h, -⟩
  · exact hu
  · exact h.unbroken hu

theorem Spared.advance_eq {line line' : Text} (h : Spared line line') (g : Region) :
    advance g line' = advance g line := by
  rcases h with rfl | ⟨h, -⟩
  · rfl
  · exact h.advance_eq g

theorem Spared.inert_eq {line line' : Text} (h : Spared line line') (g : Region) :
    inert g line' = inert g line := by
  rcases h with rfl | ⟨h, -⟩
  · rfl
  · exact h.inert_eq g

theorem Spared.read?_eq_none {line line' : Text} (h : Spared line line') (hu : Unbroken line)
    (hr : Directive.read? line = none) : Directive.read? line' = none := by
  rcases h with rfl | ⟨h, -⟩
  · exact hr
  · exact Directive.read?_eq_none_of_retouched h hu hr

theorem Spared.faithful {line line' : Text} (h : Spared line line') (hf : Faithful line) :
    Faithful line' := by
  rcases h with rfl | ⟨h, -⟩
  · exact hf
  · exact h.faithful hf

theorem forall₂_append_cons {α : Type} {R : α → α → Prop} {pre post l : List α} {a : α}
    (h : List.Forall₂ R (pre ++ a :: post) l) :
    ∃ pre' b post', l = pre' ++ b :: post' ∧ List.Forall₂ R pre pre' ∧ R a b ∧
      List.Forall₂ R post post' := by
  induction pre generalizing l with
  | nil =>
    cases h with
    | cons hab h => exact ⟨[], _, _, rfl, .nil, hab, h⟩
  | cons c pre ih =>
    cases h with
    | cons hcd h =>
      obtain ⟨pre', b, post', rfl, hpre, hab, hpost⟩ := ih h
      exact ⟨_ :: pre', b, post', rfl, .cons hcd hpre, hab, hpost⟩

/-- **A pass that spares directives leaves the first one the first**, on the same line. -/
theorem Directs.of_spared {lines lines' : List Text} {i : Nat} {scale : Decimal}
    (h : Directs lines i scale) (hu : ∀ line ∈ lines, Unbroken line)
    (hp : List.Forall₂ Spared lines lines') : Directs lines' i scale := by
  obtain ⟨d, hd, ht⟩ := h
  obtain ⟨pre, line, post, rfl, rfl, hs, hi, hr⟩ := firstLive?_eq_some_iff.mp hd
  obtain ⟨pre', line', post', rfl, hpre, hline, -⟩ := forall₂_append_cons hp
  have hn : isNumeral d.token = true := by rw [ht]; exact Decimal.isNumeral_compact scale
  obtain rfl : line' = line := by
    rcases hline with h | ⟨-, h⟩
    · exact h
    · rw [h d hr] at hn
      cases hn
  have hpass : List.Forall₂ (fun line line' => (∀ g, advance g line' = advance g line) ∧
      (∀ g, inert g line' = inert g line) ∧
      (Directive.read? line = none → Directive.read? line' = none)) pre pre' := by
    have hpu : ∀ line ∈ pre, Unbroken line := by
      intro line hl
      exact hu line (List.mem_append_left _ hl)
    clear hs hi hu hd hp
    induction hpre with
    | nil => exact .nil
    | @cons a b as bs hab _ ih =>
      exact .cons ⟨hab.advance_eq, hab.inert_eq, hab.read?_eq_none (hpu a List.mem_cons_self)⟩
        (ih fun l hl => hpu l (List.mem_cons_of_mem _ hl))
  obtain ⟨hs', hb⟩ := hs.congr hpass
  rw [hpre.length_eq]
  exact directs_append_cons hs' (by rw [hb]; exact hi) hr ht

end ModelScale
