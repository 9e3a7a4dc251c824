import ModelScale.Proofs.Vrd.Stored

/-
# Writing by position

`writeSites` goes through a script once and keeps two things in mind: the helper named last, and how
many offsets each helper has had.  What it does can be said without going through anything.  A line
belongs to the helper that the last helper line in front of it names (`helperBefore`), and the
triggers of a helper, over all of its sections, are numbered in the order of the file
(`triggersOf`).  Then, as long as no number gives out:

* the baseline does not fit exactly if some helper that it knows has more triggers than stored
  offsets, and the mismatch is at the first such trigger of the file (`FirstSurplus`);
* otherwise the trigger with the number `k` is written from the offset with the number `k`, rest
  positions from that of their helper, and every other line is copied (`WrittenByPosition`).

The main statement is `writeBones_by_position`.  The condition is needed: a record whose number has
too many digits ends the run, although it is a line to be copied
(`writeBones_by_position_unreadable`).
-/

namespace ModelScale

open Text

/-! ## 1. Places in a script -/

/-- The name on a helper line. -/
def VrdShape.name? : Option VrdShape → Option Text
  | some (.helper name) => some name
  | _ => none

/-- The shape of a line, by its number from zero. -/
def shapeAt (lines : List Text) (i : Nat) : Option VrdShape :=
  (classifyAll .code lines)[i]?.join

/-- The helper named last in front of a line. -/
def helperBefore (lines : List Text) (i : Nat) : Option Text :=
  (((classifyAll .code lines).take i).filterMap VrdShape.name?).getLast?

/-- A live trigger that belongs to a helper. -/
def isTriggerOf (lines : List Text) (helper : Text) (i : Nat) : Bool :=
  (match shapeAt lines i with
    | some (.offset _) => true
    | _ => false) && helperBefore lines i = some helper

/-- The lines with the triggers of a helper, in the order of the file. -/
def triggersOf (lines : List Text) (helper : Text) : List Nat :=
  (List.range lines.length).filter (isTriggerOf lines helper)

theorem isTriggerOf_iff {lines : List Text} {helper : Text} {i : Nat} :
    isTriggerOf lines helper i = true ↔
      (∃ l, shapeAt lines i = some (.offset l)) ∧ helperBefore lines i = some helper := by
  rw [isTriggerOf, Bool.and_eq_true, decide_eq_true_eq]
  refine and_congr_left fun _ => ?_
  rcases shapeAt lines i with _ | (_ | _ | _ | _ | _ | _) <;> simp

/-- A chosen number is found behind those that are chosen and smaller. -/
theorem getElem?_filter_range_of_lt {p : Nat → Bool} {n i : Nat} (hi : i < n) (hp : p i = true) :
    ((List.range n).filter p)[(List.range i).countP p]? = some i := by
  induction n with
  | zero => cases hi
  | succ n ih =>
    rw [List.range_succ, List.filter_append]
    rcases Nat.lt_succ_iff_lt_or_eq.mp hi with hi | rfl
    · have h := ih hi
      obtain ⟨hlt, -⟩ := List.getElem?_eq_some_iff.mp h
      rw [List.getElem?_append_left hlt, h]
    · rw [List.countP_eq_length_filter, List.getElem?_append_right le_rfl, Nat.sub_self]
      simp [hp]

/-- The number with the place `k` among those that are chosen has `k` smaller ones in front. -/
theorem getElem?_filter_range {p : Nat → Bool} {n k i : Nat} :
    ((List.range n).filter p)[k]? = some i ↔
      i < n ∧ p i = true ∧ (List.range i).countP p = k := by
  constructor
  · intro h
    obtain ⟨hn, hp⟩ := List.mem_filter.mp (List.mem_of_getElem? h)
    have hn := List.mem_range.mp hn
    have hi := getElem?_filter_range_of_lt hn hp
    obtain ⟨hlt, -⟩ := List.getElem?_eq_some_iff.mp hi
    exact ⟨hn, hp, (List.getElem?_inj hlt (List.nodup_range.filter p)).mp (hi.trans h.symm)⟩
  · rintro ⟨hn, hp, rfl⟩
    exact getElem?_filter_range_of_lt hn hp

/-! ## 2. The survey by position -/

/-- The helper named last and the helpers of the offsets, after some lines. -/
def placeAfter (place : Option Text × List Text) (shapes : List (Option VrdShape)) :
    Option Text × List Text :=
  shapes.foldl (fun (owner, earlier) s => (nextOwner owner s, nextEarlier owner earlier s)) place

theorem placeAfter_concat (place : Option Text × List Text) (shapes : List (Option VrdShape))
    (s : Option VrdShape) :
    placeAfter place (shapes ++ [s]) =
      (nextOwner (placeAfter place shapes).1 s,
        nextEarlier (placeAfter place shapes).1 (placeAfter place shapes).2 s) := by
  rw [placeAfter, List.foldl_append]
  rfl

/-- Each site is made from its shape and what the lines in front of it leave. -/
theorem getElem?_sitesFrom (shapes : List (Option VrdShape)) (owner : Option Text)
    (earlier : List Text) (i : Nat) :
    (sitesFrom owner earlier shapes)[i]? =
      shapes[i]?.map (siteOf (placeAfter (owner, earlier) (shapes.take i)).1
        (placeAfter (owner, earlier) (shapes.take i)).2) := by
  induction shapes generalizing owner earlier i with
  | nil => rfl
  | cons s shapes ih =>
    rw [sitesFrom_cons]
    cases i with
    | zero => rfl
    | succ i =>
      rw [List.getElem?_cons_succ, List.getElem?_cons_succ, ih]
      rfl

/-- The helper that the lines leave is the one named last. -/
theorem placeAfter_fst (shapes : List (Option VrdShape)) :
    (placeAfter (none, []) shapes).1 = (shapes.filterMap VrdShape.name?).getLast? := by
  induction shapes using List.reverseRecOn with
  | nil => rfl
  | append_singleton shapes s ih =>
    rw [placeAfter_concat, List.filterMap_append, ih]
    rcases s with _ | (_ | _ | _ | _ | _ | _) <;> simp [nextOwner, VrdShape.name?]

theorem shapeAt_eq {lines : List Text} {i : Nat} {s : Option VrdShape}
    (h : (classifyAll .code lines)[i]? = some s) : shapeAt lines i = s := by
  rw [shapeAt, h]
  rfl

/-- The lines leave a helper as often as it has had a trigger. -/
theorem count_placeAfter (lines : List Text) (helper : Text) {i : Nat} (hi : i ≤ lines.length) :
    (placeAfter (none, []) ((classifyAll .code lines).take i)).2.count helper =
      (List.range i).countP (isTriggerOf lines helper) := by
  induction i with
  | zero => rfl
  | succ i ih =>
    have hlt : i < (classifyAll .code lines).length := by
      rw [classifyAll_length]
      exact hi
    have hs : shapeAt lines i = (classifyAll .code lines)[i] :=
      shapeAt_eq (List.getElem?_eq_getElem hlt)
    have hh : helperBefore lines i =
        (placeAfter (none, []) ((classifyAll .code lines).take i)).1 :=
      (placeAfter_fst _).symm
    rw [List.take_succ_eq_append_getElem hlt, placeAfter_concat, List.range_succ,
      List.countP_append, ← ih (Nat.le_of_succ_le hi), List.countP_singleton, isTriggerOf, hs, hh]
    generalize placeAfter (none, []) ((classifyAll .code lines).take i) = place
    obtain ⟨owner, earlier⟩ := place
    rcases (classifyAll .code lines)[i] with _ | (_ | _ | l | _ | _ | _)
    all_goals first | rfl | skip
    cases owner with
    | none => rfl
    | some name =>
      show (name :: earlier).count helper = _
      rw [List.count_cons]
      by_cases he : name = helper <;> simp [he]

/-- The site of a line comes from its shape, the helper named last and the triggers in front. -/
theorem exists_siteOf {lines : List Text} {i : Nat} (hi : i < lines.length) :
    ∃ earlier : List Text,
      (∀ helper, earlier.count helper = (List.range i).countP (isTriggerOf lines helper)) ∧
        (survey lines)[i]? = some (siteOf (helperBefore lines i) earlier (shapeAt lines i)) := by
  refine ⟨(placeAfter (none, []) ((classifyAll .code lines).take i)).2,
    fun helper => count_placeAfter lines helper hi.le, ?_⟩
  have hlt : i < (classifyAll .code lines).length := by rwa [classifyAll_length]
  have hs := List.getElem?_eq_getElem hlt
  rw [survey, getElem?_sitesFrom, placeAfter_fst, shapeAt_eq hs, hs]
  rfl

theorem lt_length_of_shapeAt {lines : List Text} {i : Nat} {shape : VrdShape}
    (h : shapeAt lines i = some shape) : i < lines.length := by
  rw [← classifyAll_length .code]
  by_contra hi
  rw [shapeAt, List.getElem?_eq_none (Nat.le_of_not_lt hi)] at h
  cases h

/-- The rest positions of the survey. -/
theorem getElem?_survey_rest {lines : List Text} {i : Nat} {owner : Option Text} {l : TripleLine} :
    (survey lines)[i]? = some (.rest owner l) ↔
      shapeAt lines i = some (.rest l) ∧ helperBefore lines i = owner := by
  constructor
  · intro h
    obtain ⟨hi, -⟩ := List.getElem?_eq_some_iff.mp h
    obtain ⟨earlier, -, hs⟩ := @exists_siteOf lines i (by simpa using hi)
    rw [hs] at h
    rcases hsh : shapeAt lines i with _ | (_ | m | _ | _ | _ | _) <;> rw [hsh] at h <;> cases h
    exact ⟨rfl, rfl⟩
  · rintro ⟨h, rfl⟩
    obtain ⟨earlier, -, hs⟩ := exists_siteOf (lt_length_of_shapeAt h)
    rw [hs, h]
    rfl

/-- The offsets of the survey that belong to a helper are its triggers, in order. -/
theorem getElem?_survey_offset {lines : List Text} {i k : Nat} {helper : Text} {l : TripleLine} :
    (survey lines)[i]? = some (.offset (some helper) k l) ↔
      shapeAt lines i = some (.offset l) ∧ (triggersOf lines helper)[k]? = some i := by
  rw [triggersOf, getElem?_filter_range, isTriggerOf_iff]
  constructor
  · intro h
    obtain ⟨hi, -⟩ := List.getElem?_eq_some_iff.mp h
    rw [survey_length] at hi
    obtain ⟨earlier, hc, hs⟩ := exists_siteOf hi
    rw [hs] at h
    rcases hsh : shapeAt lines i with _ | (_ | _ | m | _ | _ | _) <;> rw [hsh] at h
    case some.offset =>
      obtain ⟨ho, hk, rfl⟩ := Site.offset.inj (Option.some.inj h)
      refine ⟨rfl, hi, ⟨⟨m, rfl⟩, ho⟩, ?_⟩
      rw [ho] at hk
      rw [← hc, ← hk]
      rfl
    all_goals cases h
  · rintro ⟨h, hi, ⟨-, ho⟩, rfl⟩
    obtain ⟨earlier, hc, hs⟩ := exists_siteOf hi
    rw [hs, h, ho, ← hc]
    rfl

/-! ## 3. Writing line by line -/

/-- A script is written if each of its lines is, in its place. -/
theorem getElem?_writeSites {b : Baseline} {scale : Decimal} {n : Nat} {pairs : List (Text × Site)}
    {written : List WrittenLine} (h : writeSites b scale n pairs = .ok written) :
    written.length = pairs.length ∧
      ∀ i text site, pairs[i]? = some (text, site) →
        ∃ w, written[i]? = some w ∧ writeSite b scale (n + i) text site = .ok w := by
  induction pairs generalizing n written with
  | nil =>
    cases h
    exact ⟨rfl, fun i _ _ hp => nomatch hp⟩
  | cons p pairs ih =>
    obtain ⟨text, site⟩ := p
    obtain ⟨w, ws, hw, hws, rfl⟩ := writeSites_cons_eq_ok.mp h
    obtain ⟨hlen, hall⟩ := ih hws
    refine ⟨by rw [List.length_cons, List.length_cons, hlen], ?_⟩
    intro i text' site' hp
    cases i with
    | zero =>
      cases hp
      exact ⟨w, rfl, hw⟩
    | succ i =>
      obtain ⟨v, hv, hwrite⟩ := hall i text' site' hp
      refine ⟨v, hv, ?_⟩
      rwa [Nat.add_comm i 1, ← Nat.add_assoc]

/-- A script fails at the first of its lines that does. -/
theorem exists_writeSite_eq_error {b : Baseline} {scale : Decimal} {n : Nat}
    {pairs : List (Text × Site)} {e : BonesError} (h : writeSites b scale n pairs = .error e) :
    ∃ i text site, pairs[i]? = some (text, site) ∧
      writeSite b scale (n + i) text site = .error e ∧
      ∀ j < i, ∀ text site, pairs[j]? = some (text, site) →
        ∃ w, writeSite b scale (n + j) text site = .ok w := by
  induction pairs generalizing n with
  | nil => cases h
  | cons p pairs ih =>
    obtain ⟨text, site⟩ := p
    rw [writeSites] at h
    cases hw : writeSite b scale n text site with
    | error f =>
      rw [hw] at h
      cases h
      exact ⟨0, text, site, rfl, hw, fun j hj => absurd hj (Nat.not_lt_zero j)⟩
    | ok w =>
      cases hws : writeSites b scale (n + 1) pairs with
      | ok ws =>
        rw [hw, hws] at h
        cases h
      | error f =>
        rw [hw, hws] at h
        cases h
        obtain ⟨i, text', site', hp, he, hbefore⟩ := ih hws
        have hn : ∀ j, n + (j + 1) = n + 1 + j := by
          intro j
          omega
        refine ⟨i + 1, text', site', hp, by rwa [hn], ?_⟩
        intro j hj text'' site'' hq
        cases j with
        | zero =>
          cases hq
          exact ⟨w, hw⟩
        | succ j =>
          rw [hn]
          exact hbefore j (Nat.lt_of_succ_lt_succ hj) _ _ hq

/-- A known rest position is written from what is stored. -/
theorem writeSite_rest {b : Baseline} {scale : Decimal} {n : Nat} {text helper : Text}
    {l : TripleLine} {values : Triple} {w : WrittenLine} (hv : b.rest.get? helper = some values)
    (h : writeSite b scale n text (.rest (some helper) l) = .ok w) :
    ∃ v, scaleTriple values scale = .ok v ∧ w.text = l.withValues v := by
  cases writeSite_eq_iff.mp h with
  | foreignRest hb =>
    rw [Option.bind_some, hv] at hb
    cases hb
  | rest hb hs =>
    rw [Option.bind_some, hv] at hb
    obtain rfl := Option.some.inj hb
    exact ⟨_, hs, rfl⟩

/-- A known offset is written from what is stored, unless it is zero. -/
theorem writeSite_offset {b : Baseline} {scale : Decimal} {n k : Nat} {text helper : Text}
    {l : TripleLine} {w : WrittenLine} (hb : b.contains helper = true)
    (h : writeSite b scale n text (.offset (some helper) k l) = .ok w) :
    ∃ values, (b.sequence helper)[k]? = some values ∧
      (tripleIsZero values = .ok true ∧ w.text = text ∨
        tripleIsZero values = .ok false ∧
          ∃ v, scaleTriple values scale = .ok v ∧ w.text = l.withValues v) := by
  cases writeSite_eq_iff.mp h with
  | foreignOffset hnone => simp [hb] at hnone
  | zero hsome hk hz =>
    obtain rfl := Option.some.inj (Option.filter_eq_some_iff.mp hsome).1
    exact ⟨_, hk, Or.inl ⟨hz, rfl⟩⟩
  | offset hsome hk hz hv =>
    obtain rfl := Option.some.inj (Option.filter_eq_some_iff.mp hsome).1
    exact ⟨_, hk, Or.inr ⟨hz, _, hv, rfl⟩⟩

/-- The baseline fails at a line if this is a trigger for which no offset is stored. -/
theorem writeSite_eq_mismatch {b : Baseline} {scale : Decimal} {n : Nat} {text : Text} {site : Site}
    {m : Mismatch} :
    writeSite b scale n text site = .error (.mismatch m) ↔
      ∃ helper k l, site = .offset (some helper) k l ∧ b.contains helper = true ∧
        (b.sequence helper)[k]? = none ∧
        m = { helper := some helper, index := some k, line := some n } := by
  constructor
  · intro h
    cases writeSite_eq_iff.mp h with
    | surplus hb hk =>
      obtain ⟨rfl, hc⟩ := Option.filter_eq_some_iff.mp hb
      exact ⟨_, _, _, rfl, hc, hk, rfl⟩
  · rintro ⟨helper, k, l, rfl, hb, hk, rfl⟩
    exact writeSite_eq_iff.mpr (.surplus (by simp [hb]) hk)

/-! ## 4. The description -/

/-- The first trigger, of all helpers that the baseline knows, for which no offset is stored. -/
structure FirstSurplus (b : Baseline) (lines : List Text) (helper : Text) (i : Nat) : Prop where
  known : b.contains helper = true
  surplus : (triggersOf lines helper)[(b.sequence helper).length]? = some i
  first : ∀ other j, b.contains other = true →
    (triggersOf lines other)[(b.sequence other).length]? = some j → i ≤ j

/-- What is made of a script, said line by line. -/
structure WrittenByPosition (b : Baseline) (scale : Decimal) (lines out : List Text) : Prop where
  length : out.length = lines.length
  /-- Rest positions come from that of their helper. -/
  rest : ∀ i l helper values, shapeAt lines i = some (.rest l) →
    helperBefore lines i = some helper → b.rest.get? helper = some values →
    ∃ v, scaleTriple values scale = .ok v ∧ out[i]? = some (l.withValues v)
  /-- Triggers come from the offset of the same number, unless it is zero. -/
  offset : ∀ (helper : Text) (k i : Nat) (l : TripleLine), b.contains helper = true →
    (triggersOf lines helper)[k]? = some i → shapeAt lines i = some (.offset l) →
    ∃ values : Triple, (b.sequence helper)[k]? = some values ∧
      (tripleIsZero values = .ok true ∧ out[i]? = lines[i]? ∨
        tripleIsZero values = .ok false ∧
          ∃ v, scaleTriple values scale = .ok v ∧ out[i]? = some (l.withValues v))
  /-- All other lines are copied. -/
  other : ∀ i, (∀ l helper values, shapeAt lines i = some (.rest l) →
      helperBefore lines i = some helper → b.rest.get? helper ≠ some values) →
    (∀ helper, b.contains helper = true → i ∉ triggersOf lines helper) → out[i]? = lines[i]?

theorem getElem?_zip_survey {lines : List Text} {i : Nat} {text : Text} {site : Site}
    (ht : lines[i]? = some text) (hs : (survey lines)[i]? = some site) :
    (lines.zip (survey lines))[i]? = some (text, site) :=
  List.getElem?_zip_eq_some.mpr ⟨ht, hs⟩

theorem exists_text {lines : List Text} {i : Nat} {site : Site}
    (h : (survey lines)[i]? = some site) : ∃ text, lines[i]? = some text := by
  obtain ⟨hi, -⟩ := List.getElem?_eq_some_iff.mp h
  rw [survey_length] at hi
  exact ⟨lines[i], List.getElem?_eq_getElem hi⟩

/-- Each line of a script is written by its site. -/
theorem exists_written_line {b : Baseline} {scale : Decimal} {lines : List Text}
    {written : List WrittenLine}
    (h : writeSites b scale 1 (lines.zip (survey lines)) = .ok written) {i : Nat} {text : Text}
    {site : Site} (ht : lines[i]? = some text) (hs : (survey lines)[i]? = some site) :
    ∃ w, (written.map (·.text))[i]? = some w.text ∧
      writeSite b scale (1 + i) text site = .ok w := by
  obtain ⟨w, hw, hwrite⟩ := (getElem?_writeSites h).2 i text site (getElem?_zip_survey ht hs)
  exact ⟨w, by rw [List.getElem?_map, hw]; rfl, hwrite⟩

/-- **What is written is what the description says.** -/
theorem writtenByPosition_of_writeSites {b : Baseline} {scale : Decimal} {lines : List Text}
    {written : List WrittenLine}
    (h : writeSites b scale 1 (lines.zip (survey lines)) = .ok written) :
    WrittenByPosition b scale lines (written.map (·.text)) := by
  have hlen := (getElem?_writeSites h).1
  refine ⟨by simp [hlen], ?_, ?_, ?_⟩
  · intro i l helper values hshape hhelper hv
    have hs := getElem?_survey_rest.mpr ⟨hshape, hhelper⟩
    obtain ⟨text, ht⟩ := exists_text hs
    obtain ⟨w, hw, hwrite⟩ := exists_written_line h ht hs
    obtain ⟨v, hscale, htext⟩ := writeSite_rest hv hwrite
    exact ⟨v, hscale, htext ▸ hw⟩
  · intro helper k i l hb hk hshape
    have hs := getElem?_survey_offset.mpr ⟨hshape, hk⟩
    obtain ⟨text, ht⟩ := exists_text hs
    obtain ⟨w, hw, hwrite⟩ := exists_written_line h ht hs
    obtain ⟨values, hv, hcase⟩ := writeSite_offset hb hwrite
    refine ⟨values, hv, hcase.imp ?_ ?_⟩
    · rintro ⟨hz, htext⟩
      exact ⟨hz, by rw [hw, htext, ht]⟩
    · rintro ⟨hz, v, hscale, htext⟩
      exact ⟨hz, v, hscale, htext ▸ hw⟩
  · intro i hrest htrigger
    cases ht : lines[i]? with
    | none =>
      have hi := List.getElem?_eq_none_iff.mp ht
      rw [List.getElem?_eq_none]
      rw [List.length_map, hlen, List.length_zip, survey_length, Nat.min_self]
      exact hi
    | some text =>
      obtain ⟨hi, -⟩ := List.getElem?_eq_some_iff.mp ht
      obtain ⟨site, hs⟩ : ∃ site, (survey lines)[i]? = some site :=
        ⟨_, List.getElem?_eq_getElem (survey_length lines ▸ hi)⟩
      obtain ⟨w, hw, hwrite⟩ := exists_written_line h ht hs
      rw [hw, writeSite_copied ?_ ?_ hwrite]
      · intro helper l hsite
        rw [hsite] at hs
        obtain ⟨hshape, hhelper⟩ := getElem?_survey_rest.mp hs
        exact Option.eq_none_iff_forall_ne_some.mpr fun values =>
          hrest l helper values hshape hhelper
      · intro helper k l hsite
        rw [hsite] at hs
        obtain ⟨-, hk⟩ := getElem?_survey_offset.mp hs
        have hmem := List.mem_of_getElem? hk
        exact Bool.eq_false_iff.mpr fun hb => htrigger helper hb hmem

/-- **A mismatch is found at the first trigger of a known helper that has no offset.** -/
theorem firstSurplus_of_writeSites {b : Baseline} {scale : Decimal} {lines : List Text}
    {m : Mismatch} (h : writeSites b scale 1 (lines.zip (survey lines)) = .error (.mismatch m)) :
    ∃ helper i, FirstSurplus b lines helper i ∧
      m = { helper := some helper, index := some (b.sequence helper).length,
            line := some (i + 1 : Nat) } := by
  obtain ⟨i, text, site, hp, he, hbefore⟩ := exists_writeSite_eq_error h
  obtain ⟨helper, k, l, rfl, hb, hv, rfl⟩ := writeSite_eq_mismatch.mp he
  obtain ⟨-, hs⟩ := List.getElem?_zip_eq_some.mp hp
  obtain ⟨hshape, hk⟩ := getElem?_survey_offset.mp hs
  -- in front of the line no trigger of a known helper is without an offset
  have hearlier : ∀ other j, b.contains other = true →
      (triggersOf lines other)[(b.sequence other).length]? = some j → i ≤ j := by
    intro other j hother hj
    by_contra hlt
    obtain ⟨⟨l', hl'⟩, -⟩ := isTriggerOf_iff.mp (getElem?_filter_range.mp hj).2.1
    have hs' := getElem?_survey_offset.mpr ⟨hl', hj⟩
    obtain ⟨text', ht'⟩ := exists_text hs'
    obtain ⟨w, hw⟩ := hbefore j (Nat.lt_of_not_le hlt) _ _ (getElem?_zip_survey ht' hs')
    rw [writeSite_eq_mismatch.mpr ⟨other, _, l', rfl, hother,
      List.getElem?_eq_none_iff.mpr le_rfl, rfl⟩] at hw
    cases hw
  -- so the trigger is the first one of its helper, too
  have hplace : k = (b.sequence helper).length := by
    have hle := List.getElem?_eq_none_iff.mp hv
    by_contra hne
    have hlt : (b.sequence helper).length < k := Nat.lt_of_le_of_ne hle (Ne.symm hne)
    obtain ⟨hkl, -⟩ := List.getElem?_eq_some_iff.mp hk
    have hj := List.getElem?_eq_getElem (hlt.trans hkl)
    have hcount := (getElem?_filter_range.mp hj).2.2
    have hmono : (List.range i).countP (isTriggerOf lines helper) ≤
        (List.range ((triggersOf lines helper)[(b.sequence helper).length])).countP
          (isTriggerOf lines helper) :=
      (List.range_sublist.mpr (hearlier helper _ hb hj)).countP_le
    rw [hcount, (getElem?_filter_range.mp hk).2.2] at hmono
    exact Nat.lt_irrefl _ (hlt.trans_le hmono)
  subst hplace
  refine ⟨helper, i, ⟨hb, hk, hearlier⟩, ?_⟩
  rw [Nat.add_comm i 1]

/-- If no helper is short of offsets, no mismatch is found, and the other way round. -/
theorem short_of_firstSurplus {b : Baseline} {lines : List Text} {helper : Text} {i : Nat}
    (h : FirstSurplus b lines helper i) :
    (b.sequence helper).length < (triggersOf lines helper).length :=
  (List.getElem?_eq_some_iff.mp h.surplus).1

/-- A script in which a known helper is short of offsets is not written. -/
theorem not_writtenByPosition_of_short {b : Baseline} {scale : Decimal} {lines out : List Text}
    {helper : Text} (hb : b.contains helper = true)
    (hlt : (b.sequence helper).length < (triggersOf lines helper).length) :
    ¬ WrittenByPosition b scale lines out := by
  intro h
  have hk := List.getElem?_eq_getElem hlt
  obtain ⟨⟨l, hl⟩, -⟩ := isTriggerOf_iff.mp (getElem?_filter_range.mp hk).2.1
  obtain ⟨values, hv, -⟩ := h.offset helper _ _ l hb hk hl
  rw [List.getElem?_eq_none_iff.mpr le_rfl] at hv
  cases hv

/-- What is written at a scale is what the description says. -/
theorem writtenByPosition_of_writeBones {lines : List Text} {b : Baseline} {scale : Quantity}
    {r : RescaledBones} (h : writeBones lines b scale = .ok r) :
    ∃ d, scale.value = .ok d ∧ WrittenByPosition b d lines r.lines := by
  obtain ⟨d, written, hd, hw, rfl⟩ := writeBones_eq_ok.mp h
  exact ⟨d, hd, writtenByPosition_of_writeSites hw⟩

/-- A mismatch is one of the lines, whatever the scale. -/
theorem firstSurplus_of_writeBones {lines : List Text} {b : Baseline} {scale : Quantity}
    {m : Mismatch} (h : writeBones lines b scale = .error (.mismatch m)) :
    ∃ helper i, FirstSurplus b lines helper i ∧
      m = { helper := some helper, index := some (b.sequence helper).length,
            line := some (i + 1 : Nat) } := by
  unfold writeBones at h
  cases hd : scale.value with
  | error f =>
    rw [hd] at h
    cases h
  | ok d =>
    rw [hd] at h
    cases hw : writeSites b d 1 (lines.zip (survey lines)) with
    | ok written => simp [hw, bind, Except.bind, pure, Except.pure, Except.mapError] at h
    | error e =>
      simp only [hw, bind, Except.bind, Except.mapError] at h
      cases h
      exact firstSurplus_of_writeSites hw

/-- **Writing by position.**  Where no number gives out, a script fails exactly if a helper that the
baseline knows has more triggers than stored offsets, at the first such trigger, and otherwise it is
written line by line as described. -/
theorem writeBones_by_position (lines : List Text) (b : Baseline) (scale : Quantity)
    (hf : ∀ fault, writeBones lines b scale ≠ .error (.fault fault)) :
    ((∃ m, writeBones lines b scale = .error (.mismatch m)) ↔
      ∃ helper, b.contains helper = true ∧
        (b.sequence helper).length < (triggersOf lines helper).length) ∧
    (∀ m, writeBones lines b scale = .error (.mismatch m) →
      ∃ helper i, FirstSurplus b lines helper i ∧
        m = { helper := some helper, index := some (b.sequence helper).length,
              line := some (i + 1 : Nat) }) ∧
    ((∀ helper, b.contains helper = true →
        (triggersOf lines helper).length ≤ (b.sequence helper).length) →
      ∃ r d, writeBones lines b scale = .ok r ∧ scale.value = .ok d ∧
        WrittenByPosition b d lines r.lines) := by
  refine ⟨⟨?_, ?_⟩, fun m => firstSurplus_of_writeBones, ?_⟩
  · rintro ⟨m, hm⟩
    obtain ⟨helper, i, hs, -⟩ := firstSurplus_of_writeBones hm
    exact ⟨helper, hs.known, short_of_firstSurplus hs⟩
  · rintro ⟨helper, hb, hlt⟩
    cases hr : writeBones lines b scale with
    | ok r =>
      obtain ⟨d, -, hpos⟩ := writtenByPosition_of_writeBones hr
      exact absurd hpos (not_writtenByPosition_of_short hb hlt)
    | error e =>
      cases e with
      | fault f => exact absurd hr (hf f)
      | mismatch m => exact ⟨m, rfl⟩
  · intro hfit
    cases hr : writeBones lines b scale with
    | ok r =>
      obtain ⟨d, hd, hpos⟩ := writtenByPosition_of_writeBones hr
      exact ⟨r, d, rfl, hd, hpos⟩
    | error e =>
      cases e with
      | fault f => exact absurd hr (hf f)
      | mismatch m =>
        obtain ⟨helper, i, hs, -⟩ := firstSurplus_of_writeBones hr
        exact absurd (short_of_firstSurplus hs) (Nat.not_lt.mpr (hfit helper hs.known))

/-- A helper with two sections.  Its second trigger has no offset in a baseline with one, and is
written from the second offset in a baseline with two. -/
theorem writeBones_by_position_reopened :
    let lines : List Text := ["<helper> a".toList, "<trigger> 90 1 2 3".toList,
      "<helper> b".toList, "<trigger> 90 7 7 7".toList, "<helper> a".toList,
      "<trigger> 90 0 0 1".toList]
    let one : Baseline :=
      (∅ : Baseline).addOffset "a".toList ⟨"1".toList, "2".toList, "3".toList⟩
    let two : Baseline := one.addOffset "a".toList ⟨"0".toList, "0".toList, "1".toList⟩
    triggersOf lines "a".toList = [1, 5] ∧
      (∃ helper i, FirstSurplus one lines helper i) ∧
      ∃ r d, writeBones lines two (.written "2".toList) = .ok r ∧ WrittenByPosition two d lines r.lines
      := by
  intro lines one two
  have hone : ∀ fault, writeBones lines one (.written "2".toList) ≠ .error (.fault fault) := by
    have h : (match writeBones lines one (.written "2".toList) with
        | .error (.fault _) => false
        | _ => true) = true := by decide +kernel
    intro fault he
    rw [he] at h
    cases h
  have htwo : ∀ fault, writeBones lines two (.written "2".toList) ≠ .error (.fault fault) := by
    have h : (match writeBones lines two (.written "2".toList) with
        | .error (.fault _) => false
        | _ => true) = true := by decide +kernel
    intro fault he
    rw [he] at h
    cases h
  obtain ⟨⟨-, hshort⟩, hfirst, -⟩ := writeBones_by_position lines one _ hone
  obtain ⟨m, hm⟩ := hshort ⟨"a".toList, by decide +kernel, by decide +kernel⟩
  obtain ⟨helper, i, hs, -⟩ := hfirst m hm
  obtain ⟨-, -, hwrite⟩ := writeBones_by_position lines two _ htwo
  obtain ⟨r, d, hr, -, hpos⟩ := hwrite fun helper hb => by
    have he : helper = "a".toList := by
      by_contra hne
      have : two.contains helper = false := by
        simp only [two, one, Baseline.contains, Baseline.addOffset, Roster.contains_put, hne,
          decide_false]
        rfl
      rw [this] at hb
      cases hb
    subst he
    decide +kernel
  exact ⟨by decide +kernel, ⟨helper, i, hs⟩, r, d, hr, hpos⟩

/-- A record is a line to be copied, and no baseline is short of offsets here.  The number of the
record has too many digits, though, and the run ends. -/
theorem writeBones_by_position_unreadable :
    let lines : List Text := [commentOf [StoredOffset.tag, "h".toList,
      List.replicate 4301 '0', "0".toList, "0".toList, "0".toList]]
    (∀ helper, (∅ : Baseline).contains helper = true →
      (triggersOf lines helper).length ≤ ((∅ : Baseline).sequence helper).length) ∧
      writeBones lines ∅ (.written "1".toList) = .error (.fault (.tooManyDigits 4301)) := by
  intro lines
  have hwords : commentWords? (commentOf [StoredOffset.tag, "h".toList, List.replicate 4301 '0',
      "0".toList, "0".toList, "0".toList]) = some [StoredOffset.tag, "h".toList,
        List.replicate 4301 '0', "0".toList, "0".toList, "0".toList] := by
    refine commentWords?_commentOf ?_
    intro t ht
    simp only [List.mem_cons, List.not_mem_nil, or_false] at ht
    rcases ht with rfl | rfl | rfl | rfl | rfl | rfl
    · exact ⟨by decide, by decide⟩
    · exact ⟨by decide, by decide⟩
    · refine ⟨fun c hc => ?_, List.ne_nil_of_length_pos (by rw [List.length_replicate]; decide)⟩
      rw [List.eq_of_mem_replicate hc]
      decide
    all_goals exact ⟨by decide, by decide⟩
  have hdigits : (List.replicate 4301 '0').all isDigit = true :=
    List.all_eq_true.mpr fun c hc => List.eq_of_mem_replicate hc ▸ by decide
  have hread : readInteger (List.replicate 4301 '0') = .error (.tooManyDigits 4301) := by
    rw [readInteger, List.length_replicate]
    rfl
  have hshape : ∀ g, (classify g (commentOf [StoredOffset.tag, "h".toList, List.replicate 4301 '0',
      "0".toList, "0".toList, "0".toList])).1 = some (.unreadable (.tooManyDigits 4301)) := by
    intro g
    have hrec : VrdShape.record? (commentOf [StoredOffset.tag, "h".toList,
        List.replicate 4301 '0', "0".toList, "0".toList, "0".toList]) =
        some (.unreadable (.tooManyDigits 4301)) := by
      rw [VrdShape.record?, StoredRest.read?, StoredOffset.read?, hwords]
      simp only [hdigits, hread]
      rfl
    rw [classify, hrec]
  have hsurvey : survey lines = [.unreadable (.tooManyDigits 4301)] := by
    rw [survey, classifyAll_cons, hshape]
    rfl
  have hnone : ∀ helper, (∅ : Baseline).contains helper = false := fun _ => rfl
  refine ⟨fun helper hb => absurd hb (Bool.eq_false_iff.mp (hnone helper)), ?_⟩
  rw [writeBones, hsurvey]
  rfl

end ModelScale
