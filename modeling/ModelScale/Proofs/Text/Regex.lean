import ModelScale.Proofs.Text.Keyword

/-
# Patterns that are tried in order

What a reader looks for on a line can be written down as a pattern: characters of a class one after
the other, alternatives, repetitions that prefer to take much or to take little, and groups, the
text of which is kept.  A matcher that backtracks tries the ways in which a pattern fits a text one
after the other and keeps the groups of the first one that works out.  Here these ways are a list in
the order in which they are tried (`Regex.ways`), and the answer comes from its head
(`Regex.read?`).  Repetitions are of single characters, so the list is finite by its construction.

Three things are used about an answer:

* the way it comes from is one of the ways (`fits_of_read?`), and what these are is said without
  their order, pattern by pattern (`Recognizes`, `fits_seq_iff`, `fits_group_seq_iff`);
* where all ways keep the same groups, the order does not matter (`read?_eq_map`);
* a repetition that prefers to take little has taken the least that works out
  (`read?_least_group_seq`, `exists_of_read?_group_least`).
-/

namespace ModelScale.Text

/-! ## 1. Patterns -/

/-- A pattern for the start of a text. -/
inductive Regex where
  /-- One character of a class. -/
  | one (p : Char → Bool)
  /-- No character. -/
  | empty
  /-- No character, in front of the end of the text or of a newline that ends it. -/
  | lineEnd
  | seq (a b : Regex)
  /-- Either pattern, the first one preferred. -/
  | either (a b : Regex)
  /-- Characters of a class, many of them preferred. -/
  | most (p : Char → Bool)
  /-- Characters of a class, few of them preferred. -/
  | least (p : Char → Bool)
  /-- A pattern whose text is kept. -/
  | group (a : Regex)

/-- A way in which a pattern fits the start of a text: the texts that are kept, what is taken, and
what comes after it. -/
structure Way where
  groups : List Text
  taken : Text
  rest : Text

/-- One way, and another from where it ends. -/
def Way.append (w v : Way) : Way := ⟨w.groups ++ v.groups, w.taken ++ v.taken, v.rest⟩

/-- A text in two, with characters of a class in the first part; the shortest first parts first. -/
def splits (p : Char → Bool) : Text → List (Text × Text)
  | [] => [([], [])]
  | c :: t => ([], c :: t) :: if p c then (splits p t).map fun (s, u) => (c :: s, u) else []

namespace Regex

/-- The ways in which a pattern fits the start of a text, in the order in which they are tried. -/
@[simp] def ways : Regex → Text → List Way
  | one _, [] => []
  | one p, c :: t => if p c then [⟨[], [c], t⟩] else []
  | empty, t => [⟨[], [], t⟩]
  | lineEnd, t => if t = [] ∨ t = ['\n'] then [⟨[], [], t⟩] else []
  | seq a b, t => (a.ways t).flatMap fun w => (b.ways w.rest).map w.append
  | either a b, t => a.ways t ++ b.ways t
  | most p, t => (splits p t).reverse.map fun (s, u) => ⟨[], s, u⟩
  | least p, t => (splits p t).map fun (s, u) => ⟨[], s, u⟩
  | group a, t => (a.ways t).map fun w => ⟨w.taken :: w.groups, w.taken, w.rest⟩

/-- The groups of the first way. -/
def read? (a : Regex) (t : Text) : Option (List Text) := (a.ways t).head?.map Way.groups

/-- One pattern after the other. -/
def chain : List Regex → Regex
  | [] => empty
  | [a] => a
  | a :: b :: r => seq a (chain (b :: r))

/-- A pattern that may be absent. -/
def optional (a : Regex) : Regex := either a empty

/-- The letters of a keyword, in either case. -/
def keyword : Text → Regex
  | [] => empty
  | k :: ks => seq (one fun c => foldCase c = k) (keyword ks)

/-! ## 2. What is taken, whatever the order -/

theorem mem_splits {p : Char → Bool} {t s u : Text} :
    (s, u) ∈ splits p t ↔ t = s ++ u ∧ ∀ c ∈ s, p c = true := by
  induction t generalizing s with
  | nil =>
    rw [splits, List.mem_singleton, Prod.mk.injEq, eq_comm (a := []), List.append_eq_nil_iff]
    constructor
    · rintro ⟨rfl, rfl⟩
      exact ⟨⟨rfl, rfl⟩, by simp⟩
    · exact And.left
  | cons c t ih =>
    rw [splits, List.mem_cons]
    constructor
    · rintro (h | h)
      · obtain ⟨rfl, rfl⟩ := Prod.mk.inj h
        exact ⟨rfl, by simp⟩
      · split at h
        · rename_i hc
          obtain ⟨⟨s', u'⟩, hm, he⟩ := List.mem_map.mp h
          obtain ⟨rfl, rfl⟩ := Prod.mk.inj he
          obtain ⟨rfl, hs⟩ := ih.mp hm
          exact ⟨rfl, List.forall_mem_cons.mpr ⟨hc, hs⟩⟩
        · cases h
    · rintro ⟨h, hs⟩
      cases s with
      | nil => exact Or.inl (by rw [h]; rfl)
      | cons d s =>
        obtain ⟨rfl, rfl⟩ := List.cons.inj h
        obtain ⟨hc, hs⟩ := List.forall_mem_cons.mp hs
        rw [if_pos hc]
        exact Or.inr (List.mem_map.mpr ⟨(s, u), ih.mpr ⟨rfl, hs⟩, rfl⟩)

/-- A pattern keeps nothing, and takes the texts of a language wherever they start a text. -/
def Recognizes (a : Regex) (language : Text → Prop) : Prop :=
  ∀ t w, w ∈ a.ways t ↔ ∃ s u, t = s ++ u ∧ language s ∧ w = ⟨[], s, u⟩

section Languages

variable {a b : Regex} {A B : Text → Prop} {p : Char → Bool} {t : Text} {w : Way}

theorem mem_ways_seq :
    w ∈ (seq a b).ways t ↔ ∃ w₁ ∈ a.ways t, ∃ w₂ ∈ b.ways w₁.rest, w₁.append w₂ = w := by
  simp only [ways, List.mem_flatMap, List.mem_map]

theorem Recognizes.congr (ha : a.Recognizes A) (h : ∀ s, A s ↔ B s) : a.Recognizes B := by
  intro t w
  simp only [ha t w, h]

theorem recognizes_one : (one p).Recognizes fun s => ∃ c, p c = true ∧ s = [c] := by
  intro t w
  cases t with
  | nil => simp
  | cons c t =>
    rw [ways]
    constructor
    · intro h
      split at h
      · rename_i hc
        exact ⟨[c], t, rfl, ⟨c, hc, rfl⟩, List.mem_singleton.mp h⟩
      · cases h
    · rintro ⟨s, u, e, ⟨d, hd, rfl⟩, rfl⟩
      obtain ⟨rfl, rfl⟩ := List.cons.inj e
      simp [hd]

theorem recognizes_empty : empty.Recognizes fun s => s = [] := by
  intro t w
  simp

theorem recognizes_least : (least p).Recognizes fun s => ∀ c ∈ s, p c = true := by
  intro t w
  rw [ways, List.mem_map]
  constructor
  · rintro ⟨⟨s, u⟩, hm, rfl⟩
    obtain ⟨e, hs⟩ := mem_splits.mp hm
    exact ⟨s, u, e, hs, rfl⟩
  · rintro ⟨s, u, e, hs, rfl⟩
    exact ⟨(s, u), mem_splits.mpr ⟨e, hs⟩, rfl⟩

theorem recognizes_most : (most p).Recognizes fun s => ∀ c ∈ s, p c = true := by
  intro t w
  rw [← recognizes_least t w, ways, ways, List.map_reverse, List.mem_reverse]

theorem Recognizes.seq (ha : a.Recognizes A) (hb : b.Recognizes B) :
    (seq a b).Recognizes fun s => ∃ u v, s = u ++ v ∧ A u ∧ B v := by
  intro t w
  rw [mem_ways_seq]
  constructor
  · rintro ⟨w₁, h₁, w₂, h₂, rfl⟩
    obtain ⟨s, u, rfl, hs, rfl⟩ := (ha t w₁).mp h₁
    obtain ⟨s', u', rfl, hs', rfl⟩ := (hb _ w₂).mp h₂
    exact ⟨s ++ s', u', by simp, ⟨s, s', rfl, hs, hs'⟩, rfl⟩
  · rintro ⟨-, r, rfl, ⟨u, v, rfl, hu, hv⟩, rfl⟩
    refine ⟨⟨[], u, v ++ r⟩, (ha _ _).mpr ⟨u, v ++ r, by simp, hu, rfl⟩, ?_⟩
    exact ⟨⟨[], v, r⟩, (hb _ _).mpr ⟨v, r, rfl, hv, rfl⟩, rfl⟩

theorem Recognizes.either (ha : a.Recognizes A) (hb : b.Recognizes B) :
    (either a b).Recognizes fun s => A s ∨ B s := by
  intro t w
  rw [ways, List.mem_append, ha t w, hb t w]
  constructor
  · rintro (⟨s, u, e, h, rfl⟩ | ⟨s, u, e, h, rfl⟩)
    · exact ⟨s, u, e, Or.inl h, rfl⟩
    · exact ⟨s, u, e, Or.inr h, rfl⟩
  · rintro ⟨s, u, e, h | h, rfl⟩
    · exact Or.inl ⟨s, u, e, h, rfl⟩
    · exact Or.inr ⟨s, u, e, h, rfl⟩

theorem Recognizes.optional (ha : a.Recognizes A) :
    (optional a).Recognizes fun s => A s ∨ s = [] :=
  ha.either recognizes_empty

theorem recognizes_keyword (k : Text) :
    (keyword k).Recognizes fun s => s.map foldCase = k := by
  induction k with
  | nil => exact recognizes_empty.congr fun s => by simp
  | cons k ks ih =>
    refine (recognizes_one.seq ih).congr ?_
    intro s
    constructor
    · rintro ⟨u, v, rfl, ⟨c, hc, rfl⟩, hv⟩
      simpa [hv] using hc
    · intro h
      obtain ⟨c, v, rfl, hc, hv⟩ := List.map_eq_cons_iff.mp h
      exact ⟨[c], v, rfl, ⟨c, by simpa using hc, rfl⟩, hv⟩

end Languages

/-! ## 3. What is kept, whatever the order -/

/-- The pattern can keep these texts. -/
def Fits (a : Regex) (t : Text) (kept : List Text) : Prop := ∃ w ∈ a.ways t, w.groups = kept

section Groups

variable {a b : Regex} {A : Text → Prop} {t : Text} {kept : List Text}

/-- A pattern without groups, and another behind it. -/
theorem fits_seq_iff (ha : a.Recognizes A) :
    (seq a b).Fits t kept ↔ ∃ s u, t = s ++ u ∧ A s ∧ b.Fits u kept := by
  constructor
  · rintro ⟨w, hw, rfl⟩
    obtain ⟨w₁, h₁, w₂, h₂, rfl⟩ := mem_ways_seq.mp hw
    obtain ⟨s, u, rfl, hs, rfl⟩ := (ha t w₁).mp h₁
    exact ⟨s, u, rfl, hs, w₂, h₂, rfl⟩
  · rintro ⟨s, u, rfl, hs, w, hw, rfl⟩
    refine ⟨Way.append ⟨[], s, u⟩ w, mem_ways_seq.mpr ?_, rfl⟩
    exact ⟨⟨[], s, u⟩, (ha _ _).mpr ⟨s, u, rfl, hs, rfl⟩, w, hw, rfl⟩

/-- A group, and a pattern behind it. -/
theorem fits_group_seq_iff (ha : a.Recognizes A) :
    (seq (group a) b).Fits t kept ↔
      ∃ s u r, t = s ++ u ∧ A s ∧ b.Fits u r ∧ kept = s :: r := by
  constructor
  · rintro ⟨w, hw, rfl⟩
    obtain ⟨w₁, h₁, w₂, h₂, rfl⟩ := mem_ways_seq.mp hw
    obtain ⟨w₀, h₀, rfl⟩ := List.mem_map.mp h₁
    obtain ⟨s, u, rfl, hs, rfl⟩ := (ha t w₀).mp h₀
    exact ⟨s, u, w₂.groups, rfl, hs, ⟨w₂, h₂, rfl⟩, rfl⟩
  · rintro ⟨s, u, -, rfl, hs, ⟨w, hw, rfl⟩, rfl⟩
    refine ⟨Way.append ⟨[s], s, u⟩ w, mem_ways_seq.mpr ⟨⟨[s], s, u⟩, ?_, w, hw, rfl⟩, rfl⟩
    exact List.mem_map.mpr ⟨⟨[], s, u⟩, (ha _ _).mpr ⟨s, u, rfl, hs, rfl⟩, rfl⟩

/-- On one line, the end of a line is the end of the text. -/
theorem fits_lineEnd_iff (ht : '\n' ∉ t) : lineEnd.Fits t kept ↔ t = [] ∧ kept = [] := by
  have hn : t ≠ ['\n'] := by
    rintro rfl
    exact ht List.mem_cons_self
  constructor
  · rintro ⟨w, hw, rfl⟩
    rw [ways] at hw
    split at hw
    · rename_i h
      rw [List.mem_singleton.mp hw]
      exact ⟨h.resolve_right hn, rfl⟩
    · cases hw
  · rintro ⟨rfl, rfl⟩
    exact ⟨⟨[], [], []⟩, by simp, rfl⟩

/-! ## 4. The first way -/

/-- What is kept can be kept. -/
theorem fits_of_read? (h : a.read? t = some kept) : a.Fits t kept := by
  obtain ⟨w, hw, rfl⟩ := Option.map_eq_some_iff.mp h
  exact ⟨w, List.mem_of_head? hw, rfl⟩

/-- Something is kept if something can be kept. -/
theorem exists_read?_of_fits (h : a.Fits t kept) : ∃ kept', a.read? t = some kept' := by
  obtain ⟨w, hw, -⟩ := h
  obtain ⟨v, r, e⟩ := List.exists_cons_of_ne_nil (List.ne_nil_of_mem hw)
  exact ⟨v.groups, by rw [read?, e]; rfl⟩

/-- **Where all ways keep the same, the order does not matter.** -/
theorem read?_eq_map {α : Type} {answer : Option α} {keep : α → List Text}
    (h : ∀ kept, a.Fits t kept ↔ ∃ x, answer = some x ∧ kept = keep x) :
    a.read? t = answer.map keep := by
  cases hr : a.read? t with
  | some kept =>
    obtain ⟨x, rfl, rfl⟩ := (h kept).mp (fits_of_read? hr)
    rfl
  | none =>
    cases ha : answer with
    | none => rfl
    | some x =>
      obtain ⟨kept, hk⟩ := exists_read?_of_fits ((h (keep x)).mpr ⟨x, ha, rfl⟩)
      rw [hr] at hk
      cases hk

end Groups

/-- The shortest first part with an answer is the one that gives it. -/
theorem exists_of_findSome?_splits {α : Type} {p : Char → Bool} {f : Text × Text → Option α}
    {t : Text} {x : α} (h : (splits p t).findSome? f = some x) :
    ∃ s u, t = s ++ u ∧ (∀ c ∈ s, p c = true) ∧ f (s, u) = some x ∧
      ∀ s' u', t = s' ++ u' → s'.length < s.length → f (s', u') = none := by
  induction t generalizing f with
  | nil =>
    rw [splits, List.findSome?_singleton] at h
    exact ⟨[], [], rfl, by simp, h, fun s' _ _ hlt => absurd hlt (Nat.not_lt_zero _)⟩
  | cons c t ih =>
    rw [splits, List.findSome?_cons] at h
    cases hf : f ([], c :: t) with
    | some y =>
      rw [hf] at h
      obtain rfl := Option.some.inj h
      exact ⟨[], c :: t, rfl, by simp, hf, fun s' _ _ hlt => absurd hlt (Nat.not_lt_zero _)⟩
    | none =>
      rw [hf] at h
      dsimp only at h
      split at h
      · rename_i hc
        rw [List.findSome?_map] at h
        obtain ⟨s, u, rfl, hs, hx, hleast⟩ := ih h
        refine ⟨c :: s, u, rfl, List.forall_mem_cons.mpr ⟨hc, hs⟩, hx, ?_⟩
        intro s' u' e hlt
        cases s' with
        | nil =>
          obtain rfl : c :: (s ++ u) = u' := e
          exact hf
        | cons d s' =>
          obtain ⟨rfl, htail⟩ := List.cons.inj e
          exact hleast s' u' htail (Nat.lt_of_succ_lt_succ hlt)
      · cases h

section Preference

variable {a b : Regex} {A : Text → Prop} {p : Char → Bool} {t : Text} {kept : List Text}

theorem findSome?_ways_seq {α : Type} (a b : Regex) (t : Text) (f : Way → Option α) :
    ((seq a b).ways t).findSome? f =
      (a.ways t).findSome? fun w => (b.ways w.rest).findSome? fun v => f (w.append v) := by
  simp only [ways, ← List.head?_filterMap, List.filterMap_flatMap, List.head?_flatMap,
    List.filterMap_map]
  rfl

/-- The first way with a group and something behind it. -/
theorem read?_group_seq (a b : Regex) (t : Text) :
    (seq (group a) b).read? t =
      (a.ways t).findSome? fun w => (b.read? w.rest).map ((w.taken :: w.groups) ++ ·) := by
  simp only [read?, ways, List.flatMap_map, List.head?_flatMap, List.head?_map, List.map_findSome?,
    Option.map_map]
  simp only [Function.comp_def, Option.map_map]
  rfl

/-- **A repetition in front of a group's pattern takes the least that works out.** -/
theorem read?_least_group_seq (a b : Regex) (p : Char → Bool) (t : Text) :
    (seq (group (seq (least p) a)) b).read? t =
      (splits p t).findSome? fun x =>
        ((seq (group a) b).read? x.2).map (List.modifyHead (x.1 ++ ·)) := by
  rw [read?_group_seq, findSome?_ways_seq, ways, List.findSome?_map]
  congr 1
  funext x
  simp only [read?_group_seq, List.map_findSome?]
  simp only [Function.comp_def, Option.map_map]
  rfl

/-- **A repetition at the end of a group takes the least that works out.** -/
theorem exists_of_read?_group_least (ha : a.Recognizes A)
    (h : (seq (group (seq a (least p))) b).read? t = some kept) :
    ∃ q s u r, t = q ++ (s ++ u) ∧ A q ∧ (∀ c ∈ s, p c = true) ∧ b.read? u = some r ∧
      kept = (q ++ s) :: r ∧
      ∀ s' u', s ++ u = s' ++ u' → s'.length < s.length → b.read? u' = none := by
  rw [read?_group_seq, findSome?_ways_seq] at h
  obtain ⟨w, hw, h⟩ := List.exists_of_findSome?_eq_some h
  obtain ⟨q, r, rfl, hq, rfl⟩ := (ha t w).mp hw
  rw [ways, List.findSome?_map] at h
  obtain ⟨s, u, e, hs, hx, hleast⟩ := exists_of_findSome?_splits h
  obtain rfl : r = s ++ u := e
  obtain ⟨g, hg, rfl⟩ := Option.map_eq_some_iff.mp hx
  refine ⟨q, s, u, g, rfl, hq, hs, hg, rfl, ?_⟩
  intro s' u' e hlt
  exact Option.map_eq_none_iff.mp (hleast s' u' e hlt)

end Preference

end Regex

end ModelScale.Text
