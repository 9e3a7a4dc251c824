import ModelScale.Proofs.Roster
import ModelScale.Proofs.Vrd.Survey

/-
# What a capture gathers

A capture goes through the sites of a script and adds up what they hold.  Afterwards the baseline
covers every site (`Baseline.Covers`): a rest position is known for the helper of each rest
position, and each offset has its place in the sequence of its helper, which is as long as the
script has offsets of that helper.  And everything in the baseline can be written as a word or a
numeral (`Baseline.Writable`), so a marker block can be made of it.

Two baselines that agree on the sites of a script write the same script (`writeSites_congr`).
-/

namespace ModelScale

open Text

namespace Baseline

/-! ## 1. Covered sites -/

/-- The baseline has a value for the site. -/
def Covers (b : Baseline) : Site → Prop
  | .rest (some helper) _ => b.rest.contains helper = true
  | .offset (some helper) ordinal _ => ordinal < (b.sequence helper).length
  | _ => True

/-- Nothing is lost from one baseline to the other. -/
structure Extends (b c : Baseline) : Prop where
  rest : ∀ helper, b.rest.contains helper = true → c.rest.contains helper = true
  offsets : ∀ helper, (b.sequence helper).length ≤ (c.sequence helper).length

theorem Extends.refl (b : Baseline) : b.Extends b := ⟨fun _ h => h, fun _ => le_rfl⟩

theorem Extends.trans {b c d : Baseline} (h : b.Extends c) (h' : c.Extends d) : b.Extends d :=
  ⟨fun helper hb => h'.rest helper (h.rest helper hb),
    fun helper => (h.offsets helper).trans (h'.offsets helper)⟩

theorem Covers.mono {b c : Baseline} {site : Site} (h : b.Covers site) (he : b.Extends c) :
    c.Covers site := by
  cases site with
  | rest owner line =>
    cases owner with
    | none => trivial
    | some helper => exact he.rest helper h
  | offset owner ordinal line =>
    cases owner with
    | none => trivial
    | some helper => exact Nat.lt_of_lt_of_le h (he.offsets helper)
  | other => trivial
  | unreadable fault => trivial

/-- The sequences are as long as there have been offsets of their helpers. -/
def Counts (b : Baseline) (earlier : List Text) : Prop :=
  ∀ helper, (b.sequence helper).length = earlier.count helper

theorem sequence_addOffset (b : Baseline) (helper k : Text) (v : Triple) :
    (b.addOffset helper v).sequence k =
      if k = helper then b.sequence helper ++ [v] else b.sequence k := by
  rw [sequence, addOffset, Roster.get?_put]
  split <;> rfl

/-- Sequences grow at their end. -/
theorem prefix_sequence_addOffset (b : Baseline) (helper : Text) (v : Triple) (k : Text) :
    b.sequence k <+: (b.addOffset helper v).sequence k := by
  rw [sequence_addOffset]
  split
  · rename_i hk
    exact hk ▸ List.prefix_append _ _
  · exact List.prefix_refl _

theorem contains_addRest (b : Baseline) (helper k : Text) (v : Triple) :
    (b.addRest helper v).rest.contains k = (decide (k = helper) || b.rest.contains k) :=
  Roster.contains_put _ _ _ _

theorem extends_addRest (b : Baseline) (helper : Text) (v : Triple) :
    b.Extends (b.addRest helper v) where
  rest := by
    intro k hk
    rw [contains_addRest, hk, Bool.or_true]
  offsets := fun _ => le_rfl

theorem extends_addOffset (b : Baseline) (helper : Text) (v : Triple) :
    b.Extends (b.addOffset helper v) where
  rest := fun _ hk => hk
  offsets := fun k => (prefix_sequence_addOffset b helper v k).length_le

theorem Counts.addOffset {b : Baseline} {earlier : List Text} (hb : b.Counts earlier)
    (helper : Text) (v : Triple) : (b.addOffset helper v).Counts (helper :: earlier) := by
  intro k
  rw [sequence_addOffset]
  by_cases hk : k = helper
  · rw [if_pos hk, hk, List.length_append, hb helper, List.count_cons_self, List.length_singleton]
  · rw [if_neg hk, hb k, List.count_cons_of_ne (Ne.symm hk)]

/-- What a site adds: nothing, or a rest position, or an offset. -/
theorem captureSite_cases {settings : Settings} {previous : Quantity} {b c : Baseline} {site : Site}
    (h : captureSite settings previous b site = .ok c) :
    c = b ∨
      (∃ helper line v, site = .rest (some helper) line ∧
        normalizeTriple settings previous line.values = .ok v ∧ c = b.addRest helper v) ∨
      ∃ helper ordinal line v, site = .offset (some helper) ordinal line ∧
        normalizeTriple settings previous line.values = .ok v ∧ c = b.addOffset helper v := by
  cases site with
  | other => exact Or.inl (Except.ok.inj h).symm
  | unreadable fault => cases h
  | rest owner line =>
    cases owner with
    | none => exact Or.inl (Except.ok.inj h).symm
    | some helper =>
      obtain ⟨v, hv, rfl⟩ := map_eq_ok.mp h
      exact Or.inr (Or.inl ⟨helper, line, v, rfl, hv, rfl⟩)
  | offset owner ordinal line =>
    cases owner with
    | none => exact Or.inl (Except.ok.inj h).symm
    | some helper =>
      obtain ⟨v, hv, rfl⟩ := map_eq_ok.mp h
      exact Or.inr (Or.inr ⟨helper, ordinal, line, v, rfl, hv, rfl⟩)

/-- One site: it is covered then, nothing is lost, and the count goes on. -/
theorem captureSite_spec {settings : Settings} {previous : Quantity} {b c : Baseline}
    {owner : Option Text} {earlier : List Text} {shape : Option VrdShape} (hb : b.Counts earlier)
    (h : captureSite settings previous b (siteOf owner earlier shape) = .ok c) :
    c.Covers (siteOf owner earlier shape) ∧ b.Extends c ∧
      c.Counts (nextEarlier owner earlier shape) := by
  have hsame : ∀ {e : Except Fault Baseline}, e = .ok c → e = .ok b →
      b.Extends c ∧ c.Counts earlier := by
    rintro _ rfl hcb
    obtain rfl := Except.ok.inj hcb
    exact ⟨Extends.refl c, hb⟩
  rcases shape with _ | (_ | line | line | _ | _ | _)
  · exact ⟨trivial, hsame h rfl⟩
  · exact ⟨trivial, hsame h rfl⟩
  · cases owner with
    | none => exact ⟨trivial, hsame h rfl⟩
    | some helper =>
      obtain ⟨v, -, rfl⟩ := map_eq_ok.mp h
      refine ⟨?_, extends_addRest b helper v, hb⟩
      show (b.addRest helper v).rest.contains helper = true
      rw [contains_addRest]
      simp
  · cases owner with
    | none => exact ⟨trivial, hsame h rfl⟩
    | some helper =>
      obtain ⟨v, -, rfl⟩ := map_eq_ok.mp h
      have hcounts := hb.addOffset helper v
      refine ⟨?_, extends_addOffset b helper v, hcounts⟩
      show earlier.count helper < ((b.addOffset helper v).sequence helper).length
      rw [hcounts, List.count_cons_self]
      exact Nat.lt_succ_self _
  · exact ⟨trivial, hsame h rfl⟩
  · exact ⟨trivial, hsame h rfl⟩
  · cases h

theorem captureSites_spec {settings : Settings} {previous : Quantity} {b c : Baseline}
    {owner : Option Text} {earlier : List Text} {shapes : List (Option VrdShape)}
    (hb : b.Counts earlier)
    (h : (sitesFrom owner earlier shapes).foldlM (captureSite settings previous) b = .ok c) :
    (∀ site ∈ sitesFrom owner earlier shapes, c.Covers site) ∧ b.Extends c := by
  induction shapes generalizing b owner earlier with
  | nil =>
    obtain rfl := pure_eq_ok.mp h
    exact ⟨fun _ hs => absurd hs (by simp), Extends.refl b⟩
  | cons shape shapes ih =>
    rw [sitesFrom_cons, List.foldlM_cons] at h
    obtain ⟨d, hd, h⟩ := bind_eq_ok.mp h
    obtain ⟨hcov, hext, hcnt⟩ := captureSite_spec hb hd
    obtain ⟨ihc, ihe⟩ := ih hcnt h
    refine ⟨?_, hext.trans ihe⟩
    intro site hs
    rw [sitesFrom_cons] at hs
    rcases List.mem_cons.mp hs with rfl | hs
    · exact hcov.mono ihe
    · exact ihc site hs

/-- **A captured baseline covers every site of its script.** -/
theorem covers_of_capture {settings : Settings} {lines : List Text} {previous : Quantity}
    {b : Baseline} (h : capture settings lines previous = .ok b) :
    ∀ site ∈ survey lines, b.Covers site :=
  (captureSites_spec (b := ∅) (fun _ => rfl) h).1

/-! ## 2. Writable baselines -/

/-- A word as it stands in a record. -/
def IsWord (t : Text) : Prop := Inked t ∧ t ≠ []

/-- Everything in the baseline is numbers, of helpers with a property. -/
structure Holds (P : Text → Prop) (b : Baseline) : Prop where
  rest : ∀ e ∈ b.rest.entries, P e.1 ∧ e.2.Numerals
  offsets : ∀ e ∈ b.offsets.entries, P e.1 ∧ ∀ v ∈ e.2, v.Numerals

/-- Everything in the baseline can stand in a record. -/
abbrev Writable (b : Baseline) : Prop := Holds IsWord b

/-- The helper of a site, if it has one, has a property. -/
def OwnerHas (P : Text → Prop) : Site → Prop
  | .rest owner _ | .offset owner _ _ => ∀ helper ∈ owner, P helper
  | _ => True

/-- The name of a helper is a word of its line. -/
theorem isWord_of_readHelper? {line name : Text} (h : readHelper? line = some name) :
    IsWord name ∧ name <:+: line := by
  obtain ⟨head, r, -, rfl, hi, hne, -⟩ := readHelper?_eq_some_iff.mp h
  exact ⟨⟨hi, hne⟩, head, r, List.append_assoc _ _ _⟩

theorem readHelper?_of_classify {g : Region} {line name : Text}
    (h : (classify g line).1 = some (.helper name)) : readHelper? line = some name := by
  unfold classify at h
  cases hr : VrdShape.record? line with
  | some record =>
    rw [hr] at h
    obtain rfl := Option.some.inj h
    rcases record?_cases hr with ⟨r, hr⟩ | ⟨r, hr⟩ | ⟨f, hr⟩ <;> cases hr
  | none =>
    rw [hr] at h
    dsimp only at h
    split at h
    · cases h
    · exact live?_eq_helper.mp h

theorem ownerHas_survey {P : Text → Prop} (g : Region) {lines : List Text}
    (hP : ∀ line ∈ lines, ∀ name, readHelper? line = some name → P name) (owner : Option Text)
    (earlier : List Text) (ho : ∀ helper ∈ owner, P helper) :
    ∀ site ∈ sitesFrom owner earlier (classifyAll g lines), OwnerHas P site := by
  induction lines generalizing g owner earlier with
  | nil => intro site hs; cases hs
  | cons line lines ih =>
    intro site hs
    obtain ⟨hl, hP⟩ := List.forall_mem_cons.mp hP
    rw [classifyAll_cons, sitesFrom_cons] at hs
    rcases List.mem_cons.mp hs with rfl | hs
    · rcases (classify g line).1 with _ | (_ | l | l | _ | _ | _)
      all_goals first | exact trivial | exact ho
    · refine ih _ hP _ _ ?_ site hs
      intro helper hh
      cases hc : (classify g line).1 with
      | none => rw [hc] at hh; exact ho helper hh
      | some shape =>
        rw [hc] at hh
        cases shape with
        | helper name =>
          obtain rfl := Option.some.inj hh
          exact hl name (readHelper?_of_classify hc)
        | _ => exact ho helper hh

theorem normalizeTriple_steps {settings : Settings} {previous : Quantity} {t v : Triple}
    (h : normalizeTriple settings previous t = .ok v) :
    normalizeLiteral t.x previous settings.normalizedPlaces = .ok v.x ∧
      normalizeLiteral t.y previous settings.normalizedPlaces = .ok v.y ∧
      normalizeLiteral t.z previous settings.normalizedPlaces = .ok v.z :=
  Triple.each_eq_ok (f := fun t => normalizeLiteral t previous settings.normalizedPlaces) h

theorem normalizeTriple_eq_ok {settings : Settings} {previous : Quantity} {t v : Triple}
    (h : normalizeTriple settings previous t = .ok v) : v.Numerals := by
  obtain ⟨hx, hy, hz⟩ := normalizeTriple_steps h
  exact ⟨isNumeral_normalizeLiteral hx, isNumeral_normalizeLiteral hy,
    isNumeral_normalizeLiteral hz⟩

section Holds

variable {P : Text → Prop}

theorem Holds.addRest {b : Baseline} (hb : b.Holds P) {helper : Text} {v : Triple}
    (hh : P helper) (hv : v.Numerals) : (b.addRest helper v).Holds P := by
  refine ⟨?_, hb.offsets⟩
  intro e he
  rcases Roster.mem_entries_put he with rfl | he
  · exact ⟨hh, hv⟩
  · exact hb.rest e he

theorem Holds.sequence {b : Baseline} (hb : b.Holds P) (helper : Text) :
    ∀ v ∈ b.sequence helper, v.Numerals := by
  intro v hv
  unfold Baseline.sequence at hv
  cases h : b.offsets.get? helper with
  | none => rw [h] at hv; cases hv
  | some vs =>
    rw [h] at hv
    exact (hb.offsets _ (Roster.mem_of_get? h)).2 v hv

theorem Holds.addOffset {b : Baseline} (hb : b.Holds P) {helper : Text} {v : Triple}
    (hh : P helper) (hv : v.Numerals) : (b.addOffset helper v).Holds P := by
  refine ⟨hb.rest, ?_⟩
  intro e he
  rcases Roster.mem_entries_put he with rfl | he
  · refine ⟨hh, ?_⟩
    intro u hu
    rcases List.mem_append.mp hu with hu | hu
    · exact hb.sequence helper u hu
    · obtain rfl := List.mem_singleton.mp hu
      exact hv
  · exact hb.offsets e he

theorem captureSite_holds {settings : Settings} {previous : Quantity} {b c : Baseline}
    {site : Site} (hb : b.Holds P) (ho : OwnerHas P site)
    (h : captureSite settings previous b site = .ok c) : c.Holds P := by
  rcases captureSite_cases h with
    rfl | ⟨helper, line, v, rfl, hv, rfl⟩ | ⟨helper, ordinal, line, v, rfl, hv, rfl⟩
  · exact hb
  · exact hb.addRest (ho helper rfl) (normalizeTriple_eq_ok hv)
  · exact hb.addOffset (ho helper rfl) (normalizeTriple_eq_ok hv)

/-- **A captured baseline holds numbers**, of helpers that the lines of the script name. -/
theorem holds_of_capture {settings : Settings} {lines : List Text} {previous : Quantity}
    {b : Baseline} (hP : ∀ line ∈ lines, ∀ name, readHelper? line = some name → P name)
    (h : capture settings lines previous = .ok b) : b.Holds P := by
  have ho : ∀ site ∈ survey lines, OwnerHas P site :=
    ownerHas_survey .code hP none [] fun _ hh => nomatch hh
  have hempty : (∅ : Baseline).Holds P := ⟨fun _ he => (nomatch he), fun _ he => (nomatch he)⟩
  exact foldlM_induction (fun site hs _ _ hb hc => captureSite_holds hb (ho site hs) hc) hempty h

end Holds

/-- **A captured baseline can be written as records.** -/
theorem writable_of_capture {settings : Settings} {lines : List Text} {previous : Quantity}
    {b : Baseline} (h : capture settings lines previous = .ok b) : b.Writable :=
  holds_of_capture (fun _ _ _ hn => (isWord_of_readHelper? hn).1) h

/-! ## 3. Agreement -/

/-- Two baselines that give a site the same value. -/
def Agree (b c : Baseline) : Site → Prop
  | .rest (some helper) _ => b.rest.get? helper = c.rest.get? helper
  | .offset (some helper) ordinal _ =>
    b.contains helper = c.contains helper ∧
      (b.sequence helper)[ordinal]? = (c.sequence helper)[ordinal]?
  | _ => True

theorem writeSite_congr {b c : Baseline} {site : Site} (h : b.Agree c site) (scale : Decimal)
    (n : Nat) (text : Text) : writeSite b scale n text site = writeSite c scale n text site := by
  cases site with
  | other => rfl
  | unreadable fault => rfl
  | rest owner line =>
    cases owner with
    | none => rfl
    | some helper =>
      have h : b.rest.get? helper = c.rest.get? helper := h
      simp only [writeSite, Option.bind_some, h]
  | offset owner ordinal line =>
    cases owner with
    | none => rfl
    | some helper =>
      obtain ⟨h1, h2⟩ : b.contains helper = c.contains helper ∧
        (b.sequence helper)[ordinal]? = (c.sequence helper)[ordinal]? := h
      simp only [writeSite, Option.filter_some, h1]
      cases c.contains helper with
      | false => rfl
      | true => simp only [if_true, h2]

/-- **Baselines that agree on all sites write the same script.** -/
theorem writeSites_congr {b c : Baseline} {pairs : List (Text × Site)}
    (h : ∀ p ∈ pairs, b.Agree c p.2) (scale : Decimal) (n : Nat) :
    writeSites b scale n pairs = writeSites c scale n pairs := by
  induction pairs generalizing n with
  | nil => rfl
  | cons p pairs ih =>
    obtain ⟨text, site⟩ := p
    rw [writeSites, writeSites, writeSite_congr (h _ List.mem_cons_self),
      ih fun p hp => h p (List.mem_cons_of_mem _ hp)]

/-- Of a site only its helper and its ordinal count for agreement. -/
theorem Agree.of_sameFrame {b c : Baseline} {s t : Site} (h : b.Agree c t) (hs : s.SameFrame t) :
    b.Agree c s := by
  cases s with
  | other => trivial
  | unreadable fault => trivial
  | rest owner line =>
    cases t with
    | rest owner' line' =>
      obtain ⟨rfl, -⟩ := hs
      cases owner <;> exact h
    | _ => cases hs
  | offset owner ordinal line =>
    cases t with
    | offset owner' ordinal' line' =>
      obtain ⟨rfl, rfl, -⟩ := hs
      cases owner <;> exact h
    | _ => cases hs

end Baseline

end ModelScale
