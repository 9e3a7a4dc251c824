import ModelScale.Proofs.Qc.Alike

/-
# Rows of fields

A line that is read field by field can often be read in several ways, and the first that leads to
the end is taken.  Here such a reader is given for any row of names and numbers that ends in a
number and a trail (`fields?`).  Main statements:

* `fields?_eq_some_iff`: how a row is read, field by field (`Row`);
* `Row.spaced`: the fields of a row stand one behind the other, with gaps between them;
* `isSome_fields?_of_alike`: a row in one of two texts that read alike is a row in the other;
* `fields?_of_spaced`: a row is read again, field by field, when it is written with other gaps and
  with other numbers for numbers.

The last one needs the one before it.  A field is found again in its place, but that it is reached
first is another matter: a quotation that was tried before, and led nowhere, must lead nowhere
again.
-/

namespace ModelScale

open Text Numeral

/-! ## 1. Rows of fields -/

/-- What stands in a row of fields. -/
inductive FieldKind where
  | name
  | number
  /-- A number that may be missing. -/
  | optional

/-- Fields of the given kinds, a number behind them, and the rest of the line.  A name can be read
in two ways, and the first that leads to the end is taken. -/
def fields? : List FieldKind → Text → Option (List Text × Text)
  | [], t =>
    (takeNumber? t).bind fun p => (tailOfLine? p.2).map fun trail => ([p.1], trail)
  | .name :: kinds, t =>
    (names t).findSome? fun p => (fields? kinds p.2).map fun q => (p.1 :: q.1, q.2)
  | .number :: kinds, t =>
    (takeNumber? t).bind fun p => (fields? kinds p.2).map fun q => (p.1 :: q.1, q.2)
  | .optional :: kinds, t =>
    match takeNumber? t with
    | some p => (fields? kinds p.2).map fun q => (p.1 :: q.1, q.2)
    | none => fields? kinds t

/-- A row of fields: what is read for each, and that no other way comes before it.  A word is a name
only where no quotation leads to the end, and an optional number is read if there is one. -/
inductive Row : List FieldKind → Text → List Text → Text → Prop
  | last {t w r trail : Text} (hn : takeNumber? t = some (w, r))
      (ht : tailOfLine? r = some trail) : Row [] t [w] trail
  | quoted {kinds : List FieldKind} {t w r trail : Text} {ws : List Text}
      (hq : quotedName? t = some (w, r)) (h : Row kinds r ws trail) :
      Row (.name :: kinds) t (w :: ws) trail
  | plain {kinds : List FieldKind} {t w r trail : Text} {ws : List Text}
      (hnone : ∀ p, quotedName? t = some p → fields? kinds p.2 = none)
      (hp : plainName? t = some (w, r)) (h : Row kinds r ws trail) :
      Row (.name :: kinds) t (w :: ws) trail
  | number {kind : FieldKind} {kinds : List FieldKind} {t w r trail : Text} {ws : List Text}
      (hkind : kind ≠ .name) (hn : takeNumber? t = some (w, r)) (h : Row kinds r ws trail) :
      Row (kind :: kinds) t (w :: ws) trail
  | missing {kinds : List FieldKind} {t trail : Text} {ws : List Text} (hn : takeNumber? t = none)
      (h : Row kinds t ws trail) : Row (.optional :: kinds) t ws trail

theorem map_cons_eq_some {o : Option (List Text × Text)} {w trail : Text} {ws : List Text} :
    (o.map fun q => (w :: q.1, q.2)) = some (ws, trail) ↔
      ∃ ws₁, o = some (ws₁, trail) ∧ ws = w :: ws₁ := by
  rw [Option.map_eq_some_iff]
  constructor
  · rintro ⟨⟨ws₁, trail⟩, ho, he⟩
    obtain ⟨rfl, rfl⟩ := Prod.mk.inj he
    exact ⟨ws₁, ho, rfl⟩
  · rintro ⟨ws₁, ho, rfl⟩
    exact ⟨(ws₁, trail), ho, rfl⟩

theorem fields?_of_takeNumber? {kind : FieldKind} (hkind : kind ≠ .name) {t w r : Text}
    (hn : takeNumber? t = some (w, r)) (kinds : List FieldKind) :
    fields? (kind :: kinds) t = (fields? kinds r).map fun q => (w :: q.1, q.2) := by
  cases kind with
  | name => exact absurd rfl hkind
  | number => rw [fields?, hn, Option.bind_some]
  | optional => rw [fields?, hn]

theorem row_of_fields? {kinds : List FieldKind} {t trail : Text} {ws : List Text}
    (h : fields? kinds t = some (ws, trail)) : Row kinds t ws trail := by
  induction kinds generalizing t ws with
  | nil =>
    obtain ⟨⟨w, r⟩, hn, h⟩ := Option.bind_eq_some_iff.mp h
    obtain ⟨trail, ht, he⟩ := Option.map_eq_some_iff.mp h
    obtain ⟨rfl, rfl⟩ := Prod.mk.inj he
    exact .last hn ht
  | cons kind kinds ih =>
    have hnumber : ∀ {w r : Text}, kind ≠ .name → takeNumber? t = some (w, r) →
        Row (kind :: kinds) t ws trail := by
      intro w r hkind hn
      rw [fields?_of_takeNumber? hkind hn] at h
      obtain ⟨ws₁, hk, rfl⟩ := map_cons_eq_some.mp h
      exact .number hkind hn (ih hk)
    cases kind with
    | name =>
      rw [fields?, findSome?_names] at h
      rcases Option.or_eq_some_iff.mp h with h | ⟨hnone, h⟩
      · obtain ⟨⟨w, r⟩, hq, h⟩ := Option.bind_eq_some_iff.mp h
        obtain ⟨ws₁, hk, rfl⟩ := map_cons_eq_some.mp h
        exact .quoted hq (ih hk)
      · obtain ⟨⟨w, r⟩, hp, h⟩ := Option.bind_eq_some_iff.mp h
        obtain ⟨ws₁, hk, rfl⟩ := map_cons_eq_some.mp h
        refine .plain (fun p hq => ?_) hp (ih hk)
        exact Option.map_eq_none_iff.mp (Option.bind_eq_none_iff.mp hnone p hq)
    | number =>
      obtain ⟨⟨w, r⟩, hn, -⟩ := Option.bind_eq_some_iff.mp h
      exact hnumber (by simp) hn
    | optional =>
      cases hn : takeNumber? t with
      | some p => exact hnumber (by simp) hn
      | none =>
        rw [fields?, hn] at h
        exact .missing hn (ih h)

/-- **A row is read field by field.** -/
theorem fields?_eq_some_iff {kinds : List FieldKind} {t trail : Text} {ws : List Text} :
    fields? kinds t = some (ws, trail) ↔ Row kinds t ws trail := by
  refine ⟨row_of_fields?, fun h => ?_⟩
  induction h with
  | last hn ht => rw [fields?, hn, Option.bind_some, ht, Option.map_some]
  | quoted hq _ ih => rw [fields?, findSome?_names, hq, Option.bind_some, ih, Option.map_some,
      Option.some_or]
  | @plain kinds t w r trail ws hnone hp _ ih =>
    have hquoted : ((quotedName? t).bind fun p =>
        (fields? kinds p.2).map fun q => (p.1 :: q.1, q.2)) = none :=
      Option.bind_eq_none_iff.mpr fun p hq => Option.map_eq_none_iff.mpr (hnone p hq)
    rw [fields?, findSome?_names, hquoted, Option.none_or, hp, Option.bind_some, ih,
      Option.map_some]
  | number hkind hn _ ih => rw [fields?_of_takeNumber? hkind hn, ih, Option.map_some]
  | missing hn _ ih =>
    rw [fields?, hn]
    exact ih

namespace Row

variable {kinds : List FieldKind} {t trail : Text} {ws : List Text}

theorem ne_nil (h : Row kinds t ws trail) : ws ≠ [] := by
  induction h with
  | missing _ _ ih => exact ih
  | _ => exact List.cons_ne_nil _ _

/-- The fields of a row have gaps in front of them. -/
theorem spaced (h : Row kinds t ws trail) (hg : AtGap t) (hu : Unbroken t) : Spaced ws trail t := by
  induction h with
  | last hn ht =>
    obtain ⟨-, -, -, -, hr⟩ := takeNumber?_eq_some hn
    rw [tailOfLine?_of_unbroken (Eyeball.unbroken_of_takeNumber? hu hn) hr] at ht
    obtain rfl := Option.some.inj ht
    exact .of_takeNumber? hg hn (.nil hr)
  | quoted hq _ ih =>
    have hm := mem_names_of_quotedName? hq
    have hr := atGap_of_startsBlank (mem_names hm).2.1
    exact .of_mem_names hg hm (ih hr (Eyeball.unbroken_of_mem_names hu hm))
  | plain _ hp _ ih =>
    have hm := mem_names_of_plainName? hp
    have hr := atGap_of_startsBlank (mem_names hm).2.1
    exact .of_mem_names hg hm (ih hr (Eyeball.unbroken_of_mem_names hu hm))
  | number _ hn _ ih =>
    obtain ⟨-, -, -, -, hr⟩ := takeNumber?_eq_some hn
    exact .of_takeNumber? hg hn (ih hr (Eyeball.unbroken_of_takeNumber? hu hn))
  | missing _ _ ih => exact ih hg hu

end Row

theorem fields?_blanks_append {b : Text} (hb : Blanks b) (kinds : List FieldKind) (t : Text) :
    fields? kinds (b ++ t) = fields? kinds t := by
  induction kinds with
  | nil => rw [fields?, fields?, takeNumber?_blanks_append hb]
  | cons kind kinds ih =>
    cases kind with
    | name => rw [fields?, fields?, names, names, trimStart_append hb]
    | number => rw [fields?, fields?, takeNumber?_blanks_append hb]
    | optional => rw [fields?, fields?, takeNumber?_blanks_append hb, ih]

/-- There is a number at the end of a row, so nothing but blanks is no row. -/
theorem fields?_of_blanks {b : Text} (hb : Blanks b) (kinds : List FieldKind) :
    fields? kinds b = none := by
  have hnumber := takeNumber?_of_blanks hb
  induction kinds with
  | nil => rw [fields?, hnumber, Option.bind_none]
  | cons kind kinds ih =>
    cases kind with
    | name =>
      have hnames : names b = [] := by
        rw [names_eq, plainName?_of_blanks hb, quotedName?, trimStart_of_blanks hb]
        rfl
      rw [fields?, hnames]
      rfl
    | number => rw [fields?, hnumber, Option.bind_none]
    | optional =>
      rw [fields?, hnumber]
      exact ih

theorem not_row_of_blanks {kinds : List FieldKind} {b trail : Text} {ws : List Text}
    (hb : Blanks b) : ¬ Row kinds b ws trail := by
  intro h
  rw [← fields?_eq_some_iff, fields?_of_blanks hb] at h
  cases h

/-! ## 2. Rows in texts that read alike -/

theorem isSome_fields?_name {kinds : List FieldKind} {t w r : Text} (hm : (w, r) ∈ names t)
    (h : (fields? kinds r).isSome = true) : (fields? (.name :: kinds) t).isSome = true := by
  rw [fields?, List.isSome_findSome?, List.any_eq_true]
  exact ⟨(w, r), hm, by rwa [Option.isSome_map]⟩

/-- **A row in one text is a row in the other.** -/
theorem isSome_fields?_of_alike {kinds : List FieldKind} {t t' : Text} (h : Alike t t')
    (hu : Unbroken t) (hf : (fields? kinds t').isSome = true) :
    (fields? kinds t).isSome = true := by
  obtain ⟨⟨ws', trail'⟩, hrow⟩ := Option.isSome_iff_exists.mp hf
  rw [fields?_eq_some_iff] at hrow
  clear hf
  induction hrow generalizing t with
  | last hn' _ =>
    obtain ⟨w, r, hn, -⟩ := h.takeNumber? hn'
    obtain ⟨-, -, -, -, hg⟩ := takeNumber?_eq_some hn
    have ht := tailOfLine?_of_unbroken (Eyeball.unbroken_of_takeNumber? hu hn) hg
    rw [fields?_eq_some_iff.mpr (.last hn ht)]
    rfl
  | quoted hq' hrow ih =>
    rcases h.quotedName? hq' with hb | ⟨w, r, hq, hr⟩
    · exact absurd hrow (not_row_of_blanks hb)
    · have hm := mem_names_of_quotedName? hq
      exact isSome_fields?_name hm (ih hr (Eyeball.unbroken_of_mem_names hu hm))
  | plain _ hp' hrow ih =>
    rcases h.plainName? hp' with hb | ⟨w, r, hp, hr⟩
    · exact absurd hrow (not_row_of_blanks hb)
    · have hm := mem_names_of_plainName? hp
      exact isSome_fields?_name hm (ih hr (Eyeball.unbroken_of_mem_names hu hm))
  | number hkind hn' _ ih =>
    obtain ⟨w, r, hn, hr⟩ := h.takeNumber? hn'
    rw [fields?_of_takeNumber? hkind hn, Option.isSome_map]
    exact ih hr (Eyeball.unbroken_of_takeNumber? hu hn)
  | missing hn' _ ih =>
    have hn := h.isSome_takeNumber?
    rw [hn', Option.isSome_none, eq_comm, Option.isSome_eq_false_iff, Option.isNone_iff_eq_none]
      at hn
    rw [fields?, hn]
    exact ih h hu

theorem fields?_eq_none_of_alike {kinds : List FieldKind} {t t' : Text} (h : Alike t t')
    (hu : Unbroken t) (hnone : fields? kinds t = none) : fields? kinds t' = none := by
  by_contra hsome
  have := isSome_fields?_of_alike h hu (Option.isSome_iff_ne_none.mpr hsome)
  rw [hnone] at this
  cases this

theorem Spaced.startsBlank {ws : List Text} {trail t : Text} (h : Spaced ws trail t)
    (hne : ws ≠ []) : startsBlank t = true := by
  cases h with
  | nil _ => exact absurd rfl hne
  | @cons b w r _ ws hb hbne h =>
    obtain ⟨c, b, rfl⟩ := List.exists_cons_of_ne_nil hbne
    exact (blanks_cons.mp hb).1

/-- A quotation in front of another text that goes on with a blank. -/
theorem quotedName?_of_spaced {t w r b r' : Text} (h : quotedName? t = some (w, r)) (hb : Blanks b)
    (hr' : startsBlank r' = true) : quotedName? (b ++ (w ++ r')) = some (w, r') := by
  obtain ⟨inside, rfl, hm, -, -⟩ := quotedName?_eq_some_iff.mp h
  refine quotedName?_eq_some_iff.mpr ⟨inside, rfl, hm, ?_, hr'⟩
  rw [trimStart_append hb, List.cons_append, List.cons_append]
  exact trimStart_of_inked (by decide)

/-- A word in front of another text that goes on with a blank. -/
theorem plainName?_of_spaced {t w r b r' : Text} (h : plainName? t = some (w, r)) (hb : Blanks b)
    (hr' : startsBlank r' = true) : plainName? (b ++ (w ++ r')) = some (w, r') := by
  rcases blanks_or_word t with ht | ⟨c, v, s, rfl, hc, hv, hne, hs⟩
  · rw [plainName?_of_blanks ht] at h
    cases h
  · rw [plainName?_word hc hv hne hs] at h
    split at h
    · rename_i hname
      obtain ⟨rfl, rfl⟩ := Prod.mk.inj (Option.some.inj h)
      rw [plainName?_word hb hv hne (atGap_of_startsBlank hr'), if_pos ⟨hname.1, hr'⟩]
    · cases h

theorem Spaced.Swapped.eq_of_mem_names {t w w' r : Text} (h : Spaced.Swapped w w')
    (hm : (w, r) ∈ names t) : w = w' := by
  rcases h with h | ⟨hn, -⟩
  · exact h.symm
  · rw [isNumeral_of_mem_names hm] at hn
    cases hn

/-- The first of the fields that are written, with what is written behind it. -/
theorem Spaced.exists_of_swapped_cons {w t' trail' : Text} {ws ws' : List Text}
    (h' : Spaced ws' trail' t') (hw : List.Forall₂ Spaced.Swapped (w :: ws) ws')
    (hu' : Unbroken t') :
    ∃ b w' r' ws₁', Spaced.Swapped w w' ∧ List.Forall₂ Spaced.Swapped ws ws₁' ∧ Blanks b ∧
      Spaced ws₁' trail' r' ∧ Unbroken r' ∧ ws' = w' :: ws₁' ∧ t' = b ++ (w' ++ r') := by
  cases hw with
  | cons hww hws =>
    cases h' with
    | cons hb _ h' =>
      simp only [unbroken_append] at hu'
      exact ⟨_, _, _, _, hww, hws, hb, h', hu'.2.2, rfl, rfl⟩

/-- **A row is read again as it was written**: with other gaps, with other numbers for numbers, and
with a trail that is alike.  No quotation comes in the way that was not there before. -/
theorem fields?_of_spaced {kinds : List FieldKind} {t t' trail trail' : Text} {ws ws' : List Text}
    (hg : AtGap t) (hu : Unbroken t) (hu' : Unbroken t') (h : fields? kinds t = some (ws, trail))
    (h' : Spaced ws' trail' t') (hw : List.Forall₂ Spaced.Swapped ws ws')
    (ht : Alike trail trail') : fields? kinds t' = some (ws', trail') := by
  rw [fields?_eq_some_iff] at h ⊢
  induction h generalizing t' ws' with
  | last hn _ =>
    obtain ⟨-, -, -, hnum, -⟩ := takeNumber?_eq_some hn
    obtain ⟨b, w', r', ws₁', hww, hnil, hb, hrest, hur', rfl, rfl⟩ :=
      h'.exists_of_swapped_cons hw hu'
    cases hnil
    cases hrest with
    | nil hg' =>
      rw [← hww.isNumeral_eq] at hnum
      exact .last (takeNumber?_append hb hnum hg') (tailOfLine?_of_unbroken hur' hg')
  | quoted hq h ih =>
    have hm := mem_names_of_quotedName? hq
    have hr := atGap_of_startsBlank (mem_names hm).2.1
    obtain ⟨b, w', r', ws₁', hww, hws, hb, hrest, hur', rfl, rfl⟩ :=
      h'.exists_of_swapped_cons hw hu'
    obtain rfl := hww.eq_of_mem_names hm
    have hrow := ih hr (Eyeball.unbroken_of_mem_names hu hm) hur' hrest hws ht
    exact .quoted (quotedName?_of_spaced hq hb (hrest.startsBlank hrow.ne_nil)) hrow
  | @plain kinds t w r trail ws hnone hp h ih =>
    have halike := ((Row.plain hnone hp h).spaced hg hu).alike h' hw ht
    have hm := mem_names_of_plainName? hp
    have hr := atGap_of_startsBlank (mem_names hm).2.1
    obtain ⟨b, w', r', ws₁', hww, hws, hb, hrest, hur', rfl, rfl⟩ :=
      h'.exists_of_swapped_cons hw hu'
    obtain rfl := hww.eq_of_mem_names hm
    have hrow := ih hr (Eyeball.unbroken_of_mem_names hu hm) hur' hrest hws ht
    refine .plain ?_ (plainName?_of_spaced hp hb (hrest.startsBlank hrow.ne_nil)) hrow
    -- a quotation here is one there, and leads as far
    rintro ⟨a', s'⟩ hq'
    rcases halike.quotedName? hq' with hs' | ⟨a, s, hq, hs⟩
    · exact fields?_of_blanks hs' kinds
    · have hus := Eyeball.unbroken_of_mem_names hu (mem_names_of_quotedName? hq)
      exact fields?_eq_none_of_alike hs hus (hnone _ hq)
  | number hkind hn h ih =>
    obtain ⟨-, -, -, hnum, hr⟩ := takeNumber?_eq_some hn
    obtain ⟨b, w', r', ws₁', hww, hws, hb, hrest, hur', rfl, rfl⟩ :=
      h'.exists_of_swapped_cons hw hu'
    rw [← hww.isNumeral_eq] at hnum
    have hrow := ih hr (Eyeball.unbroken_of_takeNumber? hu hn) hur' hrest hws ht
    exact .number hkind (takeNumber?_append hb hnum hrest.atGap) hrow
  | missing hn h ih =>
    have hn' := ((h.spaced hg hu).alike h' hw ht).isSome_takeNumber?
    rw [hn, Option.isSome_none, Option.isSome_eq_false_iff, Option.isNone_iff_eq_none] at hn'
    exact .missing hn' (ih hg hu hu' h' hw ht)

end ModelScale
