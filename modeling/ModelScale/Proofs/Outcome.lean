import Mathlib.Data.List.Forall2
import Mathlib.Tactic.Common

/-
# Calculations that can fail

What it takes for a calculation in `Except` to succeed: every step does, and the result of one is
the input of the next.  A sequence of calculations over a list succeeds element by element
(`mapM_eq_ok`).
-/

namespace ModelScale

variable {ε δ α β : Type}

/-! ## 1. Single steps -/

theorem bind_eq_ok {x : Except ε α} {f : α → Except ε β} {b : β} :
    (x >>= f) = .ok b ↔ ∃ a, x = .ok a ∧ f a = .ok b := by
  cases x <;> simp [bind, Except.bind]

theorem bind_eq_error {x : Except ε α} {f : α → Except ε β} {e : ε} :
    (x >>= f) = .error e ↔ x = .error e ∨ ∃ a, x = .ok a ∧ f a = .error e := by
  cases x <;> simp [bind, Except.bind]

theorem map_eq_error {f : α → β} {x : Except ε α} {e : ε} :
    f <$> x = .error e ↔ x = .error e := by
  cases x <;> simp [Functor.map, Except.map]

theorem pure_eq_ok {a b : α} : (pure a : Except ε α) = .ok b ↔ a = b := by
  simp [pure, Except.pure]

theorem pure_ne_error {a : α} {e : ε} : (pure a : Except ε α) ≠ .error e := by
  intro h
  cases h

theorem map_eq_ok {f : α → β} {x : Except ε α} {b : β} :
    f <$> x = .ok b ↔ ∃ a, x = .ok a ∧ f a = b := by
  cases x <;> simp [Functor.map, Except.map]

theorem exceptMap_eq_ok {f : α → β} {x : Except ε α} {b : β} :
    x.map f = .ok b ↔ ∃ a, x = .ok a ∧ f a = b :=
  map_eq_ok

theorem mapError_eq_ok {f : ε → δ} {x : Except ε α} {a : α} :
    x.mapError f = .ok a ↔ x = .ok a := by
  cases x <;> simp [Except.mapError]

theorem mapError_eq_error {f : ε → δ} {x : Except ε α} {e : δ} :
    x.mapError f = .error e ↔ ∃ e', x = .error e' ∧ f e' = e := by
  cases x <;> simp [Except.mapError]

theorem toOption_eq_some {x : Except ε α} {a : α} : x.toOption = some a ↔ x = .ok a := by
  cases x <;> simp [Except.toOption]

/-! ## 2. Lists -/

/-- A list is mapped by mapping its elements in order. -/
theorem mapM_eq_ok {f : α → Except ε β} {l : List α} {r : List β} :
    l.mapM f = .ok r ↔ List.Forall₂ (fun a b => f a = .ok b) l r := by
  induction l generalizing r with
  | nil =>
    rw [List.mapM_nil, pure_eq_ok]
    cases r <;> simp
  | cons a l ih =>
    rw [List.mapM_cons, bind_eq_ok]
    constructor
    · rintro ⟨b, hb, h⟩
      obtain ⟨s, hs, h⟩ := bind_eq_ok.mp h
      obtain rfl := pure_eq_ok.mp h
      exact List.Forall₂.cons hb (ih.mp hs)
    · rintro (_ | ⟨hb, hs⟩)
      exact ⟨_, hb, bind_eq_ok.mpr ⟨_, ih.mpr hs, pure_eq_ok.mpr rfl⟩⟩

/-- A list that cannot be mapped fails at the first of its elements that fails. -/
theorem mapM_eq_error {f : α → Except ε β} {l : List α} {e : ε} :
    l.mapM f = .error e ↔
      ∃ pre a post, l = pre ++ a :: post ∧ (∀ x ∈ pre, ∃ b, f x = .ok b) ∧ f a = .error e := by
  induction l with
  | nil => simp [pure_ne_error]
  | cons a l ih =>
    rw [List.mapM_cons, bind_eq_error]
    constructor
    · rintro (ha | ⟨b, hb, h⟩)
      · exact ⟨[], a, l, rfl, by simp, ha⟩
      · rcases bind_eq_error.mp h with h | ⟨bs, -, h⟩
        · obtain ⟨pre, x, post, rfl, hok, hx⟩ := ih.mp h
          exact ⟨a :: pre, x, post, rfl, List.forall_mem_cons.mpr ⟨⟨b, hb⟩, hok⟩, hx⟩
        · exact absurd h pure_ne_error
    · rintro ⟨_ | ⟨y, pre⟩, x, post, hl, hok, hx⟩
      · obtain ⟨rfl, rfl⟩ := List.cons.inj hl
        exact Or.inl hx
      · obtain ⟨rfl, rfl⟩ := List.cons.inj hl
        obtain ⟨⟨b, hb⟩, hok⟩ := List.forall_mem_cons.mp hok
        have hrest := ih.mpr ⟨pre, x, post, rfl, hok, hx⟩
        exact Or.inr ⟨b, hb, bind_eq_error.mpr (Or.inl hrest)⟩

/-- Where only second components are mapped, the first ones stay. -/
theorem mapM_snd_eq_ok {κ : Type} {f : κ → α → Except ε β} {l : List (κ × α)} {r : List (κ × β)}
    (h : (l.mapM fun (k, a) => (k, ·) <$> f k a) = .ok r) :
    r.map Prod.fst = l.map Prod.fst ∧ ∀ k a, (k, a) ∈ l → ∃ b, (k, b) ∈ r ∧ f k a = .ok b := by
  have hf := mapM_eq_ok.mp h
  clear h
  induction hf with
  | nil => exact ⟨rfl, fun _ _ h => nomatch h⟩
  | cons he _ ih =>
    obtain ⟨b, hb, rfl⟩ := map_eq_ok.mp he
    refine ⟨by rw [List.map_cons, List.map_cons, ih.1], ?_⟩
    intro k a hka
    rcases List.mem_cons.mp hka with rfl | hka
    · exact ⟨b, List.mem_cons_self, hb⟩
    · obtain ⟨c, hc, hfc⟩ := ih.2 k a hka
      exact ⟨c, List.mem_cons_of_mem _ hc, hfc⟩

/-- Calculations that all succeed have results. -/
theorem exists_map_ok {l : List (Except ε α)} (h : ∀ x ∈ l, ∃ a, x = .ok a) :
    ∃ r : List α, l = r.map .ok := by
  induction l with
  | nil => exact ⟨[], rfl⟩
  | cons x l ih =>
    obtain ⟨a, rfl⟩ := h x List.mem_cons_self
    obtain ⟨r, rfl⟩ := ih fun y hy => h y (List.mem_cons_of_mem _ hy)
    exact ⟨a :: r, rfl⟩

theorem mapM_id_eq_ok {l : List (Except ε α)} {r : List α} :
    l.mapM id = .ok r ↔ l = r.map .ok := by
  rw [mapM_eq_ok]
  constructor
  · intro h
    induction h with
    | nil => rfl
    | cons hx _ ih => rw [List.map_cons, ← ih, ← hx]; rfl
  · rintro rfl
    rw [List.forall₂_map_left_iff]
    exact List.forall₂_same.mpr fun _ _ => rfl

/-- A list can be mapped if all of its elements can. -/
theorem exists_mapM_eq_ok {f : α → Except ε β} {l : List α} (h : ∀ a ∈ l, ∃ b, f a = .ok b) :
    ∃ r, l.mapM f = .ok r := by
  induction l with
  | nil => exact ⟨[], rfl⟩
  | cons a l ih =>
    obtain ⟨b, hb⟩ := h a List.mem_cons_self
    obtain ⟨r, hr⟩ := ih fun c hc => h c (List.mem_cons_of_mem _ hc)
    exact ⟨b :: r, by rw [List.mapM_cons, hb, hr]; rfl⟩

/-- What every step of a fold keeps, the fold keeps. -/
theorem foldlM_induction {P : β → Prop} {f : β → α → Except ε β} {l : List α} {b c : β}
    (hf : ∀ a ∈ l, ∀ d e, P d → f d a = .ok e → P e) (hb : P b) (h : l.foldlM f b = .ok c) :
    P c := by
  induction l generalizing b with
  | nil =>
    obtain rfl := pure_eq_ok.mp h
    exact hb
  | cons a l ih =>
    rw [List.foldlM_cons] at h
    obtain ⟨d, hd, h⟩ := bind_eq_ok.mp h
    exact ih (fun x hx => hf x (List.mem_cons_of_mem _ hx)) (hf a List.mem_cons_self b d hb hd) h

/-- A fold that succeeds does so at each element. -/
theorem foldlM_step_of_eq_ok {f : β → α → Except ε β} {l : List α} {b c : β}
    (h : l.foldlM f b = .ok c) {a : α} (ha : a ∈ l) : ∃ d e, f d a = .ok e := by
  induction l generalizing b with
  | nil => cases ha
  | cons x l ih =>
    rw [List.foldlM_cons] at h
    obtain ⟨d, hd, h⟩ := bind_eq_ok.mp h
    rcases List.mem_cons.mp ha with rfl | ha
    · exact ⟨b, d, hd⟩
    · exact ih h ha

/-- A fold that fails does so at one of its elements. -/
theorem foldlM_eq_error {f : β → α → Except ε β} {l : List α} {b : β} {e : ε}
    (h : l.foldlM f b = .error e) : ∃ a ∈ l, ∃ c, f c a = .error e := by
  induction l generalizing b with
  | nil => exact absurd h pure_ne_error
  | cons a l ih =>
    rw [List.foldlM_cons] at h
    rcases bind_eq_error.mp h with h | ⟨d, -, h⟩
    · exact ⟨a, List.mem_cons_self, b, h⟩
    · obtain ⟨x, hx, c, hc⟩ := ih h
      exact ⟨x, List.mem_cons_of_mem _ hx, c, hc⟩

/-- A filter succeeds if its test does at each element. -/
theorem exists_filterM_eq_ok {α ε : Type} {p : α → Except ε Bool} {l : List α}
    (h : ∀ a ∈ l, ∃ b, p a = .ok b) : ∃ r, l.filterM p = .ok r := by
  have haux : ∀ acc, ∃ r, l.filterAuxM p acc = .ok r := by
    induction l with
    | nil => exact fun acc => ⟨acc, rfl⟩
    | cons a l ih =>
      intro acc
      obtain ⟨b, hb⟩ := h a List.mem_cons_self
      obtain ⟨r, hr⟩ := ih (fun c hc => h c (List.mem_cons_of_mem _ hc)) (cond b (a :: acc) acc)
      exact ⟨r, by rw [List.filterAuxM, hb]; exact hr⟩
  obtain ⟨r, hr⟩ := haux []
  exact ⟨r.reverse, by rw [List.filterM, hr]; rfl⟩

end ModelScale
