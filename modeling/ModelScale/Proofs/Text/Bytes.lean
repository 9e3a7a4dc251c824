import Mathlib.Data.List.Infix
import Mathlib.Tactic.Common
import ModelScale.Proofs.Text.Words
import ModelScale.Text.Bytes

/-
# Texts that survive writing

Every byte string has a text that stands for it, but not every text stands for the bytes that it is
written as: two carriers side by side may spell a character, and are read back as that character.  A
text is faithful if none of its carriers do.  Main statements:

* `decode_encode`: a faithful text is read back as it was written;
* `faithful_decode`: what is read from a file is faithful;
* `faithful_append_cons`: faithful texts with a plain character between them make a faithful text,
  so rewrites that cut a text at plain characters stay faithful.
-/

namespace ModelScale.Text

/-! ## 1. Plain characters -/

/-- A character that stands for itself: it carries no byte. -/
def Plain (c : Char) : Prop := carried? c = none

instance (c : Char) : Decidable (Plain c) := inferInstanceAs (Decidable (_ = _))

instance (t : Text) : Decidable (∀ c ∈ t, Plain c) := List.decidableBAll _ t

theorem plain_of_lt {c : Char} (h : c.toNat < carrierBase + 0x80) : Plain c :=
  if_neg (Nat.not_le.mpr h)

theorem toNat_lt (c : Char) : c.toNat < 0x110000 := by
  rcases c.valid with hv | hv
  · exact Nat.lt_trans hv (by decide)
  · exact hv.2

theorem toNat_byte {n : Nat} (h : n < 0x100) : (UInt8.ofNat n).toNat = n :=
  UInt8.toNat_ofNat_of_lt' h

/-- A character that is not plain is the carrier of a byte above the ASCII range. -/
theorem exists_of_not_plain {c : Char} (h : ¬ Plain c) :
    ∃ b, carried? c = some b ∧ c = carrier b ∧ 0x80 ≤ b.toNat := by
  have hlt := toNat_lt c
  by_cases hc : carrierBase + 0x80 ≤ c.toNat
  · have hb : (UInt8.ofNat (c.toNat - carrierBase)).toNat = c.toNat - carrierBase :=
      toNat_byte (by simp only [carrierBase] at hc ⊢; omega)
    refine ⟨UInt8.ofNat (c.toNat - carrierBase), if_pos hc, ?_, by omega⟩
    rw [carrier, hb, Nat.add_sub_cancel' (by omega), Char.ofNat_toNat]
  · exact absurd (if_neg hc) h

theorem encodeChar_of_plain {c : Char} (h : Plain c) : encodeChar c = utf8 c.toNat := by
  have h : carried? c = none := h
  rw [encodeChar, h]

theorem encode_append (t u : Text) : encode (t ++ u) = encode t ++ encode u :=
  List.flatMap_append

theorem encode_cons (c : Char) (t : Text) : encode (c :: t) = encodeChar c ++ encode t :=
  List.flatMap_cons

/-! ## 2. The form of a sequence -/

/-- A byte that goes on with a sequence. -/
def Continues (b : UInt8) : Prop := 0x80 ≤ b.toNat ∧ b.toNat < 0xC0

theorem continues_ofNat (n : Nat) : Continues (UInt8.ofNat (0x80 + n % 0x40)) := by
  rw [Continues, toNat_byte (by omega)]
  omega

theorem lowBits_ofNat (n : Nat) : lowBits (UInt8.ofNat (0x80 + n % 0x40)) = n % 0x40 := by
  rw [lowBits, toNat_byte (by omega)]
  omega

theorem sequenceLength_ofNat {n : Nat} (h : n < 0x100) :
    sequenceLength (UInt8.ofNat n) =
      if n < 0x80 then 1
      else if 0xC2 ≤ n ∧ n < 0xE0 then 2
      else if 0xE0 ≤ n ∧ n < 0xF0 then 3
      else if 0xF0 ≤ n ∧ n < 0xF5 then 4
      else 0 := by
  simp [sequenceLength, UInt8.lt_iff_toNat_lt, UInt8.le_iff_toNat_le, Nat.mod_eq_of_lt h]

/-- **A sequence** is a byte that tells its length and bytes that go on with it, and it spells its
code point. -/
theorem utf8_eq_cons {n : Nat} (hn : n < 0x110000) :
    ∃ lead tail, utf8 n = lead :: tail ∧ ¬ Continues lead ∧ (∀ b ∈ tail, Continues b) ∧
      sequenceLength lead = tail.length + 1 ∧ codePoint (lead :: tail) = n := by
  by_cases h1 : n < 0x80
  · refine ⟨UInt8.ofNat n, [], by rw [utf8, if_pos h1], ?_, by simp, ?_, ?_⟩
    · rw [Continues, toNat_byte (by omega)]
      omega
    · rw [sequenceLength_ofNat (by omega), if_pos h1]
      rfl
    · exact toNat_byte (by omega)
  by_cases h2 : n < 0x800
  · refine ⟨_, _, by rw [utf8, if_neg h1, if_pos h2], ?_, ?_, ?_, ?_⟩
    · rw [Continues, toNat_byte (by omega)]
      omega
    · exact List.forall_mem_singleton.mpr (continues_ofNat _)
    · rw [sequenceLength_ofNat (by omega), if_neg (by omega), if_pos (by omega)]
      rfl
    · rw [codePoint, toNat_byte (by omega), lowBits_ofNat]
      omega
  by_cases h3 : n < 0x10000
  · refine ⟨_, _, by rw [utf8, if_neg h1, if_neg h2, if_pos h3], ?_, ?_, ?_, ?_⟩
    · rw [Continues, toNat_byte (by omega)]
      omega
    · exact List.forall_mem_cons.mpr ⟨continues_ofNat _,
        List.forall_mem_singleton.mpr (continues_ofNat _)⟩
    · rw [sequenceLength_ofNat (by omega), if_neg (by omega), if_neg (by omega), if_pos (by omega)]
      rfl
    · rw [codePoint, toNat_byte (by omega), lowBits_ofNat, lowBits_ofNat]
      omega
  · refine ⟨_, _, by rw [utf8, if_neg h1, if_neg h2, if_neg h3], ?_, ?_, ?_, ?_⟩
    · rw [Continues, toNat_byte (by omega)]
      omega
    · exact List.forall_mem_cons.mpr ⟨continues_ofNat _, List.forall_mem_cons.mpr
        ⟨continues_ofNat _, List.forall_mem_singleton.mpr (continues_ofNat _)⟩⟩
    · rw [sequenceLength_ofNat (by omega), if_neg (by omega), if_neg (by omega), if_neg (by omega),
        if_pos (by omega)]
      rfl
    · rw [codePoint, toNat_byte (by omega), lowBits_ofNat, lowBits_ofNat, lowBits_ofNat]
      omega

/-! ## 3. Reading one character -/

/-- A plain character is read from its bytes, whatever follows them. -/
theorem decodeChar?_encodeChar {c : Char} (h : Plain c) (rest : Bytes) :
    decodeChar? (encodeChar c ++ rest) = some (c, (encodeChar c).length) := by
  obtain ⟨lead, tail, hu, -, -, hl, hp⟩ := utf8_eq_cons (toNat_lt c)
  have he : encodeChar c = lead :: tail := (encodeChar_of_plain h).trans hu
  have htake : (lead :: (tail ++ rest)).take (tail.length + 1) = lead :: tail := by simp
  rw [he, List.cons_append, decodeChar?]
  simp only [hl, htake, hp, Char.ofNat_toNat, he]
  simp

theorem decode_encodeChar_append {c : Char} (h : Plain c) (rest : Bytes) :
    decode (encodeChar c ++ rest) = c :: decode rest := by
  have hd := decodeChar?_encodeChar h rest
  obtain ⟨lead, tail, hu, -⟩ := utf8_eq_cons (toNat_lt c)
  have he : encodeChar c = lead :: tail := (encodeChar_of_plain h).trans hu
  rw [he, List.cons_append] at hd ⊢
  rw [decode, hd]
  simp

/-- What is read is plain. -/
theorem plain_of_decodeChar? {bytes : Bytes} {c : Char} {n : Nat}
    (h : decodeChar? bytes = some (c, n)) : Plain c := by
  by_contra hc
  obtain ⟨b, hb, -, -⟩ := exists_of_not_plain hc
  have he : encodeChar c = [b] := by rw [encodeChar, hb]
  cases bytes with
  | nil => cases h
  | cons lead rest =>
    simp only [decodeChar?] at h
    split at h
    · rename_i hs
      obtain ⟨rfl, -⟩ := Prod.mk.inj (Option.some.inj h)
      simp only [Bool.and_eq_true, decide_eq_true_eq] at hs
      -- one byte does not reach as far as the carriers
      rw [← hs.1, he] at hb
      have hlt : b.toNat < 0x100 := b.toNat_lt
      have hn : (Char.ofNat (codePoint [b])).toNat = b.toNat := toNat_ofNat_of_lt (.inl (by
        rw [codePoint]
        omega))
      have hnone : carried? (Char.ofNat (codePoint [b])) = none := plain_of_lt (by
        rw [hn, carrierBase]
        omega)
      rw [hnone] at hb
      cases hb
    · cases h

/-! ## 4. Faithful texts -/

/-- No carriers that stand side by side spell a plain character. -/
def Faithful (t : Text) : Prop :=
  ∀ r, r <:+: t → (∀ c ∈ r, ¬ Plain c) → ∀ d, Plain d → encode r ≠ encodeChar d

theorem Faithful.piece {s t : Text} (h : Faithful t) (hs : s <:+: t) : Faithful s :=
  fun r hr => h r (hr.trans hs)

/-- Bytes that go on with a sequence are written by carriers. -/
theorem exists_carriers (k : Nat) (t : Text) (h : ∀ b ∈ (encode t).take k, Continues b) :
    ∃ r, r <+: t ∧ (∀ c ∈ r, ¬ Plain c) ∧ encode r = (encode t).take k := by
  induction t generalizing k with
  | nil => exact ⟨[], List.nil_prefix, by simp, by simp [encode]⟩
  | cons c t ih =>
    cases k with
    | zero => exact ⟨[], List.nil_prefix, by simp, rfl⟩
    | succ k =>
      rw [encode_cons] at h ⊢
      have hc : ¬ Plain c := by
        intro hc
        obtain ⟨lead, tail, hu, hl, -⟩ := utf8_eq_cons (toNat_lt c)
        rw [encodeChar_of_plain hc, hu] at h
        exact hl (h lead (by simp))
      obtain ⟨b, hb, -, -⟩ := exists_of_not_plain hc
      have he : encodeChar c = [b] := by rw [encodeChar, hb]
      rw [he, List.singleton_append, List.take_succ_cons] at h ⊢
      obtain ⟨r, hr, hn, e⟩ := ih k fun b' hb' => h b' (List.mem_cons_of_mem _ hb')
      refine ⟨c :: r, (List.prefix_cons_inj c).mpr hr, List.forall_mem_cons.mpr ⟨hc, hn⟩, ?_⟩
      rw [encode_cons, he, List.singleton_append, e]

/-- **A faithful text is read back as it was written.** -/
theorem decode_encode {t : Text} (h : Faithful t) : decode (encode t) = t := by
  induction t with
  | nil => rw [encode, List.flatMap_nil, decode]
  | cons c t ih =>
    have ih := ih (h.piece (List.suffix_cons c t).isInfix)
    rw [encode_cons]
    by_cases hc : Plain c
    · rw [decode_encodeChar_append hc, ih]
    · obtain ⟨b, hb, rfl, -⟩ := exists_of_not_plain hc
      have he : encodeChar (carrier b) = [b] := by rw [encodeChar, hb]
      rw [he, List.singleton_append, decode]
      cases hd : decodeChar? (b :: encode t) with
      | none => rw [ih]
      | some p =>
        -- the carrier and some that follow it would spell a character
        obtain ⟨d, n⟩ := p
        have hplain := plain_of_decodeChar? hd
        obtain ⟨hn, hbytes⟩ := encodeChar_of_decodeChar? hd
        obtain ⟨k, rfl⟩ : ∃ k, n = k + 1 := ⟨n - 1, by omega⟩
        obtain ⟨lead, tail, hu, -, ht, -⟩ := utf8_eq_cons (toNat_lt d)
        rw [encodeChar_of_plain hplain, hu, List.take_succ_cons] at hbytes
        obtain ⟨rfl, htail⟩ := List.cons.inj hbytes
        obtain ⟨r, hr, hcarry, e⟩ := exists_carriers k t (htail ▸ ht)
        refine absurd ?_ (h (carrier lead :: r) ((List.prefix_cons_inj _).mpr hr).isInfix
          (List.forall_mem_cons.mpr ⟨hc, hcarry⟩) d hplain)
        rw [encode_cons, he, e, encodeChar_of_plain hplain, hu, htail, List.singleton_append]

/-- The end of a text that was read is what the last bytes say. -/
theorem exists_decode_of_suffix {bytes : Bytes} {s : Text} (h : s <:+ decode bytes) :
    ∃ rest, s = decode rest := by
  fun_induction decode bytes with
  | case1 => exact ⟨[], by rw [List.suffix_nil.mp h, decode]⟩
  | case2 b rest c n hd ih =>
    rcases List.suffix_cons_iff.mp h with rfl | h
    · exact ⟨b :: rest, by rw [decode, hd]⟩
    · exact ih h
  | case3 b rest hd ih =>
    rcases List.suffix_cons_iff.mp h with rfl | h
    · exact ⟨b :: rest, by rw [decode, hd]⟩
    · exact ih h

/-- **What is read from a file is faithful.** -/
theorem faithful_decode (bytes : Bytes) : Faithful (decode bytes) := by
  rintro r ⟨x, y, hxy⟩ hr d hd e
  have hs : r ++ y <:+ decode bytes := ⟨x, by rw [← hxy, List.append_assoc]⟩
  obtain ⟨rest, hrest⟩ := exists_decode_of_suffix hs
  have hbytes : rest = encodeChar d ++ encode y := by
    rw [← encode_decode rest, ← hrest, encode_append, e]
  rw [hbytes, decode_encodeChar_append hd] at hrest
  cases r with
  | nil =>
    obtain ⟨lead, tail, hu, -⟩ := utf8_eq_cons (toNat_lt d)
    rw [encodeChar_of_plain hd, hu] at e
    cases e
  | cons c r =>
    obtain ⟨rfl, -⟩ := List.cons.inj hrest
    exact hr c List.mem_cons_self hd

/-! ## 5. Putting faithful texts together -/

theorem infix_or_of_not_mem {r u v : Text} {c : Char} (h : r <:+: u ++ c :: v) (hc : c ∉ r) :
    r <:+: u ∨ r <:+: v := by
  obtain ⟨x, y, h⟩ := h
  rcases List.append_eq_append_iff.mp h with ⟨z, hz, hy⟩ | ⟨z, hz, hv⟩
  · exact Or.inl ⟨x, z, hz.symm⟩
  · cases z with
    | nil => exact Or.inl ⟨x, [], by simpa using hz⟩
    | cons a z =>
      obtain ⟨rfl, rfl⟩ := List.cons.inj hv
      rcases List.append_eq_append_iff.mp hz with ⟨w, -, hw⟩ | ⟨w, -, hw⟩
      · exact absurd (by rw [hw]; simp) hc
      · cases w with
        | nil =>
          obtain rfl : c :: z = r := hw
          exact absurd List.mem_cons_self hc
        | cons b w =>
          obtain ⟨-, rfl⟩ := List.cons.inj hw
          exact Or.inr ⟨w, y, rfl⟩

/-- **A plain character keeps apart what stands on its two sides.** -/
theorem faithful_append_cons {u v : Text} {c : Char} (hc : Plain c) :
    Faithful (u ++ c :: v) ↔ Faithful u ∧ Faithful v := by
  constructor
  · intro h
    exact ⟨h.piece (List.prefix_append _ _).isInfix,
      h.piece ((List.suffix_cons _ _).trans (List.suffix_append _ _)).isInfix⟩
  · rintro ⟨hu, hv⟩ r hr hn
    rcases infix_or_of_not_mem hr fun hm => hn c hm hc with hr | hr
    · exact hu r hr hn
    · exact hv r hr hn

theorem faithful_nil : Faithful [] := by
  intro r hr _ d hd
  rw [List.eq_nil_of_infix_nil hr, encodeChar_of_plain hd]
  obtain ⟨lead, tail, hu, -⟩ := utf8_eq_cons (toNat_lt d)
  rw [hu]
  intro h
  cases h

theorem faithful_cons {t : Text} {c : Char} (hc : Plain c) : Faithful (c :: t) ↔ Faithful t := by
  rw [← List.nil_append (c :: t), faithful_append_cons hc]
  exact and_iff_right faithful_nil

theorem faithful_plain_append {p t : Text} (hp : ∀ c ∈ p, Plain c) :
    Faithful (p ++ t) ↔ Faithful t := by
  induction p with
  | nil => rfl
  | cons c p ih =>
    obtain ⟨hc, hp⟩ := List.forall_mem_cons.mp hp
    rw [List.cons_append, faithful_cons hc, ih hp]

theorem faithful_of_plain {p : Text} (hp : ∀ c ∈ p, Plain c) : Faithful p := by
  have h := (faithful_plain_append (t := []) hp).mpr faithful_nil
  rwa [List.append_nil] at h

/-- A stretch of plain characters keeps apart as one does. -/
theorem faithful_append_plain_append {u p v : Text} (hp : ∀ c ∈ p, Plain c) (hne : p ≠ []) :
    Faithful (u ++ (p ++ v)) ↔ Faithful u ∧ Faithful v := by
  obtain ⟨c, p, rfl⟩ := List.exists_cons_of_ne_nil hne
  obtain ⟨hc, hp⟩ := List.forall_mem_cons.mp hp
  rw [List.cons_append, faithful_append_cons hc, faithful_plain_append hp]

theorem faithful_append_plain {u p : Text} (hp : ∀ c ∈ p, Plain c) :
    Faithful (u ++ p) ↔ Faithful u := by
  cases p with
  | nil => rw [List.append_nil]
  | cons c p =>
    have h := faithful_append_plain_append (u := u) (v := []) hp (by simp)
    rw [List.append_nil] at h
    rw [h]
    exact and_iff_left faithful_nil

/-- Behind a seam at a plain character the two parts are on their own. -/
theorem faithful_append {t u : Text} (hu : ∀ c ∈ u.head?, Plain c) :
    Faithful (t ++ u) ↔ Faithful t ∧ Faithful u := by
  cases u with
  | nil =>
    rw [List.append_nil]
    exact (and_iff_left faithful_nil).symm
  | cons c u =>
    have hc := hu c rfl
    rw [faithful_append_cons hc, faithful_cons hc]

theorem faithful_join {separator : Text} (hp : ∀ c ∈ separator, Plain c) (hne : separator ≠ [])
    {texts : List Text} (hf : ∀ t ∈ texts, Faithful t) : Faithful (join separator texts) := by
  induction texts with
  | nil => exact faithful_nil
  | cons t texts ih =>
    obtain ⟨ht, hf⟩ := List.forall_mem_cons.mp hf
    cases texts with
    | nil => exact ht
    | cons u texts =>
      rw [join, List.append_assoc]
      exact (faithful_append_plain_append hp hne).mpr ⟨ht, ih hf⟩

theorem plain_of_isBlank {c : Char} (h : isBlank c = true) : Plain c := by
  refine plain_of_lt ?_
  simp only [isBlank, Bool.or_eq_true, Bool.and_eq_true, decide_eq_true_eq, beq_iff_eq] at h
  rw [carrierBase]
  omega

theorem plain_head_of_atGap {t : Text} (h : AtGap t) : ∀ c ∈ t.head?, Plain c := by
  cases t with
  | nil => simp
  | cons c t =>
    intro d hd
    obtain rfl : c = d := by simpa using hd
    exact plain_of_isBlank (atGap_cons.mp h)

end ModelScale.Text
