import ModelScale.Text.Blank
import ModelScale.Text.Quoted

/-!
# Bytes as text

Files are UTF-8, but a byte that belongs to no well-formed sequence must survive reading and
writing.  Such a byte is carried by a character of its own, from the last private-use block, and
the characters of that block are themselves carried byte by byte.  So every byte string has a text,
and encoding that text gives the bytes back (`encode_decode`).  In a quotation the carriers are not
seen: it shows the characters that the bytes form, and the numbers of the bytes that form none.
-/

namespace ModelScale.Text

/-- The bytes of a file. -/
abbrev Bytes : Type := List UInt8

/-! ## 1. Carriers -/

/-- The first code point after which the carriers lie. -/
def carrierBase : Nat := 0x10FF00

/-- The character that carries a byte. -/
def carrier (b : UInt8) : Char :=
  Char.ofNat (carrierBase + b.toNat)

/-- The byte that a character carries. -/
def carried? (c : Char) : Option UInt8 :=
  if carrierBase + 0x80 ≤ c.toNat then some (UInt8.ofNat (c.toNat - carrierBase)) else none

/-! ## 2. Encoding -/

/-- The UTF-8 bytes of a code point. -/
def utf8 (n : Nat) : Bytes :=
  if n < 0x80 then [UInt8.ofNat n]
  else if n < 0x800 then [UInt8.ofNat (0xC0 + n / 0x40), UInt8.ofNat (0x80 + n % 0x40)]
  else if n < 0x10000 then
    [UInt8.ofNat (0xE0 + n / 0x1000), UInt8.ofNat (0x80 + n / 0x40 % 0x40),
      UInt8.ofNat (0x80 + n % 0x40)]
  else
    [UInt8.ofNat (0xF0 + n / 0x40000), UInt8.ofNat (0x80 + n / 0x1000 % 0x40),
      UInt8.ofNat (0x80 + n / 0x40 % 0x40), UInt8.ofNat (0x80 + n % 0x40)]

/-- The bytes of one character: the byte it carries, or its UTF-8 form. -/
def encodeChar (c : Char) : Bytes :=
  match carried? c with
  | some b => [b]
  | none => utf8 c.toNat

/-- The bytes of a text. -/
def encode (t : Text) : Bytes :=
  t.flatMap encodeChar

/-- How many bytes a text takes. -/
def byteLength (t : Text) : Nat :=
  (encode t).length

/-! ## 3. Decoding -/

/-- The number of bytes that a sequence with this first byte has. -/
def sequenceLength (lead : UInt8) : Nat :=
  if lead < 0x80 then 1
  else if 0xC2 ≤ lead && lead < 0xE0 then 2
  else if 0xE0 ≤ lead && lead < 0xF0 then 3
  else if 0xF0 ≤ lead && lead < 0xF5 then 4
  else 0

/-- The six low bits of a continuation byte. -/
def lowBits (b : UInt8) : Nat := b.toNat % 0x40

/-- The code point that one to four bytes spell, whatever their form. -/
def codePoint : Bytes → Nat
  | [a] => a.toNat
  | [a, b] => a.toNat % 0x20 * 0x40 + lowBits b
  | [a, b, c] => a.toNat % 0x10 * 0x1000 + lowBits b * 0x40 + lowBits c
  | [a, b, c, d] => a.toNat % 8 * 0x40000 + lowBits b * 0x1000 + lowBits c * 0x40 + lowBits d
  | _ => 0

/-- The character at the start of some bytes, with the number of bytes it takes: these bytes must
be its encoding, which rules out overlong forms, surrogates and carriers. -/
def decodeChar? (bytes : Bytes) : Option (Char × Nat) :=
  match bytes with
  | [] => none
  | lead :: _ =>
    let sequence := bytes.take (sequenceLength lead)
    let c := Char.ofNat (codePoint sequence)
    if encodeChar c = sequence && !sequence.isEmpty then some (c, sequence.length) else none

/-- The text of some bytes. -/
def decode (bytes : Bytes) : Text :=
  match bytes with
  | [] => []
  | b :: rest =>
    match decodeChar? (b :: rest) with
    | some (c, n) => c :: decode (rest.drop (n - 1))
    | none => carrier b :: decode rest
termination_by bytes.length
decreasing_by all_goals simp; try omega

/-! ## 4. Quoting -/

/-- What some bytes consist of. -/
inductive Piece where
  | character (c : Char)
  /-- A byte that belongs to no well-formed sequence. -/
  | stray (b : UInt8)
  deriving DecidableEq, Repr

/-- The well-formed sequence at the start of some bytes: its character, and how many bytes follow
the first. -/
def sequenceAt? (bytes : Bytes) : Option (Char × Nat) :=
  match bytes with
  | [] => none
  | lead :: _ =>
    let sequence := bytes.take (sequenceLength lead)
    let c := Char.ofNat (codePoint sequence)
    if utf8 c.toNat = sequence then some (c, sequence.length - 1) else none

/-- The pieces of some bytes in order. -/
def pieces (bytes : Bytes) : List Piece :=
  match bytes with
  | [] => []
  | b :: rest =>
    match sequenceAt? (b :: rest) with
    | some (c, n) => .character c :: pieces (rest.drop n)
    | none => .stray b :: pieces rest
termination_by bytes.length
decreasing_by all_goals simp; try omega

/-- A piece inside a quotation. -/
def Piece.escaped (mark : Char) : Piece → Text
  | character c => escapeChar mark c
  | stray b => "\\udc".toList ++ hexadecimal 2 b.toNat

/-- A decoded text between quotation marks. -/
def quoteDecoded (t : Text) : Text :=
  let mark := quotationMark t
  mark :: (pieces (encode t)).flatMap (·.escaped mark) ++ [mark]

/-! ## 5. Nothing is lost -/

/-- The code point of a character made from a valid one. -/
theorem toNat_ofNat_of_lt {n : Nat} (h : n < 0xD800 ∨ 0xDFFF < n ∧ n < 0x110000) :
    (Char.ofNat n).toNat = n := by
  have hv : n.isValidChar := by
    rcases h with h | h
    · exact .inl h
    · exact .inr h
  have hc : Char.ofNat n = Char.ofNatAux n hv := dif_pos hv
  rw [hc]
  rfl

/-- A byte above the ASCII range is what its carrier carries. -/
theorem encodeChar_carrier {b : UInt8} (h : 0x80 ≤ b.toNat) : encodeChar (carrier b) = [b] := by
  have hb := b.toNat_lt
  have hn : (carrier b).toNat = carrierBase + b.toNat :=
    toNat_ofNat_of_lt (.inr (by simp only [carrierBase]; omega))
  have hc : carried? (carrier b) = some b := by
    simp only [carried?, hn]
    rw [if_pos (by omega), Nat.add_sub_cancel_left, UInt8.ofNat_toNat]
  simp [encodeChar, hc]

/-- An ASCII byte is a sequence of its own. -/
theorem decodeChar?_ascii {b : UInt8} (h : b.toNat < 0x80) (rest : Bytes) :
    decodeChar? (b :: rest) = some (Char.ofNat b.toNat, 1) := by
  have hl : sequenceLength b = 1 := by
    rw [sequenceLength, if_pos (UInt8.lt_iff_toNat_lt.2 h)]
  have hn : (Char.ofNat b.toNat).toNat = b.toNat := toNat_ofNat_of_lt (.inl (by omega))
  have he : encodeChar (Char.ofNat b.toNat) = [b] := by
    have hc : carried? (Char.ofNat b.toNat) = none := by
      simp only [carried?, hn, carrierBase]
      rw [if_neg (by omega)]
    simp only [encodeChar, hc, hn, utf8, if_pos h, UInt8.ofNat_toNat]
  simp [decodeChar?, hl, codePoint, he]

/-- A character that was found at the start of some bytes stands for these bytes. -/
theorem encodeChar_of_decodeChar? {bytes : Bytes} {c : Char} {n : Nat}
    (h : decodeChar? bytes = some (c, n)) : 0 < n ∧ encodeChar c = bytes.take n := by
  cases bytes with
  | nil => simp [decodeChar?] at h
  | cons lead rest =>
    simp only [decodeChar?] at h
    split at h
    · rename_i hs
      simp only [Bool.and_eq_true, decide_eq_true_eq, Bool.not_eq_true', List.isEmpty_eq_false_iff]
        at hs
      obtain ⟨rfl, rfl⟩ := Prod.mk.inj (Option.some.inj h)
      refine ⟨List.length_pos_iff.2 hs.2, hs.1.trans ?_⟩
      rw [List.length_take, Nat.min_def]
      split
      · rfl
      · rw [List.take_of_length_le (by omega), List.take_of_length_le (Nat.le_refl _)]
    · cases h

/-- Reading bytes as text and writing the text gives the bytes back. -/
theorem encode_decode (bytes : Bytes) : encode (decode bytes) = bytes := by
  fun_induction decode bytes with
  | case1 => rfl
  | case2 b rest c n h ih =>
    obtain ⟨hn, he⟩ := encodeChar_of_decodeChar? h
    obtain ⟨k, rfl⟩ : ∃ k, n = k + 1 := ⟨n - 1, by omega⟩
    simp only [encode, List.flatMap_cons] at ih ⊢
    rw [ih, he, Nat.add_sub_cancel, List.take_succ_cons, List.cons_append, List.take_append_drop]
  | case3 b rest h ih =>
    have hb : 0x80 ≤ b.toNat := by
      rcases Nat.lt_or_ge b.toNat 0x80 with hlt | hge
      · rw [decodeChar?_ascii hlt] at h
        cases h
      · exact hge
    simp only [encode, List.flatMap_cons] at ih ⊢
    rw [ih, encodeChar_carrier hb, List.singleton_append]

end ModelScale.Text
