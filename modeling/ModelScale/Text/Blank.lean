/-!
# Texts and blanks

A text is a list of characters, and everything that the library reads or writes is a text.  This
module says which characters are blank and how a text is trimmed and cut into words.  The same set
of blanks serves throughout: between the fields of a line, around a numeral, and in the test
whether a file is empty.
-/

namespace ModelScale

/-- A text: the characters of a line, of a field, or of a whole file. -/
abbrev Text : Type := List Char

namespace Text

/-! ## 1. Blank characters -/

/-- The blanks of Unicode: the ASCII white space, the four information separators, the next-line
character, and the space, line and paragraph separators.  The zero-width space and the byte order
mark are not among them. -/
def isBlank (c : Char) : Bool :=
  let n := c.toNat
  (9 ≤ n && n ≤ 13) || (28 ≤ n && n ≤ 32) || n == 0x85 || n == 0xA0 || n == 0x1680 ||
    (0x2000 ≤ n && n ≤ 0x200A) || n == 0x2028 || n == 0x2029 || n == 0x202F || n == 0x205F ||
    n == 0x3000

/-- A character that belongs to a word. -/
def isInk (c : Char) : Bool :=
  !isBlank c

/-- Nothing but blanks. -/
def isEmptyLine (t : Text) : Bool :=
  t.all isBlank

/-! ## 2. Trimming -/

/-- The text without its leading blanks. -/
def trimStart (t : Text) : Text :=
  t.dropWhile isBlank

/-- The text without its trailing blanks. -/
def trimEnd (t : Text) : Text :=
  (t.reverse.dropWhile isBlank).reverse

/-- The trailing blanks of a text. -/
def trailingBlanks (t : Text) : Text :=
  (t.reverse.takeWhile isBlank).reverse

/-- The text without blanks at either end. -/
def trim (t : Text) : Text :=
  trimEnd (trimStart t)

/-- A text is its trimmed part followed by its trailing blanks. -/
theorem trimEnd_append_trailingBlanks (t : Text) : trimEnd t ++ trailingBlanks t = t := by
  simp [trimEnd, trailingBlanks, ← List.reverse_append, List.takeWhile_append_dropWhile]

/-! ## 3. Words -/

/-- The maximal runs of characters that satisfy `p`, in order. -/
def runs (p : Char → Bool) : Text → List Text
  | [] => []
  | c :: r =>
    if p c then
      match r with
      | [] => [[c]]
      | d :: _ =>
        if p d then
          match runs p r with
          | w :: ws => (c :: w) :: ws
          | [] => [[c]]
        else [c] :: runs p r
    else runs p r

/-- The words of a text: the maximal runs without a blank. -/
def words (t : Text) : List Text :=
  runs isInk t

/-- The first word of a text, leading blanks skipped, and everything after it.  The word is empty
when the text holds only blanks. -/
def nextWord (t : Text) : Text × Text :=
  (trimStart t).span isInk

/-- The last word of a text, trailing blanks skipped, and everything before it. -/
def lastWord (t : Text) : Text × Text :=
  let back := t.reverse.dropWhile isBlank
  ((back.takeWhile isInk).reverse, (back.dropWhile isInk).reverse)

/-- Texts with a separator between each two of them. -/
def join (separator : Text) : List Text → Text
  | [] => []
  | [t] => t
  | t :: u :: r => t ++ separator ++ join separator (u :: r)

end Text

end ModelScale
