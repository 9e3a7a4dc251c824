import ModelScale.Text.Printable

/-!
# Quoted texts

Messages quote a text that was not understood, so that blanks and invisible characters can be seen.
-/

namespace ModelScale.Text

/-- The hexadecimal digits of a number, padded with zeros to a width. -/
def hexadecimal (width n : Nat) : Text :=
  let digits := Nat.toDigits 16 n
  List.replicate (width - digits.length) '0' ++ digits

/-- The quotation mark around a text: the apostrophe, unless the text holds one and no double
quotation mark. -/
def quotationMark (t : Text) : Char :=
  if t.contains '\'' && !t.contains '"' then '"' else '\''

/-- One character inside a quotation.  Invisible characters are written by their number, with two,
four or eight hexadecimal digits. -/
def escapeChar (mark c : Char) : Text :=
  if c = mark || c = '\\' then ['\\', c]
  else if c = '\t' then ['\\', 't']
  else if c = '\n' then ['\\', 'n']
  else if c = '\r' then ['\\', 'r']
  else if isPrintable c then [c]
  else if c.toNat < 0x100 then ['\\', 'x'] ++ hexadecimal 2 c.toNat
  else if c.toNat < 0x10000 then ['\\', 'u'] ++ hexadecimal 4 c.toNat
  else ['\\', 'U'] ++ hexadecimal 8 c.toNat

/-- A text between quotation marks, with everything invisible written out. -/
def quote (t : Text) : Text :=
  let mark := quotationMark t
  mark :: t.flatMap (escapeChar mark) ++ [mark]

end ModelScale.Text
