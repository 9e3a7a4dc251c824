import ModelScale.Text.Blank
import ModelScale.Decimal.Basic

/-!
# Messages

A message is one line of a report: pieces of text, some of them set in a style.  It has three
renderings.  `plain` drops the styles; `markup` writes them as tags in square brackets, with the
brackets of the text itself escaped; `coloured` writes them as the escape sequences of a terminal.
-/

namespace ModelScale

/-! ## 1. Styles -/

/-- How a piece of a message is set, named for what the piece is. -/
inductive Style where
  /-- Ordinary information. -/
  | neutral
  /-- The word that announces a warning. -/
  | warningLabel
  | warning
  /-- The word that announces an error. -/
  | errorLabel
  | error
  /-- A value that gives way. -/
  | oldValue
  /-- A value that takes its place. -/
  | newValue
  /-- What a message is about. -/
  | key
  /-- The column of line numbers. -/
  | margin
  deriving DecidableEq, Repr

namespace Style

/-- What a tag says: a colour, with `bold` before it perhaps. -/
def name : Style → Text
  | neutral => "white".toList
  | warningLabel => "bold yellow".toList
  | warning => "yellow".toList
  | errorLabel => "bold red".toList
  | error => "red".toList
  | oldValue => "#F27759".toList
  | newValue => "bold #B7E67A".toList
  | key => "bold #7096FF".toList
  | margin => "#404040".toList

/-- The closing tag repeats the name of a named colour. -/
def closesByName : Style → Bool
  | neutral | warningLabel | warning | errorLabel | error => true
  | oldValue | newValue | key | margin => false

/-- The numbers of the terminal sequence that switches to a style. -/
def sequence : Style → Text
  | neutral => "37".toList
  | warningLabel => "1;33".toList
  | warning => "33".toList
  | errorLabel => "1;31".toList
  | error => "31".toList
  | oldValue => "38;2;242;119;89".toList
  | newValue => "1;38;2;183;230;122".toList
  | key => "1;38;2;112;150;255".toList
  | margin => "38;2;64;64;64".toList

end Style

/-! ## 2. Escaped text -/

namespace Markup

/-- What follows an opening bracket makes it a tag: a small letter or one of `#`, `/`, `@`, and a
closing bracket before the next opening one. -/
def opensTag : Text → Bool
  | [] => false
  | c :: t =>
    (('a' ≤ c && c ≤ 'z') || c == '#' || c == '/' || c == '@') &&
      t.find? (fun d => d == '[' || d == ']') == some ']'

/-- A text in which no bracket opens a tag: such a bracket gets a backslash, and the backslashes
right before it, `pending` in number, are doubled. -/
def escapeBrackets (pending : Nat) : Text → Text
  | [] => []
  | c :: t =>
    if c = '\\' then c :: escapeBrackets (pending + 1) t
    else if c = '[' && opensTag t then
      List.replicate (pending + 1) '\\' ++ '[' :: escapeBrackets 0 t
    else c :: escapeBrackets 0 t

/-- A text as it is written between tags.  A single backslash at the end is doubled, lest it escape
the tag behind it. -/
def escape (t : Text) : Text :=
  let escaped := escapeBrackets 0 t
  match escaped.reverse with
  | '\\' :: '\\' :: _ => escaped
  | '\\' :: _ => escaped ++ ['\\']
  | _ => escaped

end Markup

/-! ## 3. Messages -/

/-- A piece of a message. -/
structure Span where
  style : Option Style
  text : Text
  deriving DecidableEq, Repr

/-- One line of a report. -/
abbrev Message : Type := List Span

namespace Span

/-- The characters that no line shows: the bell, the backspace, and the control characters that move
to another line or column. -/
def isHidden (c : Char) : Bool :=
  let n := c.toNat
  n == 7 || n == 8 || n == 11 || n == 12 || n == 13

/-- The text of a piece as a line shows it. -/
def shown (s : Span) : Text :=
  s.text.filter fun c => !isHidden c

/-- A piece between its tags. -/
def markup (s : Span) : Text :=
  match s.style with
  | none => Markup.escape s.text
  | some style =>
    let closing := if style.closesByName then style.name else []
    '[' :: style.name ++ [']'] ++ Markup.escape s.text ++ "[/".toList ++ closing ++ [']']

/-- A piece between terminal sequences. -/
def coloured (s : Span) : Text :=
  match s.style with
  | none => s.shown
  | some style => "\x1b[".toList ++ style.sequence ++ ['m'] ++ s.shown ++ "\x1b[0m".toList

end Span

namespace Message

/-- A piece without a style. -/
def text (t : Text) : Message := [⟨none, t⟩]

/-- A piece in a style. -/
def styled (style : Style) (t : Text) : Message := [⟨some style, t⟩]

/-- The text of a message. -/
def plain (m : Message) : Text := m.flatMap Span.shown

/-- A message with its styles as tags. -/
def markup (m : Message) : Text := m.flatMap Span.markup

/-- A message with its styles as terminal sequences. -/
def coloured (m : Message) : Text := m.flatMap Span.coloured

/-! ## 4. Kinds of messages -/

/-- A piece of information. -/
def info (t : Text) : Message := styled .neutral t

/-- A warning. -/
def warning (t : Text) : Message :=
  styled .warningLabel "Warning:".toList ++ text [' '] ++ styled .warning t

/-- An error. -/
def error (t : Text) : Message :=
  styled .errorLabel "Error:".toList ++ text [' '] ++ styled .error t

/-- A value that stays, or an old value and the new one. -/
def valueChange (old new : Text) : Message :=
  if old = new then styled .neutral old
  else styled .oldValue old ++ text " -> ".toList ++ styled .newValue new

/-- A number in a column of some width, at its right edge. -/
def inColumn (width n : Nat) : Text :=
  let written := Decimal.digits n
  List.replicate (width - written.length) ' ' ++ written

/-- The margin in front of what a message says about a line. -/
def atLine (number : Nat) : Message :=
  styled .margin (inColumn 4 number ++ " | ".toList)

end Message

end ModelScale
