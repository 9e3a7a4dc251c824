import ModelScale.Text.Bytes
import ModelScale.Text.Search

/-!
# Documents

A document is a text file as its lines, together with what is needed to write it back the way it was
found: the newline it uses and whether the last line ends in one.  A newline is a line feed, or a
carriage return and a line feed; a lone carriage return is an ordinary character.  One newline of
the longer kind makes it the newline of the whole document.
-/

namespace ModelScale

open Text

/-- A text file, line by line. -/
structure Document where
  /-- The lines without their newlines. -/
  lines : List Text
  /-- The newline that is written between lines. -/
  newline : Text := ['\n']
  /-- The last line ends in a newline. -/
  endsInNewline : Bool := true
  deriving DecidableEq, Repr

namespace Document

/-! ## 1. Newlines -/

/-- A carriage return and a line feed. -/
def longNewline : Text := ['\r', '\n']

/-- The newline that a text uses. -/
def newlineOf (t : Text) : Text :=
  if occurs longNewline t then longNewline else ['\n']

/-- The text with every newline a lone line feed. -/
def unifyNewlines : Text → Text
  | [] => []
  | '\r' :: '\n' :: t => '\n' :: unifyNewlines t
  | c :: t => c :: unifyNewlines t

/-! ## 2. Reading and writing -/

/-- The document that a text spells. -/
def ofText (t : Text) : Document :=
  let unified := unifyNewlines t
  let pieces := splitAt '\n' unified
  if unified.getLast? = some '\n' then ⟨pieces.dropLast, newlineOf t, true⟩
  else ⟨pieces, newlineOf t, false⟩

/-- The text of a document.  Without lines it is empty. -/
def toText (d : Document) : Text :=
  join d.newline d.lines ++
    if d.endsInNewline && !d.lines.isEmpty then d.newline else []

/-- The document with other lines. -/
def withLines (d : Document) (lines : List Text) : Document :=
  { d with lines }

/-! ## 3. Files -/

/-- The document in the bytes of a file, unless they hold nothing but blanks. -/
def ofBytes? (bytes : Bytes) : Option Document :=
  let t := decode bytes
  if isEmptyLine t then none else some (ofText t)

/-- The bytes of a document. -/
def toBytes (d : Document) : Bytes :=
  encode d.toText

/-! ## 4. Small facts -/

@[simp] theorem lines_withLines (d : Document) (lines : List Text) :
    (d.withLines lines).lines = lines := rfl

@[simp] theorem newline_withLines (d : Document) (lines : List Text) :
    (d.withLines lines).newline = d.newline := rfl

/-- A document that is not ended by a newline is its lines with newlines in between. -/
theorem toText_of_not_endsInNewline {d : Document} (h : d.endsInNewline = false) :
    d.toText = join d.newline d.lines := by
  simp [toText, h]

end Document

end ModelScale
