import ModelScale.Line.Token
import ModelScale.Literal
import ModelScale.Settings

/-!
# The model name

A model script names the file of the compiled model.  A scaled model gets its scale into that name,
behind the stem: a suffix that is already there is taken off first, and scale 1 has none.
-/

namespace ModelScale

open Text

/-! ## 1. Paths -/

namespace ModelPath

/-- The separator used last in a path, the slash when there is none. -/
def separator (path : Text) : Char :=
  if path.reverse.find? (fun c => c == '/' || c == '\\') = some '\\' then '\\' else '/'

/-- A run of digits, with a point and digits after it perhaps. -/
def isSuffixNumber (t : Text) : Bool :=
  let (whole, rest) := t.span isDigit
  !whole.isEmpty &&
    match rest with
    | [] => true
    | '.' :: fraction => !fraction.isEmpty && fraction.all isDigit
    | _ => false

/-- What follows the low line in a scale suffix: an `x` of either case, a sign perhaps, a number. -/
def isSuffixBody : Text → Bool
  | c :: t => (c == 'x' || c == 'X') && isSuffixNumber (Numeral.takeSign t).2
  | [] => false

/-- A stem without its scale suffix.  A newline at the very end is left out of account. -/
def dropSuffix (stem : Text) : Text :=
  let (body, ending) :=
    if stem.getLast? = some '\n' then (stem.dropLast, ['\n']) else (stem, [])
  match splitLast? '_' body with
  | some (head, suffix) => if isSuffixBody suffix then head ++ ending else stem
  | none => stem

/-- The path with the suffix of a scale in its file name.  Directory, separators and extension are
kept. -/
def withScale (path : Text) (scale : Decimal) (lead : Text) : Text :=
  let (directory, base) :=
    match splitLast? (separator path) path with
    | some (head, base) => (head ++ [separator path], base)
    | none => ([], path)
  let (stem, extension) :=
    match splitLast? '.' base with
    | some (stem, extension) => (stem, '.' :: extension)
    | none => (base, [])
  let suffix := if scale.sameValue .one then [] else lead ++ compact scale
  directory ++ dropSuffix stem ++ suffix ++ extension

end ModelPath

/-! ## 2. The line -/

/-- A line that names the model. -/
structure ModelName where
  /-- The keyword with the blanks around it. -/
  lead : Text
  path : Text
  /-- The path stands between quotation marks. -/
  quoted : Bool
  trail : Text
  deriving DecidableEq, Repr

namespace ModelName

/-- The keyword of the line. -/
def spelling : Text := "$modelname".toList

/-- A line that names the model. -/
def read? (line : Text) : Option ModelName := do
  let (lead, rest) ← takeHead? spelling line
  let (quoted, path, rest) ← takePath? rest
  let trail ← restOfLine? rest
  pure ⟨lead, path, quoted, trail⟩

/-- The line with another path. -/
def setPath (m : ModelName) (path : Text) : Text :=
  let written := if m.quoted then '"' :: path ++ ['"'] else path
  trimEnd (m.lead ++ written ++ m.trail)

end ModelName

end ModelScale
