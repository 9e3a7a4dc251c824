import ModelScale.Line.Token

/-!
# The scale directive

The line of a model script that sets the scale: a keyword, the scale, and whatever follows.
-/

namespace ModelScale

open Text

/-- A scale directive, taken apart so that its argument can be replaced. -/
structure Directive where
  /-- The blanks before the keyword. -/
  lead : Text
  /-- The keyword as it is written. -/
  keyword : Text
  /-- The argument, empty when there is none. -/
  token : Text
  /-- Everything after the argument. -/
  after : Text
  /-- The argument's value, if it is a number. -/
  value : Option Decimal
  deriving DecidableEq, Repr

namespace Directive

/-- The keyword of the directive. -/
def spelling : Text := "$scale".toList

/-- A line that is a scale directive. -/
def read? (line : Text) : Option Directive := do
  let (lead, body) := line.span isBlank
  let (keyword, rest) ← takeKeyword? spelling body
  if rest.isEmpty || startsBlank rest then
    let rest ← restOfLine? rest
    let (token, after) := nextWord rest
    pure ⟨lead, keyword, token, after, (Decimal.read token).toOption⟩
  else none

/-- The line with another argument. -/
def setArgument (d : Directive) (argument : Text) : Text :=
  trimEnd (d.lead ++ d.keyword ++ ' ' :: argument ++ d.after)

end Directive

end ModelScale
