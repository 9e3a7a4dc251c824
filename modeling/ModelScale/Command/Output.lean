import ModelScale.Report.Message
import ModelScale.Text.Bytes

/-!
# Outputs

What a run says goes to an output, one text after the other, and an output need not take every
text: it may have no bytes for some of the characters, or be closed on the other side.  Whether it
takes a text is up to the text and to those that it was offered before, as an output that could not
write a text may keep it and stumble over it again.
-/

namespace ModelScale

open Text

/-- Why a text was not taken. -/
structure OutputFault where
  kind : Text
  message : Text
  deriving DecidableEq, Repr

/-- Where a run writes what it says. -/
structure Output where
  /-- What stands in the way of a text behind those that were offered before it. -/
  refusal : List Text → Text → Option OutputFault := fun _ _ => none
  /-- The texts that were offered, taken or not. -/
  offered : List Text := []
  /-- The texts that were taken, one behind the other. -/
  written : Text := []

namespace Output

/-- Offers a text to an output: what was in its way, if it was not taken, and the output
afterwards. -/
def offer (o : Output) (t : Text) : Option OutputFault × Output :=
  match o.refusal o.offered t with
  | some fault => (some fault, { o with offered := o.offered ++ [t] })
  | none => (none, { o with offered := o.offered ++ [t], written := o.written ++ t })

/-! ## Outputs in UTF-8 -/

/-- A byte that belongs to no well-formed sequence. -/
def isStray : Piece → Bool
  | .stray _ => true
  | .character _ => false

/-- What is in the way of a text in UTF-8: its first stray bytes.  They are counted by the
characters in front of them, and a single one is shown. -/
def strayBytes? (t : Text) : Option OutputFault :=
  let (front, back) := (pieces (encode t)).span fun piece => !isStray piece
  let position := Nat.toDigits 10 front.length
  let found : Option Text :=
    match back.takeWhile isStray with
    | [] => none
    | [piece] => some (" '".toList ++ piece.escaped '\'' ++ "' in position ".toList ++ position)
    | several =>
      some ("s in position ".toList ++ position ++ '-' ::
        Nat.toDigits 10 (front.length + several.length - 1))
  found.map fun place =>
    { kind := "UnicodeEncodeError".toList
      message := "'utf-8' codec can't encode character".toList ++ place ++
        ": surrogates not allowed".toList }

/-- An output that writes UTF-8 and nothing else. -/
def utf8 : Output where
  refusal _ t := strayBytes? t

end Output

end ModelScale
