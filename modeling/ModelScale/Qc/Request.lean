import ModelScale.Comment
import ModelScale.Qc.Directive
import ModelScale.Literal
import ModelScale.Settings

/-!
# Requests for a new scale

A request goes from the scale in force to a new one.  The scale in force is what the first live
directive says, or 1; the new one is accepted once it is a number, not zero, and different.  An
answer that is refused can be given again.
-/

namespace ModelScale

open Text

/-! ## 1. The scale in force -/

/-- The first live scale directive and its index. -/
def firstDirective? (lines : List Text) : Option (Nat × Directive) :=
  Comment.firstLive? Directive.read? lines

/-- The scale that a script sets: 1 unless its first directive gives a number that is not as good as
zero. -/
def scaleInForce (settings : Settings) (lines : List Text) : Except Fault Decimal :=
  match (firstDirective? lines).bind (·.2.value) with
  | none => .ok .one
  | some d => do
    let size ← Context.standard.abs d
    pure (if size.isLess settings.zeroBoundary then .one else d)

/-! ## 2. Requests -/

/-- A change from one scale to another. -/
structure Request where
  previous : Decimal
  new : Decimal
  deriving DecidableEq, Repr

namespace Request

/-- The factor from the previous scale to the new one. -/
def relative (r : Request) : Except Fault Decimal :=
  Context.extended.div r.new r.previous

/-- The factor as it is shown. -/
def shownRelative (r : Request) : Except Fault Text :=
  r.relative.bind compactFactor

/-- The new scale as it is shown. -/
def shownNew (r : Request) : Text :=
  compact r.new

/-- The new scale is so small that rounding shows. -/
def risksRounding (settings : Settings) (r : Request) : Except Fault Bool :=
  (Context.standard.abs r.new).map (·.isLess settings.roundingAdvisory)

end Request

/-! ## 3. Accepting an answer -/

/-- Why an answer is not taken as a new scale. -/
inductive Refusal where
  | notANumber (answer : Text)
  | zero
  | unchanged (previous : Decimal)
  deriving DecidableEq, Repr

/-- What is said about a refused answer. -/
def Refusal.message : Refusal → Text
  | notANumber answer => '\'' :: answer ++ "' is not a number".toList
  | zero => "Scale can not be zero".toList
  | unchanged previous =>
    "Scale is already ".toList ++ compact previous ++ ", nothing to change".toList

/-- Why there is no request: the answer was refused, or the arithmetic gave out. -/
inductive RequestError where
  | refused (reason : Refusal)
  | fault (fault : Fault)
  deriving DecidableEq, Repr

/-- The request that an answer makes.  A comma may stand for the point. -/
def acceptScale (settings : Settings) (answer : Text) (previous : Decimal) :
    Except RequestError Request := do
  let text := trim answer
  let new ← (Decimal.read (text.map fun c => if c = ',' then '.' else c)).mapError
    fun _ => .refused (.notANumber text)
  let size ← (Context.standard.abs new).mapError .fault
  if size.isLess settings.zeroBoundary then throw (.refused .zero)
  let change ← ((Context.standard.sub new previous).bind Context.standard.abs).mapError .fault
  if change.isLess settings.zeroBoundary then throw (.refused (.unchanged previous))
  pure ⟨previous, new⟩

/-! ## 4. Asking until an answer is accepted -/

/-- The question for a new scale. -/
def scaleQuestion (previous : Decimal) : Text :=
  "New scale (current ".toList ++ compact previous ++ [')']

/-- The answers up to the first that is accepted: why each of the others was refused, and the
request if there is one. -/
def settleScale (settings : Settings) (previous : Decimal) :
    List Text → Except Fault (List Refusal × Option Request)
  | [] => .ok ([], none)
  | answer :: rest =>
    match acceptScale settings answer previous with
    | .ok request => .ok ([], some request)
    | .error (.fault f) => .error f
    | .error (.refused reason) => do
      let (reasons, request) ← settleScale settings previous rest
      pure (reason :: reasons, request)

end ModelScale
