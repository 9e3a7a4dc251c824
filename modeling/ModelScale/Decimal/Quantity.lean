import ModelScale.Decimal.Numeral

/-!
# Quantities

A number as a caller gives it: a decimal, or a text that is read where the number is first needed.
Reading late matters: a factor that nothing is multiplied by is never looked at.
-/

namespace ModelScale

/-- A number, possibly still in writing. -/
inductive Quantity where
  | exact (d : Decimal)
  | written (t : Text)
  deriving DecidableEq, Repr

namespace Quantity

/-- The decimal that a quantity stands for. -/
def value : Quantity → Except Fault Decimal
  | exact d => .ok d
  | written t => Decimal.read t

instance : Coe Decimal Quantity := ⟨exact⟩

@[simp] theorem value_exact (d : Decimal) : (exact d).value = .ok d := rfl

@[simp] theorem value_written (t : Text) : (written t).value = Decimal.read t := rfl

/-- All the quantities are zero.  The first that is not settles it, and no later one is read. -/
def allZero : List Quantity → Except Fault Bool
  | [] => .ok true
  | q :: r => do
    let d ← q.value
    if d.isZero then allZero r else .ok false

end Quantity

end ModelScale
