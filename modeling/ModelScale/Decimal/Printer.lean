import ModelScale.Decimal.Basic

/-!
# Written decimals

Two ways to write a decimal: in full (`toPlain`), and with a given number of fractional digits
(`toPlaces`).
-/

namespace ModelScale.Decimal

/-- The sign in front of a written decimal. -/
def signText (d : Decimal) : Text :=
  if d.negative then ['-'] else []

/-- Digits with a point in front of the last `places` of them, and at least one digit before it. -/
def pointed (ds : Text) (places : Nat) : Text :=
  if places = 0 then ds
  else
    let padded := List.replicate (places + 1 - ds.length) '0' ++ ds
    let whole := padded.length - places
    padded.take whole ++ '.' :: padded.drop whole

/-- The decimal written in full, with the fractional digits it has. -/
def toPlain (d : Decimal) : Text :=
  d.signText ++
    (if 0 ≤ d.exponent then
      if d.isZero then ['0'] else digits d.coefficient ++ List.replicate d.exponent.toNat '0'
    else pointed (digits d.coefficient) d.places)

/-- The decimal written in full with `places` fractional digits, of which it must have no more. -/
def toPlaces (d : Decimal) (places : Nat) : Text :=
  let zeros := (d.exponent + places).toNat
  d.signText ++
    pointed (if d.isZero then ['0'] else digits d.coefficient ++ List.replicate zeros '0') places

end ModelScale.Decimal
