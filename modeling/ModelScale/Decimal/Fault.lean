import ModelScale.Text.Quoted

/-!
# Faults

The ways in which reading a numeral or calculating with decimals can fail.  A fault names its
cause; its kind and its message are what a report shows.
-/

namespace ModelScale

/-- How many digits an integer may be written with, leading zeros included. -/
def digitLimit : Nat := 4300

/-- Why a number could not be read or a calculation not be carried out. -/
inductive Fault where
  /-- The text is no numeral. -/
  | notANumber (written : Text)
  /-- The text is an infinity or not-a-number. -/
  | notFinite (written : Text)
  /-- The text is an integer with more digits than are accepted. -/
  | tooManyDigits (count : Nat)
  /-- A number was to be written with a negative number of fractional digits. -/
  | negativePlaces
  /-- The result has more digits than the precision admits, or an exponent is out of reach. -/
  | invalidOperation
  /-- Zero divided by zero. -/
  | divisionUndefined
  /-- Anything else divided by zero. -/
  | divisionByZero
  /-- The result is too large for the exponent range. -/
  | overflow
  deriving DecidableEq, Repr

namespace Fault

/-- The kind under which a report names a fault. -/
def kind : Fault → Text
  | notANumber _ | notFinite _ | tooManyDigits _ | negativePlaces => "ValueError".toList
  | invalidOperation | divisionUndefined => "InvalidOperation".toList
  | divisionByZero => "DivisionByZero".toList
  | overflow => "Overflow".toList

/-- What a report says about a fault. -/
def message : Fault → Text
  | notANumber written => "Not a number: ".toList ++ Text.quote written
  | notFinite written => "Not a finite number: ".toList ++ Text.quote written
  | tooManyDigits count =>
    "Exceeds the limit (".toList ++ Nat.toDigits 10 digitLimit ++
      " digits) for integer string conversion: value has ".toList ++ Nat.toDigits 10 count ++
      " digits; use sys.set_int_max_str_digits() to increase the limit".toList
  | negativePlaces => "invalid format string".toList
  | invalidOperation => "[<class 'decimal.InvalidOperation'>]".toList
  | divisionUndefined => "[<class 'decimal.DivisionUndefined'>]".toList
  | divisionByZero => "[<class 'decimal.DivisionByZero'>]".toList
  | overflow => "[<class 'decimal.Overflow'>]".toList

end Fault

end ModelScale
