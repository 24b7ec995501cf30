/-! # Numerals

Unsigned 64-bit numbers are written as decimal digits, with an optional plus sign in front. Reading
goes from left to right and fails at the first character that is no digit or that makes the number too
large. -/

namespace Mapf.Text

/-- Why a text is no number. -/
inductive NumeralError where
  | empty
  | invalidDigit
  | tooLarge
  deriving DecidableEq

def NumeralError.message : NumeralError → String
  | .empty => "cannot parse integer from empty string"
  | .invalidDigit => "invalid digit found in string"
  | .tooLarge => "number too large to fit in target type"

/-- One more than the greatest number that can be read. -/
def wordLimit : Nat := 18446744073709551616

def digit? (c : Char) : Option Nat :=
  if c.isDigit then some (c.toNat - '0'.toNat) else none

/-- Reads the digits after those that gave `value`. -/
def readDigits : (value : Nat) → List Char → Except NumeralError Nat
  | value, [] => .ok value
  | value, c :: cs =>
    match digit? c with
    | none => .error .invalidDigit
    | some d => if value * 10 + d < wordLimit then readDigits (value * 10 + d) cs else .error .tooLarge

def readNumeral : List Char → Except NumeralError Nat
  | [] => .error .empty
  | ['+'] => .error .invalidDigit
  | '+' :: digits => readDigits 0 digits
  | digits => readDigits 0 digits

end Mapf.Text
