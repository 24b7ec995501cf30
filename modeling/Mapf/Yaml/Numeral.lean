import Mapf.Text.Numeral

/-! # Numerals in YAML

Digits in a base up to 16, and the spellings of natural numbers. -/

namespace Mapf.Yaml

/-- The value of a digit in a base up to 16. -/
def digitIn? (base : Nat) (c : Char) : Option Nat :=
  let value :=
    if c.isDigit then c.toNat - '0'.toNat
    else if 'a' ≤ c ∧ c ≤ 'f' then c.toNat - 'a'.toNat + 10
    else if 'A' ≤ c ∧ c ≤ 'F' then c.toNat - 'A'.toNat + 10
    else base
  if value < base then some value else none

/-- The number that digits in a base stand for; no digits stand for zero. -/
def numberIn? (base : Nat) (digits : List Char) : Option Nat :=
  digits.foldlM (fun n c => (digitIn? base c).map (n * base + ·)) 0

/-- The number that digits in a base stand for, if it fits into 64 bits; at least one digit. -/
def readIn? (base : Nat) (digits : List Char) : Option Nat := do
  let n ← numberIn? base digits
  if digits ≠ [] ∧ n < Text.wordLimit then some n else none

/-- The natural number that a text stands for: hexadecimal after `0x`, octal after `0o`, binary after
    `0b`, and else decimal without needless zeros in front; a plus sign may come first. -/
def readNatural? (cs : List Char) : Option Nat :=
  let unsigned :=
    match cs with
    | '+' :: rest => rest
    | cs => cs
  match unsigned with
  | '0' :: 'x' :: rest => readIn? 16 rest
  | '0' :: 'o' :: rest => readIn? 8 rest
  | '0' :: 'b' :: rest => readIn? 2 rest
  | '0' :: _ :: _ => none
  | digits => readIn? 10 digits

end Mapf.Yaml
