import Mapf.Text.Numeral

/-! # JSON numbers

A literal without point and exponent is an integer if it fits into 64 bits. Every other literal is
read as a double: as many leading digits as fit into 64 bits are taken as a whole number, and that is
multiplied or divided by a power of ten, which need not give the nearest double. -/

namespace Mapf.Json

/-- The parts of a number literal: sign, digits before and after the point, and exponent. -/
structure NumberLiteral where
  negative : Bool
  whole : List Char
  fraction : List Char
  /-- Whether the exponent is negative, and its digits. -/
  exponent : Option (Bool × List Char)
  hasPoint : Bool

/-- What a number literal stands for. -/
inductive Number where
  | natural (n : Nat)
  /-- The integer `-n`. -/
  | negated (n : Nat)
  | real (x : Float)

namespace NumberLiteral

def spanDigits (cs : List Char) : List Char × List Char := (cs.takeWhile Char.isDigit, cs.dropWhile Char.isDigit)

def readExponent (cs : List Char) : Option ((Bool × List Char) × List Char) :=
  let (negative, cs) :=
    match cs with
    | '-' :: rest => (true, rest)
    | '+' :: rest => (false, rest)
    | cs => (false, cs)
  match spanDigits cs with
  | ([], _) => none
  | (digits, rest) => some ((negative, digits), rest)

/-- Reads a number literal off the front of a text: no needless zero in front, and at least one digit
    in every part. -/
def read (cs : List Char) : Option (NumberLiteral × List Char) := do
  let (negative, cs) :=
    match cs with
    | '-' :: rest => (true, rest)
    | cs => (false, cs)
  let (whole, cs) ←
    match spanDigits cs with
    | ([], _) => none
    | ('0' :: _ :: _, _) => none
    | parts => some parts
  let (hasPoint, fraction, cs) ←
    match cs with
    | '.' :: rest =>
      match spanDigits rest with
      | ([], _) => none
      | (digits, rest) => some (true, digits, rest)
    | cs => some (false, [], cs)
  let (exponent, cs) ←
    match cs with
    | 'e' :: rest | 'E' :: rest => (readExponent rest).map fun (e, rest) => (some e, rest)
    | cs => some (none, cs)
  return ({ negative, whole, fraction, exponent, hasPoint }, cs)

/-- Takes digits into a number as long as it fits into 64 bits; also gives the digits left over. -/
def absorb : (value : Nat) → List Char → Nat × List Char
  | value, [] => (value, [])
  | value, c :: cs =>
    let value' := value * 10 + (c.toNat - '0'.toNat)
    if value' < Text.wordLimit then absorb value' cs else (value, c :: cs)

/-- The largest power of ten that is a double, which has the exponent 308. -/
def largestPower : Nat := 308

/-- `x` times ten to the power `e`, in a few steps when the power is too small for one; `none` when
    that is too large. -/
def scale : (steps : Nat) → (x : Float) → (e : Int) → Option Float
  | 0, x, _ => some x
  | steps + 1, x, e =>
    if 0 ≤ e then
      if e.toNat ≤ largestPower then
        let y := x * Float.ofScientific 1 false e.toNat
        if y.isInf then none else some y
      else if x == 0 then some x
      else none
    else if e.natAbs ≤ largestPower then some (x / Float.ofScientific 1 false e.natAbs)
    else if x == 0 then some x
    else scale steps (x / Float.ofScientific 1 false largestPower) (e + largestPower)

/-- The greatest exponent that is taken at its value. -/
def maxExponent : Nat := 2147483647

/-- What a literal stands for; `none` when it is too large for a double. -/
def value? (n : NumberLiteral) : Option Number := do
  let (significand, dropped) := absorb 0 n.whole
  if !n.hasPoint && n.exponent.isNone && dropped.isEmpty then
    if !n.negative then return .natural significand
    if 0 < significand && significand ≤ 9223372036854775808 then return .negated significand
  let (significand, rest) := absorb significand n.fraction
  let shift : Int := (dropped.length : Int) - ((n.fraction.length - rest.length : Nat) : Int)
  let sign (x : Float) : Number := .real (if n.negative then -x else x)
  match n.exponent with
  | none => (scale 8 significand.toUInt64.toFloat shift).map sign
  | some (negative, digits) =>
    let e := digits.foldl (fun e c => e * 10 + (c.toNat - '0'.toNat)) 0
    if maxExponent < e then
      if significand ≠ 0 && !negative then none else some (sign 0)
    else (scale 8 significand.toUInt64.toFloat (shift + if negative then -(e : Int) else e)).map sign

end NumberLiteral

/-- What the literal of a number stands for. -/
def Number.ofLiteral? (literal : List Char) : Option Number := do
  match ← NumberLiteral.read literal with
  | (n, []) => n.value?
  | _ => none

end Mapf.Json
