/-! # The shortest decimals of floating-point numbers

A finite double is a whole number times a power of two. All reals nearer to it than to its neighbors
round to it (those half way too when the whole number is even); among the decimals in that interval
the ones with the fewest digits are considered, and of these the nearest is taken, an exact tie going
to the even digit. On a grid of multiples of a power of ten only the two grid points around the number
need a look, so the grids are tried from the coarsest on. -/

namespace Mapf.Decimal

/-- A positive number `mantissa * 2 ^ exponent` as a double holds it; `lowest` tells that the double
    below it is only half as far away as the one above it. -/
structure Binary where
  mantissa : Nat
  exponent : Int
  lowest : Bool

/-- The number `digits * 10 ^ exponent`. -/
structure Digits where
  digits : Nat
  exponent : Int
  deriving DecidableEq

/-- The magnitude of a double given by its bits, unless it is zero, infinite or no number. -/
def Binary.ofBits (bits : UInt64) : Option Binary :=
  let exponent := ((bits >>> 52) &&& 0x7FF).toNat
  let fraction := (bits &&& 0xFFFFFFFFFFFFF).toNat
  if exponent = 0x7FF then none
  else if exponent = 0 then
    if fraction = 0 then none else some ⟨fraction, -1074, false⟩
  else some ⟨0x10000000000000 + fraction, (exponent : Int) - 1075, fraction = 0 && 1 < exponent⟩

/-- `base ^ e` for the numerator of a fraction; a negative power belongs to the denominator. -/
def numerator (base : Nat) (e : Int) : Nat := base.pow e.toNat

def denominator (base : Nat) (e : Int) : Nat := base.pow (-e).toNat

/-- Compares `a * 2 ^ p` with `b * 10 ^ q`. -/
def compareScaled (a : Nat) (p : Int) (b : Nat) (q : Int) : Ordering :=
  compare (a * numerator 2 p * denominator 10 q) (b * numerator 10 q * denominator 2 p)

/-- Whether a decimal rounds to a double. -/
def Binary.accepts (v : Binary) (d : Digits) : Bool :=
  -- In quarters of the last place the interval reaches from 1 or 2 below to 2 above.
  let below := compareScaled (4 * v.mantissa - if v.lowest then 1 else 2) (v.exponent - 2) d.digits d.exponent
  let above := compareScaled (4 * v.mantissa + 2) (v.exponent - 2) d.digits d.exponent
  if v.mantissa % 2 = 0 then below ≠ .gt && above ≠ .lt else below = .lt && above = .gt

/-- The best decimal with the given power of ten, if one rounds to the double. -/
def Binary.onGrid (v : Binary) (exponent : Int) : Option Digits :=
  let num := v.mantissa * numerator 2 v.exponent * denominator 10 exponent
  let den := denominator 2 v.exponent * numerator 10 exponent
  let low := num / den
  let rest := num % den
  let down : Digits := ⟨low, exponent⟩
  let up : Digits := ⟨low + 1, exponent⟩
  match v.accepts down, v.accepts up with
  | false, false => none
  | true, false => some down
  | false, true => some up
  | true, true =>
    match compare (2 * rest) den with
    | .lt => some down
    | .gt => some up
    | .eq => some (if low % 2 = 0 then down else up)

/-- The best decimal on the coarsest grid that has one, among `count` grids from `exponent` down. -/
def Binary.coarsest (v : Binary) : (count : Nat) → (exponent : Int) → Option Digits
  | 0, _ => none
  | count + 1, exponent =>
    match v.onGrid exponent with
    | some d => some d
    | none => v.coarsest count (exponent - 1)

/-- The shortest decimal that rounds to a double. No double is as large as `10 ^ 309`, and every
    double is a multiple of `2 ^ (-1074)`, so it is met on one of these grids. -/
def Binary.shortest (v : Binary) : Option Digits := v.coarsest 1400 309

def zeros (n : Nat) : List Char := List.replicate n '0'

/-- The text of a decimal: without exponent from `0.00001` up to sixteen places before the point,
    and with one place before the point and a signed exponent elsewhere. -/
def Digits.text (d : Digits) : List Char :=
  let ds := Nat.toDigits 10 d.digits
  let point := (ds.length : Int) + d.exponent
  if 0 ≤ d.exponent ∧ point ≤ 16 then ds ++ zeros d.exponent.toNat ++ ['.', '0']
  else if 0 < point ∧ point ≤ 16 then ds.take point.toNat ++ '.' :: ds.drop point.toNat
  else if -5 < point ∧ point ≤ 0 then '0' :: '.' :: zeros (-point).toNat ++ ds
  else
    let exponent := point - 1
    let scale := 'e' :: (if exponent < 0 then '-' else '+') :: Nat.toDigits 10 exponent.natAbs
    match ds with
    | [] => scale
    | [c] => c :: scale
    | c :: cs => c :: '.' :: cs ++ scale

/-- The text of a double: shortest digits, always with a point or an exponent; `null` when it is
    infinite or no number. -/
def text (x : Float) : List Char :=
  if x.isNaN || x.isInf then "null".toList
  else
    let bits := x.toBits
    let sign := if bits >>> 63 = 1 then ['-'] else []
    match (Binary.ofBits bits).bind Binary.shortest with
    | some d => sign ++ d.text
    | none => sign ++ ['0', '.', '0']

end Mapf.Decimal
