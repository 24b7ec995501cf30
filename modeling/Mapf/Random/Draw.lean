import Mapf.Loop
import Mapf.Random.Draws
import Mapf.Random.Source

/-! # Draws from words

Numbers below a bound, elements of a list, shuffles and selections, drawn from a source of words. A
word is used for a number below `n` only if its product with `n` leaves a remainder in a range that
gives every number the same chance; otherwise the next word is tried. All bounds are less than
`2 ^ 32`.

Numbers are selected in one of three ways, by how many there are of them and of all: one by one from
bounds that grow by one, by exchanges in the list of all numbers, or by trying again whatever was
selected before. -/

namespace Mapf.Random

def wordCount : Nat := 4294967296

/-- The largest remainder that is accepted for a single number below `n`: `n` shifted to the left
until its highest bit is that of a word, less one. -/
def zone (n : Nat) : Nat := n * Nat.pow 2 (31 - n.log2) - 1

/-- The largest remainder that is accepted for one of many numbers below `n`: as few words as
possible are left out. -/
def wideZone (n : Nat) : Nat := wordCount - 1 - (wordCount - n) % n

/-- Tries to get a number below `n` from the next word, whose product with `n` may leave a remainder
up to `limit`. -/
def attempt (limit n : Nat) (s : Source) : Option (Round Source (Nat × Source)) :=
  let (word, s) := s.next
  let product := word.toNat * n
  if product % wordCount ≤ limit then some (.done (product / wordCount, s)) else some (.next s)

/-- Draws a number below `n`, which is positive, from the first word that gives one. -/
def below (rounds n : Nat) (s : Source) : Option (Nat × Source) := Loop.run (attempt (zone n) n) rounds s

/-- Draws an element of a list; an empty list has none and uses no word. -/
def choose {α : Type} (rounds : Nat) (xs : List α) (s : Source) : Option (Option α × Source) :=
  if xs.isEmpty then some (none, s)
  else do
    let (i, s) ← below rounds xs.length s
    return (xs[i]?, s)

/-- Exchanges the elements at places `1` to `i` of an array, last place first, with elements drawn
from the places up to them. -/
def shuffleFrom {α : Type} (rounds : Nat) : (i : Nat) → Array α → Source → Option (Array α × Source)
  | 0, xs, s => some (xs, s)
  | i + 1, xs, s => do
    let (j, s) ← below rounds (i + 2) s
    shuffleFrom rounds i (xs.swapIfInBounds (i + 1) j) s

def shuffle {α : Type} (rounds : Nat) (xs : List α) (s : Source) : Option (List α × Source) := do
  let (xs, s) ← shuffleFrom rounds (xs.length - 1) xs.toArray s
  return (xs.toList, s)

/-! ### Selections -/

/-- Selects one more number up to `j`, for every `j` from `first` on: the number drawn, or `j` when
that is selected already. Such a `j` takes the place of the number drawn if the selection is to come
out `mixed`. -/
def selectRising (rounds : Nat) (mixed : Bool) :
    (count first : Nat) → List Nat → Source → Option (List Nat × Source)
  | 0, _, chosen, s => some (chosen, s)
  | count + 1, j, chosen, s => do
    let (t, s) ← below rounds (j + 1) s
    let chosen :=
      if chosen.contains t then
        let i := if mixed then chosen.idxOf t else chosen.length
        chosen.take i ++ j :: chosen.drop i
      else chosen ++ [t]
    selectRising rounds mixed count (j + 1) chosen s

/-- Selects numbers one by one. Less than 50 of them come out mixed, more are shuffled at last. -/
def selectFew (rounds size amount : Nat) (s : Source) : Option (List Nat × Source) :=
  if amount < 50 then selectRising rounds true amount (size - amount) [] s
  else do
    let (chosen, s) ← selectRising rounds false amount (size - amount) [] s
    shuffle rounds chosen s

/-- Exchanges `count` places of an array, from place `i` on, with places drawn from those not before
them. -/
def shuffleFront {α : Type} (rounds : Nat) : (count i : Nat) → Array α → Source → Option (Array α × Source)
  | 0, _, xs, s => some (xs, s)
  | count + 1, i, xs, s => do
    let (j, s) ← below rounds (xs.size - i) s
    shuffleFront rounds count (i + 1) (xs.swapIfInBounds i (i + j)) s

/-- Selects numbers by exchanges at the front of all of them. -/
def selectFront (rounds size amount : Nat) (s : Source) : Option (List Nat × Source) := do
  let (xs, s) ← shuffleFront rounds amount 0 (Array.range size) s
  return (xs.toList.take amount, s)

/-- Tries to get a number below `size` that is not selected yet. -/
def attemptFresh (rounds size : Nat) (chosen : List Nat) (s : Source) : Option (Round Source (Nat × Source)) := do
  let (i, s) ← Loop.run (attempt (wideZone size) size) rounds s
  return if chosen.contains i then .next s else .done (i, s)

/-- Selects `count` more numbers below `size`. -/
def selectFresh (rounds size : Nat) : (count : Nat) → List Nat → Source → Option (List Nat × Source)
  | 0, chosen, s => some (chosen, s)
  | count + 1, chosen, s => do
    let (i, s) ← Loop.run (attemptFresh rounds size chosen) rounds s
    selectFresh rounds size count (chosen ++ [i]) s

/-- A number rounded to 24 binary digits, halves to the even side: a number of single precision. -/
def single (n : Nat) : Nat :=
  let unit := Nat.pow 2 (n.log2 - 23)
  let whole := n / unit
  let part := 2 * (n % unit)
  (if part < unit || (part == unit && whole % 2 == 0) then whole else whole + 1) * unit

/-- Whether exchanges take less work than other ways: there must not be too many numbers for each one
that is selected. The bounds are `10 + 1.6 * amount` below 163 and from there on 270, or
`9611947 / 2 ^ 18` of single precision if there are 500000 numbers or more. -/
def prefersFront (size amount : Nat) : Bool :=
  if amount < 163 then size < 500000 && 5 * size < (50 + 8 * amount) * amount
  else if size < 500000 then size < 270 * amount
  else Nat.pow 2 18 * single size < single (9611947 * single amount)

/-- Selects `amount` different numbers below `size`. -/
def selectIndices (rounds size amount : Nat) (s : Source) : Option (List Nat × Source) :=
  if amount ≤ 11 then selectFew rounds size amount s
  else if prefersFront size amount then selectFront rounds size amount s
  else if amount < 163 then selectFew rounds size amount s
  else selectFresh rounds size amount [] s

/-- Draws from words, each with at most `rounds` tries for a number. -/
def Draws.ofWords (rounds : Nat) : Draws Source where
  choose := Random.choose rounds
  shuffle := Random.shuffle rounds
  select := selectIndices rounds

end Mapf.Random
