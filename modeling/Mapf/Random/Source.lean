/-! # Sources of random words

A source is an endless sequence of 32-bit words, of which some have been used up. The words are
either given, followed by zeros, or come from a seed: the seed is stretched to a key, and the words
are the output of the ChaCha block function with 12 rounds under that key, block after block. -/

namespace Mapf.Random

/-- An endless sequence of words, and how many of them have been drawn. -/
structure Source where
  word : Nat → UInt32
  drawn : Nat

namespace Source

def next (s : Source) : UInt32 × Source := (s.word s.drawn, { s with drawn := s.drawn + 1 })

/-- The source of the given words, each taken modulo `2 ^ 32`, and then of zeros. -/
def ofWords (words : List Nat) : Source := ⟨fun k => UInt32.ofNat (words.getD k 0), 0⟩

/-! ### Seeds -/

def rotateRight (w : UInt32) (places : UInt32) : UInt32 := (w >>> places) ||| (w <<< ((32 - places) % 32))

def rotateLeft (w : UInt32) (places : UInt32) : UInt32 := (w <<< places) ||| (w >>> ((32 - places) % 32))

/-- The state after a state of the generator that stretches seeds: linear congruential, 64 bits. -/
def stretchStep (state : UInt64) : UInt64 := state * 6364136223846793005 + 11634580027462260723

/-- The word that a state of that generator gives: high bits folded together and then turned by the
    highest five. -/
def stretchWord (state : UInt64) : UInt32 :=
  rotateRight ((((state >>> 18) ^^^ state) >>> 27).toUInt32) ((state >>> 59).toUInt32)

/-- The first `n` words of that generator from a state. -/
def stretch : (n : Nat) → UInt64 → List UInt32
  | 0, _ => []
  | n + 1, state =>
    let state := stretchStep state
    stretchWord state :: stretch n state

/-- Mixes four words of a block. -/
def quarterRound (block : Array UInt32) (a b c d : Nat) : Array UInt32 :=
  let va := block.getD a 0
  let vb := block.getD b 0
  let vc := block.getD c 0
  let vd := block.getD d 0
  let va := va + vb
  let vd := rotateLeft (vd ^^^ va) 16
  let vc := vc + vd
  let vb := rotateLeft (vb ^^^ vc) 12
  let va := va + vb
  let vd := rotateLeft (vd ^^^ va) 8
  let vc := vc + vd
  let vb := rotateLeft (vb ^^^ vc) 7
  (((block.setIfInBounds a va).setIfInBounds b vb).setIfInBounds c vc).setIfInBounds d vd

/-- Two rounds: one along the columns of a block, one along its diagonals. -/
def doubleRound (block : Array UInt32) : Array UInt32 :=
  let block := quarterRound block 0 4 8 12
  let block := quarterRound block 1 5 9 13
  let block := quarterRound block 2 6 10 14
  let block := quarterRound block 3 7 11 15
  let block := quarterRound block 0 5 10 15
  let block := quarterRound block 1 6 11 12
  let block := quarterRound block 2 7 8 13
  quarterRound block 3 4 9 14

/-- The constants at the head of every block. -/
def blockHead : List UInt32 := [0x61707865, 0x3320646E, 0x79622D32, 0x6B206574]

/-- The block before mixing: four constants, the key, the number of the block, and two zeros. -/
def initialBlock (key : List UInt32) (counter : Nat) : Array UInt32 :=
  (blockHead ++ key ++ [UInt32.ofNat counter, UInt32.ofNat (counter >>> 32), 0, 0]).toArray

/-- The block of a number: six double rounds, added to the block before mixing. -/
def block (key : List UInt32) (counter : Nat) : Array UInt32 :=
  let start := initialBlock key counter
  Array.zipWith (· + ·) (Nat.repeat doubleRound 6 start) start

def ofSeed (seed : Nat) : Source :=
  let key := stretch 8 (UInt64.ofNat seed)
  ⟨fun k => (block key (k / 16)).getD (k % 16) 0, 0⟩

end Source

end Mapf.Random
