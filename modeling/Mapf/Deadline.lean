/-! # Budgets, clocks and deadlines

A budget limits the time and the expansions of one solve. Time enters only through readings that the
caller supplies: a deadline answers, for each time that a search looks at it, whether the limit has
been reached. Nothing is assumed about the readings, so what holds of every clock also holds of one
that stands still (`Clock.still`) or runs backwards. -/

namespace Mapf

/-- Whether time is up, asked again and again: `expired k` is the answer after `k` expansions. -/
structure Deadline where
  expired : Nat → Bool

namespace Deadline

def never : Deadline := ⟨fun _ => false⟩

def passed : Deadline := ⟨fun _ => true⟩

/-- Time is up once a reading has reached the limit; without a limit it never is. -/
def ofLimit (limit : Option Nat) (reading : Nat → Nat) : Deadline :=
  ⟨fun k => limit.any fun l => l ≤ reading k⟩

end Deadline

/-- Milliseconds since the start of a solve, as they will be read: at the top of every round of the
    tree search, and at every look of every single-agent search. -/
structure Clock where
  atRound : Nat → Nat
  atSearch : (search : Nat) → (expansions : Nat) → Nat

/-- The clock that always shows the start of the solve. -/
def Clock.still : Clock := ⟨fun _ => 0, fun _ _ => 0⟩

/-- Limits for one solve; `none` is no limit. -/
structure Budget where
  timeLimit : Option Nat
  maxExpansions : Option Nat
  deriving DecidableEq

namespace Budget

def unlimited : Budget := ⟨none, none⟩

def expansionsExhausted (b : Budget) (expansions : Nat) : Bool :=
  b.maxExpansions.any fun m => m ≤ expansions

def roundDeadline (b : Budget) (clock : Clock) : Deadline := .ofLimit b.timeLimit clock.atRound

/-- The deadline of the single-agent search with the given number. -/
def searchDeadline (b : Budget) (clock : Clock) (search : Nat) : Deadline :=
  .ofLimit b.timeLimit (clock.atSearch search)

end Budget

end Mapf
