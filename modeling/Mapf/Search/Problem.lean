import Mapf.Counters
import Mapf.Queue.Basic

/-! # Search problems

What a best-first search needs to know about a state space, which candidates it may skip, and how a
search can fail. -/

namespace Mapf

/-- A state space with step costs and an estimate of the remaining cost. -/
structure Problem (σ : Type) where
  initial : σ
  /-- The moves out of a state with their costs, in the order in which they are tried. -/
  successors : σ → List (σ × Nat)
  /-- The estimated cost from a state to a goal; `none` when no goal can be reached from there. -/
  heuristic : σ → Option Nat
  isGoal : σ → Bool

/-- Says which candidates a search leaves out, given the state they were reached from. -/
abbrev Pruning (σ : Type) := (candidate : σ) → (predecessor : Option σ) → Bool

namespace Pruning

variable {σ : Type}

protected def none : Pruning σ := fun _ _ => false

protected def or (p q : Pruning σ) : Pruning σ := fun candidate predecessor =>
  p candidate predecessor || q candidate predecessor

end Pruning

/-- Why a single-agent search ended without a path. -/
inductive SearchError where
  | noPathFound
  | budgetExceeded
  | queue (error : QueueError)
  /-- A position outside a list was used. -/
  | indexOutOfRange
  deriving DecidableEq

def SearchError.message : SearchError → String
  | .noPathFound => "open list exhausted without reaching the goal"
  | .budgetExceeded => "search budget exceeded"
  | .queue error => error.message
  | .indexOutOfRange => "index out of range"

/-- The states from the initial one to a goal, and what the steps between them cost. -/
structure Outcome (σ : Type) where
  path : List σ
  cost : Nat
  deriving DecidableEq

/-- What a search found, and what it counted on the way. -/
structure SearchReport (α : Type) where
  result : Except SearchError α
  counters : Counters

end Mapf
