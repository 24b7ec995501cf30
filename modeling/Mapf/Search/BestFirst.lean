import Mapf.Deadline
import Mapf.Loop
import Mapf.Search.Arena
import Mapf.Search.Problem
import Std.Data.HashSet

/-! # Best-first search

States wait in a queue, least estimated total cost first, of equal ones the deeper first, of those
the earlier met first. A state that left the queue is closed and never comes back; a cheaper way into
a state that still waits takes the place of the former one. The search ends at the first goal that
leaves the queue.

Costs are numbers without a bound. `Mapf.Proofs.Words.Search` tells when they may be words. -/

namespace Mapf

/-- A waiting state: its node, its cost to come and its estimated total cost. -/
structure OpenEntry where
  node : Nat
  g : Nat
  f : Nat
  deriving DecidableEq

/-- How promising a waiting state is. -/
structure Merit where
  f : Nat
  g : Nat
  deriving DecidableEq

/-- The lower estimate comes first; of equal ones, the deeper state. -/
instance : LT Merit := ⟨fun a b => a.f < b.f ∨ a.f = b.f ∧ b.g < a.g⟩

instance : DecidableLT Merit := fun a b => inferInstanceAs (Decidable (a.f < b.f ∨ a.f = b.f ∧ b.g < a.g))

instance : Prioritized OpenEntry Merit := ⟨fun e => ⟨e.f, e.g⟩⟩

namespace BestFirst

/-- How many expansions pass between two looks at the deadline. -/
def deadlineInterval : Nat := 256

variable {σ : Type} [BEq σ] [Hashable σ]

/-- A search under way. -/
structure Progress (σ : Type) [BEq σ] [Hashable σ] where
  arena : Arena σ
  waiting : Queue σ OpenEntry
  closed : Std.HashSet σ
  counters : Counters

def Progress.count (s : Progress σ) (record : Counters → Counters) : Progress σ :=
  { s with counters := record s.counters }

/-- Lets `state` wait under a new node. -/
def Progress.enqueue (s : Progress σ) (state : σ) (g h : Nat) (parent : Option Nat) :
    Except SearchError (Progress σ) :=
  match s.waiting.insert state ⟨s.arena.size, g, g + h⟩ with
  | .error e => .error (.queue e)
  | .ok waiting => .ok { s with arena := s.arena.push ⟨state, g, h, parent⟩, waiting := waiting }

/-- Gives the waiting `state`, whose node is `id`, a cheaper predecessor. -/
def Progress.improve (s : Progress σ) (state : σ) (id g h parent : Nat) : Except SearchError (Progress σ) :=
  match s.waiting.update state fun entry => { entry with g := g, f := g + h } with
  | .error e => .error (.queue e)
  | .ok waiting => .ok { s with arena := s.arena.reroute id g (some parent), waiting := waiting }

/-- The root waits, unless it is pruned or its estimate says that no goal can be reached. -/
def start (problem : Problem σ) (prune : Pruning σ) : Round (Progress σ) (SearchReport (Outcome σ)) :=
  let s : Progress σ := ⟨.empty, .empty, ∅, Counters.zero.recordGeneration⟩
  if prune problem.initial none then .done ⟨.error .noPathFound, s.counters.recordPruned⟩
  else
    match problem.heuristic problem.initial with
    | none => .done ⟨.error .noPathFound, s.counters⟩
    | some h =>
      let s := s.count .recordEvaluation
      match s.enqueue problem.initial 0 h none with
      | .ok s => .next s
      | .error e => .done ⟨.error e, s.counters⟩

def visit (problem : Problem σ) (prune : Pruning σ) (state : σ) (entry : OpenEntry) (s : Progress σ)
    (move : σ × Nat) : Except SearchError (Progress σ) :=
  let child := move.1
  if s.closed.contains child then .ok s
  else
    let s := s.count .recordGeneration
    if prune child (some state) then .ok (s.count .recordPruned)
    else
      match problem.heuristic child with
      | none => .ok s
      | some h =>
        let s := s.count .recordEvaluation
        let g := entry.g + move.2
        match s.waiting.get? child with
        | some known => if g < known.g then s.improve child known.node g h entry.node else .ok s
        | none => s.enqueue child g h (some entry.node)

/-- Closes a state that is no goal and looks at every move out of it. -/
def expand (problem : Problem σ) (prune : Pruning σ) (state : σ) (entry : OpenEntry) (s : Progress σ) :
    Round (Progress σ) (SearchReport (Outcome σ)) :=
  let s := { s with closed := s.closed.insert state }.count .recordExpansion
  match (problem.successors state).foldlM (visit problem prune state entry) s with
  | .ok s => .next s
  | .error e => .done ⟨.error e, s.counters⟩

/-- Takes the most promising state: the search ends there if it is a goal or time is up. -/
def round (problem : Problem σ) (prune : Pruning σ) (deadline : Deadline) (s : Progress σ) :
    Round (Progress σ) (SearchReport (Outcome σ)) :=
  match s.waiting.popMin with
  | .error _ => .done ⟨.error .noPathFound, s.counters⟩
  | .ok ((state, entry), waiting) =>
    let k := s.counters.expanded
    if k % deadlineInterval = 0 ∧ deadline.expired k then .done ⟨.error .budgetExceeded, s.counters⟩
    else if problem.isGoal state then
      match s.arena.pathTo? entry.node with
      | some path => .done ⟨.ok ⟨path, entry.g⟩, s.counters⟩
      | none => .done ⟨.error .indexOutOfRange, s.counters⟩
    else expand problem prune state entry { s with waiting := waiting }

/-- Searches for a goal in at most `rounds` rounds. -/
def search (rounds : Nat) (problem : Problem σ) (prune : Pruning σ) (deadline : Deadline) :
    Option (SearchReport (Outcome σ)) :=
  match start problem prune with
  | .done report => some report
  | .next s => Loop.run (fun s => some (round problem prune deadline s)) rounds s

end BestFirst

end Mapf
