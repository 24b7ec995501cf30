import Mapf.Environment
import Mapf.Loop
import Mapf.Queue.Basic

/-! # Distances to a goal

A table of the least costs between one goal and every position connected to it, ignoring time and
other agents. It is filled from the goal outwards: of the positions met so far the nearest one is
settled next, and settling it may shorten the tentative distances of its neighbors. Edges count as
usable in both directions, so the distance from the goal is the distance to it.

Distances are numbers without a bound. `Mapf.Proofs.Words.Distances` tells when they may be words. -/

namespace Mapf

/-- The exact distances to one goal; a position that is not listed cannot reach it. -/
structure DistanceTable where
  goal : Position
  distances : Std.HashMap Position Nat

namespace DistanceTable

/-- The distance from `p` to the goal; `none` when the goal cannot be reached. -/
def get? (table : DistanceTable) (p : Position) : Option Nat := table.distances[p]?

/-- A table under construction: settled distances, and tentative ones waiting in a queue. -/
structure Progress where
  distances : Std.HashMap Position Nat
  frontier : Queue Position Nat

namespace Progress

/-- Nothing is settled, and only the goal waits, if the environment holds it. -/
def start (env : Environment) (goal : Position) : Progress where
  distances := ∅
  frontier := if env.contains goal then (Queue.empty.insert goal 0).toOption.getD .empty else .empty

/-- Offers a neighbor of a position settled at `cost` a tentative distance. -/
def relax (distances : Std.HashMap Position Nat) (cost : Nat) (frontier : Queue Position Nat)
    (move : Position × Nat) : Queue Position Nat :=
  if distances.contains move.1 then frontier
  else
    match frontier.get? move.1 with
    | some best =>
      if best ≤ cost + move.2 then frontier
      else (frontier.update move.1 fun _ => cost + move.2).toOption.getD frontier
    | none => (frontier.insert move.1 (cost + move.2)).toOption.getD frontier

/-- Settles the nearest waiting position; the table is complete when none waits. -/
def round (env : Environment) (goal : Position) (s : Progress) : Round Progress DistanceTable :=
  match s.frontier.popMin with
  | .error _ => .done ⟨goal, s.distances⟩
  | .ok ((p, cost), frontier) =>
    let distances := s.distances.insert p cost
    .next ⟨distances, (env.neighbors p).foldl (relax distances cost) frontier⟩

end Progress

/-- The distances to `goal`, settled in fewer than `rounds` rounds. -/
def build (rounds : Nat) (env : Environment) (goal : Position) : Option DistanceTable :=
  Loop.run (fun s => some (Progress.round env goal s)) rounds (.start env goal)

end DistanceTable

end Mapf
