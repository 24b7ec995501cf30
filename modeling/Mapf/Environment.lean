import Mapf.Position

/-! # Environments

An environment is the graph that agents move in: which positions it holds, which moves lead out of a
position and what a single move costs. Planners expect every edge to be usable in both directions at
the same cost. Waiting is not an edge: the planners add it on their own. -/

namespace Mapf

/-- The cost that a list of moves gives for going to `target`: that of the first such move. -/
def firstCost (moves : List (Position × Nat)) (target : Position) : Option Nat :=
  (moves.find? fun move => move.1 = target).map (·.2)

/-- A movement graph. -/
structure Environment where
  /-- Whether a position may be stood on. -/
  contains : Position → Bool
  /-- The moves out of a position with their costs, in the order in which searches try them. -/
  neighbors : Position → List (Position × Nat)
  /-- The cost of moving along one edge, unless there is no such edge. -/
  edgeCost : Position → Position → Option Nat := fun source target => firstCost (neighbors source) target

end Mapf
