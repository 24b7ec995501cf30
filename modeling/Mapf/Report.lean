import Mapf.Stats

/-! # Reports

The summary of a solve that is written next to its solution. Times are in seconds. -/

namespace Mapf

/-- The numbers of a solve, with times in seconds. -/
structure Report where
  nodesExpanded : Nat
  nodesGenerated : Nat
  nodesEvaluated : Nat
  elapsedTime : Float
  solutionCost : Option Nat
  lowLevelSearches : Nat
  lowLevelNodesExpanded : Nat
  lowLevelNodesGenerated : Nat
  lowLevelNodesEvaluated : Nat
  lowLevelNodesPruned : Nat
  lowLevelTime : Float

/-- Milliseconds as seconds: the whole seconds, and the nanoseconds left over, are rounded on their
    own and then added. -/
def secondsOf (milliseconds : Nat) : Float :=
  (milliseconds / 1000).toUInt64.toFloat + (milliseconds % 1000 * 1000000).toUInt64.toFloat / 1000000000.0

def Stats.report (s : Stats) : Report where
  nodesExpanded := s.high.expanded
  nodesGenerated := s.high.generated
  nodesEvaluated := s.high.evaluated
  elapsedTime := secondsOf s.elapsed
  solutionCost := s.cost
  lowLevelSearches := s.searches
  lowLevelNodesExpanded := s.low.expanded
  lowLevelNodesGenerated := s.low.generated
  lowLevelNodesEvaluated := s.low.evaluated
  lowLevelNodesPruned := s.low.pruned
  lowLevelTime := secondsOf s.lowLevelTime

end Mapf
