import Mapf.Agent
import Mapf.Constraint.Set
import Mapf.DistanceTable
import Mapf.Search.BestFirst

/-! # Planning one agent through space and time

The states are cells. After the last constraint time no longer matters, so it stops advancing there
(the *horizon*) and the state space stays finite; the path that was found gets its real times back at
the end. A goal only counts once no constraint forbids staying there.

Times are numbers without a bound. `Mapf.Proofs.Words.Times` and `Mapf.Proofs.Words.Plans` tell when they may be words. -/

namespace Mapf

/-- What it costs to stay in place for one time step. -/
def waitCost : Nat := 1

namespace SpaceTime

/-- The time after the last constraint, at which time stops. -/
def horizon (constraints : ConstraintSet) : Nat := (constraints.maxTimeStep.map (· + 1)).getD 0

/-- The search problem of one agent under its constraints. -/
def problem (env : Environment) (agent : Agent) (table : DistanceTable) (constraints : ConstraintSet) :
    Problem Cell where
  initial := agent.start.atTime 0
  successors cell :=
    let time := min (cell.time + 1) (horizon constraints)
    (env.neighbors cell.position).map (fun move => (move.1.atTime time, move.2)) ++
      [(cell.position.atTime time, waitCost)]
  heuristic cell := table.get? cell.position
  isGoal cell :=
    cell.position = agent.goal &&
      (constraints.latestVertexTime agent.goal).all fun blockedUntil => blockedUntil < cell.time

def pruneConstraints (constraints : ConstraintSet) : Pruning Cell := fun candidate predecessor =>
  constraints.violatesVertex candidate ||
    predecessor.any fun previous =>
      previous.position ≠ candidate.position &&
        constraints.violatesEdge candidate.time previous.position candidate.position

/-- Leaves out positions outside the environment and moves along missing edges. -/
def pruneInvalidMoves (env : Environment) : Pruning Cell := fun candidate predecessor =>
  !env.contains candidate.position ||
    predecessor.any fun previous =>
      previous.position ≠ candidate.position &&
        (env.edgeCost previous.position candidate.position).isNone

def pruning (env : Environment) (constraints : ConstraintSet) : Pruning Cell :=
  (pruneConstraints constraints).or (pruneInvalidMoves env)

end SpaceTime

/-- A path of one agent with its cost. -/
structure Plan where
  path : Path
  cost : Nat
  deriving DecidableEq

namespace Plan

/-- The plan of a search: frozen times are replaced by the real ones. -/
def ofOutcome (outcome : Outcome Cell) : Plan :=
  ⟨Path.ofPositions (outcome.path.map Cell.position), outcome.cost⟩

/-- A cheapest plan of `agent` under its constraints. -/
def search (rounds : Nat) (env : Environment) (agent : Agent) (table : DistanceTable)
    (constraints : ConstraintSet) (deadline : Deadline) : Option (SearchReport Plan) := do
  let report ← BestFirst.search rounds (SpaceTime.problem env agent table constraints)
    (SpaceTime.pruning env constraints) deadline
  return ⟨report.result.map ofOutcome, report.counters⟩

end Plan

end Mapf
