import Mapf.Agent
import Mapf.Conflict
import Mapf.OrderedMap

/-! # Solutions and their independent check

A solution gives every agent, named by its id, a path. `verify` checks it from scratch: it looks at
nothing but the environment, the agents and the paths. -/

namespace Mapf

/-- Paths by agent id, and their combined cost. -/
structure Solution where
  paths : OrderedMap Nat Path
  cost : Nat
  deriving DecidableEq

namespace Solution

/-- Whether a path starts where the agent starts and ends where it ends. -/
def connects (path : Path) (agent : Agent) : Bool :=
  path.head?.map Cell.position = some agent.start && path.getLast?.map Cell.position = some agent.goal

/-- Whether every cell carries its index as time and lies in the environment. -/
def staysInside (path : Path) (env : Environment) : Bool :=
  path.zipIdx.all fun (cell, time) => cell.time = time && env.contains cell.position

def followsEdges (path : Path) (env : Environment) : Bool :=
  path.steps.all fun step =>
    step.1.position = step.2.position || (env.edgeCost step.1.position step.2.position).isSome

/-- Whether the paths lead every agent to its goal without conflicts: one path for each of the
    distinct agents, each of them valid on its own, and no two of them in conflict. -/
def verify (s : Solution) (env : Environment) (agents : List Agent) : Bool :=
  s.paths.size = agents.length &&
    (agents.map Agent.id).Nodup &&
    agents.all (fun agent =>
      (s.paths.get? agent.id).any fun path =>
        connects path agent && staysInside path env && followsEdges path env) &&
    Conflict.count (agents.filterMap fun agent => s.paths.get? agent.id) = 0

/-- The time at which the last agent ends its path. -/
def makespan (s : Solution) : Nat :=
  (s.paths.values.map fun path => path.length - 1).foldl max 0

end Solution

end Mapf
