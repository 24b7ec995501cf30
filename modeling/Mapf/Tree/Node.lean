import Mapf.Conflict
import Mapf.Constraint.Set
import Mapf.SpaceTime

/-! # Nodes of the constraint tree

A node holds a constraint set, a path and a cost for every agent, and the conflicts between the paths.
A child adds one constraint for one agent and replans that agent; all other agents keep what they
have.

Costs are numbers without a bound. `Mapf.Proofs.Words.Tree` tells when they may be words. -/

namespace Mapf

/-- How the costs of the agents add up to the cost of a node. -/
inductive CostType where
  /-- The sum over all agents. -/
  | sumOfCosts
  /-- The largest cost of a single agent. -/
  | makespan
  deriving DecidableEq

namespace CostType

/-- What is minimised unless something else is asked for. -/
def standard : CostType := .sumOfCosts

instance : Inhabited CostType := ⟨standard⟩

def combine : CostType → List Nat → Nat
  | .sumOfCosts, costs => costs.foldl (· + ·) 0
  | .makespan, costs => costs.foldl max 0

end CostType

/-- A node of the constraint tree; the lists have one entry for each agent. -/
structure TreeNode where
  constraints : List ConstraintSet
  paths : List Path
  costs : List Nat
  /-- The costs combined by `costType`. -/
  cost : Nat
  costType : CostType
  conflicts : List Conflict
  depth : Nat

/-- Cost and number of conflicts, by which nodes wait. -/
structure TreeRank where
  cost : Nat
  conflicts : Nat
  deriving DecidableEq

/-- The lower cost comes first; of equal ones, the one with fewer conflicts. -/
instance : LT TreeRank := ⟨fun a b => a.cost < b.cost ∨ a.cost = b.cost ∧ a.conflicts < b.conflicts⟩

instance : DecidableLT TreeRank := fun a b =>
  inferInstanceAs (Decidable (a.cost < b.cost ∨ a.cost = b.cost ∧ a.conflicts < b.conflicts))

namespace TreeNode

def rank (n : TreeNode) : TreeRank := ⟨n.cost, n.conflicts.length⟩

instance : Prioritized TreeNode TreeRank := ⟨rank⟩

/-- The node of unconstrained plans, in the order of the agents. -/
def root (costType : CostType) (plans : List Plan) : TreeNode where
  constraints := (List.range plans.length).map ConstraintSet.empty
  paths := plans.map Plan.path
  costs := plans.map Plan.cost
  cost := costType.combine (plans.map Plan.cost)
  costType := costType
  conflicts := Conflict.detect (plans.map Plan.path)
  depth := 0

def firstConflict? (n : TreeNode) : Option Conflict := n.conflicts.head?

/-- The constraint set that a child with constraint `c` would have for the agent of `c`; `none` when
    the node has no such agent. -/
def extend? (n : TreeNode) (c : Constraint) : Option ConstraintSet :=
  n.constraints[c.agent]?.map (·.insert c)

/-- The child in which one agent has another constraint set and another plan. -/
def replace (n : TreeNode) (agent : Nat) (set : ConstraintSet) (plan : Plan) : TreeNode :=
  let paths := n.paths.set agent plan.path
  let costs := n.costs.set agent plan.cost
  { constraints := n.constraints.set agent set
    paths := paths
    costs := costs
    cost := n.costType.combine costs
    costType := n.costType
    conflicts := Conflict.detect paths
    depth := n.depth + 1 }

/-- The child that the result of replanning leads to; none when the agent has no path left under its
    constraints. -/
def adopt (n : TreeNode) (agent : Nat) (set : ConstraintSet) :
    Except SearchError Plan → Except SearchError (Option TreeNode)
  | .ok plan => .ok (some (n.replace agent set plan))
  | .error .noPathFound => .ok none
  | .error e => .error e

/-- The child with constraint `c`, whose agent is replanned by `replan`. -/
def branch (n : TreeNode) (c : Constraint) (replan : ConstraintSet → Except SearchError Plan) :
    Except SearchError (Option TreeNode) :=
  match n.extend? c with
  | some set => n.adopt c.agent set (replan set)
  | none => .error .indexOutOfRange

end TreeNode

end Mapf
