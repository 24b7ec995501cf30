import Mapf.Position

/-! # Constraints

A constraint keeps one agent from a position at one time, or from one move arriving at one time. -/

namespace Mapf

/-- A restriction of one agent at one time. -/
inductive Constraint where
  /-- The agent may not be at `position` at `timeStep`. -/
  | vertex (agent : Nat) (position : Position) (timeStep : Nat)
  /-- The agent may not move from `source` to `target` arriving at `timeStep`. -/
  | edge (agent : Nat) (source target : Position) (timeStep : Nat)
  deriving DecidableEq

namespace Constraint

def agent : Constraint → Nat
  | .vertex agent _ _ => agent
  | .edge agent _ _ _ => agent

def timeStep : Constraint → Nat
  | .vertex _ _ timeStep => timeStep
  | .edge _ _ _ timeStep => timeStep

/-- The numbers by which constraints are sorted: vertex constraints come first, then the parts count
    from left to right. -/
def sortKey : Constraint → List Nat
  | .vertex agent p t => [0, agent, p.x, p.y, t]
  | .edge agent u v t => [1, agent, u.x, u.y, v.x, v.y, t]

end Constraint

/-- The numbers by which cells are sorted: time, row, column. -/
def Cell.sortKey (c : Cell) : List Nat := [c.time, c.x, c.y]

/-- Whether the first key comes no later than the second one, compared from left to right. -/
def keyLE : List Nat → List Nat → Bool
  | [], _ => true
  | _ :: _, [] => false
  | a :: as, b :: bs => if a = b then keyLE as bs else decide (a < b)

def Constraint.sort (constraints : List Constraint) : List Constraint :=
  constraints.mergeSort fun c d => keyLE c.sortKey d.sortKey

def Cell.sort (cells : List Cell) : List Cell :=
  cells.mergeSort fun c d => keyLE c.sortKey d.sortKey

end Mapf
