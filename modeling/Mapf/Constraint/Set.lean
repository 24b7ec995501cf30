import Mapf.Constraint.Basic
import Std.Data.HashMap
import Std.Data.HashSet

/-! # The constraints of one agent

A set lists the constraints of an agent in the order of insertion and keeps indexes for what a search
asks at every step: whether a cell or a move is forbidden, until when a position is, and when the last
constraint ends. A move constraint forbids the edge in both directions, because two agents that
exchange places use it in both; a second constraint on the same edge at the same time is therefore not
added. -/

namespace Mapf

/-- An edge at a time, without direction: `low ≤ high`. -/
structure TimedEdge where
  timeStep : Nat
  low : Position
  high : Position
  deriving DecidableEq, Hashable

def TimedEdge.between (timeStep : Nat) (p q : Position) : TimedEdge :=
  if p ≤ q then ⟨timeStep, p, q⟩ else ⟨timeStep, q, p⟩

/-- All constraints of one agent, with their indexes. -/
structure ConstraintSet where
  agent : Nat
  /-- The constraints in the order of insertion. -/
  toList : List Constraint
  vertices : Std.HashSet Cell
  edges : Std.HashSet TimedEdge
  latestVertex : Std.HashMap Position Nat
  maxTimeStep : Option Nat

namespace ConstraintSet

def empty (agent : Nat) : ConstraintSet := ⟨agent, [], ∅, ∅, ∅, none⟩

def size (s : ConstraintSet) : Nat := s.toList.length

/-- Whether exactly this constraint is listed. -/
def contains (s : ConstraintSet) (c : Constraint) : Bool := s.toList.contains c

def violatesVertex (s : ConstraintSet) (cell : Cell) : Bool := s.vertices.contains cell

/-- Whether moving between two positions and arriving at `timeStep` is forbidden, in whichever
    direction. -/
def violatesEdge (s : ConstraintSet) (timeStep : Nat) (source target : Position) : Bool :=
  s.edges.contains (.between timeStep source target)

/-- The last time at which being at `p` is forbidden. -/
def latestVertexTime (s : ConstraintSet) (p : Position) : Option Nat := s.latestVertex[p]?

/-- Whether the set already forbids what `c` forbids. -/
def covers (s : ConstraintSet) : Constraint → Bool
  | .vertex _ position timeStep => s.violatesVertex (position.atTime timeStep)
  | .edge _ source target timeStep => s.violatesEdge timeStep source target

/-- The greater of two times, of which the first may be missing. -/
def laterOf (known : Option Nat) (timeStep : Nat) : Nat := (known.map (max · timeStep)).getD timeStep

def record (s : ConstraintSet) (c : Constraint) : ConstraintSet :=
  let s := { s with
    toList := s.toList ++ [c]
    maxTimeStep := some (laterOf s.maxTimeStep c.timeStep) }
  match c with
  | .vertex _ position timeStep =>
    { s with
      vertices := s.vertices.insert (position.atTime timeStep)
      latestVertex := s.latestVertex.insert position (laterOf s.latestVertex[position]? timeStep) }
  | .edge _ source target timeStep =>
    { s with edges := s.edges.insert (.between timeStep source target) }

/-- Adds a constraint, unless the set already forbids what it forbids. -/
def insert (s : ConstraintSet) (c : Constraint) : ConstraintSet :=
  if s.covers c then s else s.record c

/-- Adds a constraint, and says whether it was new: whether the set did not yet forbid what it forbids. -/
def insertNew (s : ConstraintSet) (c : Constraint) : Bool × ConstraintSet := (!s.covers c, s.insert c)

/-- The set of an agent filled with `constraints` in their order. -/
def ofList (agent : Nat) (constraints : List Constraint) : ConstraintSet :=
  constraints.foldl insert (empty agent)

/-- Whether a path, indexed by time, breaks a constraint of this set. -/
def isViolatedBy (s : ConstraintSet) (path : Path) : Bool :=
  path.any s.violatesVertex ||
    path.steps.any fun step => s.violatesEdge step.2.time step.1.position step.2.position

/-- Whether two sets restrict the same agent by the same constraints in the same order. -/
def agrees (s t : ConstraintSet) : Bool := s.agent = t.agent && s.toList = t.toList

end ConstraintSet

end Mapf
