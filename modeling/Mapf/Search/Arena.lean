/-! # Search nodes and their predecessors

The nodes of a search are numbered as they are made and name their predecessor by its number, so a
path is rebuilt by following numbers backwards. A node may later get a cheaper predecessor, which
can have a larger number than the node itself; that the walk back ends is a matter of how a search
uses the arena, and `pathTo?` answers `none` where it does not. -/

namespace Mapf

/-- A state with the cost to come, the estimated cost to go, and the node it was reached from. -/
structure SearchNode (σ : Type) where
  state : σ
  g : Nat
  h : Nat
  parent : Option Nat
  deriving DecidableEq

def SearchNode.f {σ : Type} (n : SearchNode σ) : Nat := n.g + n.h

/-- Nodes numbered from 0 in the order in which they were made. -/
structure Arena (σ : Type) where
  nodes : Array (SearchNode σ)

namespace Arena

variable {σ : Type}

def empty : Arena σ := ⟨#[]⟩

/-- The number of nodes, which is also the number of the next node. -/
def size (a : Arena σ) : Nat := a.nodes.size

/-- Adds a node under the number `a.size`. -/
def push (a : Arena σ) (node : SearchNode σ) : Arena σ := ⟨a.nodes.push node⟩

def get? (a : Arena σ) (id : Nat) : Option (SearchNode σ) := a.nodes[id]?

/-- Gives a node another cost to come and another predecessor. -/
def reroute (a : Arena σ) (id : Nat) (g : Nat) (parent : Option Nat) : Arena σ :=
  ⟨a.nodes.modify id fun node => { node with g := g, parent := parent }⟩

/-- Follows predecessors from a node for at most `limit` nodes and puts the states met in front of
    `rest`; `none` when that does not lead to a node without predecessor. -/
def walkBack (a : Arena σ) : (limit : Nat) → (id : Nat) → (rest : List σ) → Option (List σ)
  | 0, _, _ => none
  | limit + 1, id, rest =>
    match a.get? id with
    | none => none
    | some node =>
      match node.parent with
      | none => some (node.state :: rest)
      | some parent => a.walkBack limit parent (node.state :: rest)

/-- The states on the way to a node, from the node without predecessor on. A walk that visits more
    nodes than there are goes round in circles and has no path. -/
def pathTo? (a : Arena σ) (id : Nat) : Option (List σ) := a.walkBack a.size id []

end Arena

end Mapf
