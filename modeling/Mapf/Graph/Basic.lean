import Mapf.Environment
import Mapf.OrderedMap

/-! # Weighted graphs

Undirected graphs whose vertices are positions. Every vertex has the map of its neighbors, so every
edge stands in two places. All maps are ordered, hence vertices, neighbors and edges are always listed
in ascending order and two graphs are equal when they have the same vertices and edges. -/

namespace Mapf

/-- For every vertex, its neighbors with the weights of the edges to them. -/
structure Graph where
  adjacency : OrderedMap Position (OrderedMap Position Nat)
  deriving DecidableEq

/-- Why a graph cannot be changed or sampled as asked. -/
inductive GraphError where
  | selfLoop (vertex : Position)
  | zeroWeight (u v : Position)
  | tooFewEdges (wanted present : Nat)
  deriving DecidableEq

def GraphError.message : GraphError → String
  | .selfLoop vertex => s!"self loop on {vertex.text}, waiting is implicit"
  | .zeroWeight u v => s!"edge {u.text} - {v.text} must have a positive weight"
  | .tooFewEdges wanted present => s!"cannot sample {wanted} edges from a graph with {present} edges"

/-- An edge, once for both directions. -/
structure Edge where
  u : Position
  v : Position
  weight : Nat
  deriving DecidableEq

namespace Graph

def empty : Graph := ⟨∅⟩

/-- Adds a vertex, unless it is there. -/
def addVertex (g : Graph) (v : Position) : Graph := ⟨g.adjacency.alter v fun known => known.getD ∅⟩

/-- Enters `v` among the neighbors of `u`. -/
def link (adjacency : OrderedMap Position (OrderedMap Position Nat)) (u v : Position) (weight : Nat) :
    OrderedMap Position (OrderedMap Position Nat) :=
  adjacency.alter u fun known => (known.getD ∅).insert v weight

/-- Adds an edge with its end points, or gives it another weight. -/
def addEdge (g : Graph) (u v : Position) (weight : Nat) : Except GraphError Graph :=
  if u = v then .error (.selfLoop u)
  else if weight = 0 then .error (.zeroWeight u v)
  else .ok ⟨link (link g.adjacency u v weight) v u weight⟩

/-- What can be added to a graph. -/
inductive Addition where
  | vertex (v : Position)
  | edge (u v : Position) (weight : Nat)
  deriving DecidableEq

/-- Adds a vertex or an edge. A graph to which an edge cannot be added stays as it is. -/
def add (g : Graph) : Addition → Option GraphError × Graph
  | .vertex v => (none, g.addVertex v)
  | .edge u v weight =>
    match g.addEdge u v weight with
    | .ok extended => (none, extended)
    | .error e => (some e, g)

/-- The graph after additions one after the other, without those that fail. -/
def addAll (g : Graph) (additions : List Addition) : Graph :=
  additions.foldl (fun g addition => (g.add addition).2) g

def vertices (g : Graph) : List Position := g.adjacency.keys

def vertexCount (g : Graph) : Nat := g.adjacency.size

/-- The number of edges: every edge stands in two places. -/
def edgeCount (g : Graph) : Nat := (g.adjacency.values.map OrderedMap.size).foldl (· + ·) 0 / 2

/-- Every edge once, from its lower end point, ascending. -/
def edges (g : Graph) : List Edge :=
  g.adjacency.toList.flatMap fun (u, neighbors) =>
    (neighbors.toList.filter fun (v, _) => u < v).map fun (v, weight) => ⟨u, v, weight⟩

/-- The neighbors of a vertex; a position that is no vertex has none. -/
def neighbors (g : Graph) (u : Position) : List (Position × Nat) :=
  (g.adjacency.get? u).elim [] OrderedMap.toList

def weight? (g : Graph) (u v : Position) : Option Nat :=
  (g.adjacency.get? u).bind fun neighbors => neighbors.get? v

def environment (g : Graph) : Environment where
  contains := g.adjacency.contains
  neighbors := g.neighbors
  edgeCost := g.weight?

end Graph

end Mapf
