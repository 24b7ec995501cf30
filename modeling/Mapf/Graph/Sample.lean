import Mapf.Graph.Basic
import Mapf.Random.Draws

/-! # Random subgraphs -/

namespace Mapf.Graph

def addEdges (g : Graph) (edges : List Edge) : Except GraphError Graph :=
  edges.foldlM (fun g e => g.addEdge e.u e.v e.weight) g

/-- The graph of some vertices, added first, and edges. -/
def build (vertices : List Position) (edges : List Edge) : Except GraphError Graph :=
  addEdges (vertices.foldl addVertex .empty) edges

/-- The graph with the same vertices as `g` and those of its edges that are listed at the `chosen` places. -/
def keepEdges (g : Graph) (chosen : List Nat) : Except GraphError Graph :=
  build g.vertices ((g.edges.zipIdx.filter fun (_, i) => chosen.contains i).map (·.1))

/-- The graph with the same vertices as `g` and `amount` of its edges, chosen at random. -/
def sampleEdges {ρ : Type} (draws : Random.Draws ρ) (g : Graph) (amount : Nat) (source : ρ) :
    Option (Except GraphError Graph × ρ) :=
  if g.edges.length < amount then some (.error (.tooFewEdges amount g.edges.length), source)
  else do
    let (chosen, source) ← draws.select g.edges.length amount source
    return (g.keepEdges chosen, source)

end Mapf.Graph
