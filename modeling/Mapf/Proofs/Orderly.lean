import Mapf.Proofs.Graphs
import Mapf.Proofs.Grids

/-! # Grids and graphs as searches expect them

A search expands a cell by the listed moves and looks up the cost of a single move, so both have to say the same,
and it relies on moves that lead both ways, between different cells that are inside, at a cost
(`Environment.Orderly`). Every grid that can be built is orderly unless it is too large to be stored, and so is
every graph (`orderly_of_built`). -/

namespace Mapf

theorem firstCost_eq_some_iff {moves : List (Position × Nat)} (h : (moves.map Prod.fst).Nodup) {target : Position}
    {c : Nat} : firstCost moves target = some c ↔ (target, c) ∈ moves := by
  rw [firstCost, Option.map_eq_some_iff]
  constructor
  · rintro ⟨⟨q, c⟩, hfind, rfl⟩
    have hq := List.find?_some hfind
    obtain rfl : q = target := of_decide_eq_true hq
    exact List.mem_of_find?_eq_some hfind
  · intro hm
    obtain ⟨⟨q, d⟩, hfind⟩ : ∃ move, moves.find? (fun move => move.1 = target) = some move := by
      rw [← Option.isSome_iff_exists, List.find?_isSome]
      exact ⟨_, hm, decide_eq_true rfl⟩
    have hq := List.find?_some hfind
    obtain rfl : q = target := of_decide_eq_true hq
    -- Of several moves to the same target the first one would count, but there is only one.
    obtain rfl : d = c := (Prod.mk.inj (List.inj_on_of_nodup_map h (List.mem_of_find?_eq_some hfind) hm rfl)).2
    exact ⟨_, hfind, rfl⟩

namespace Environment

/-- Moves lead both ways at the same cost, which is at least 1, between different cells that are both inside; no
    cell is listed twice; and the cost that is given for a move is that of the listed one, if there is one. -/
structure Orderly (env : Environment) : Prop where
  symmetric : ∀ {p q : Position} {c : Nat}, (q, c) ∈ env.neighbors p ↔ (p, c) ∈ env.neighbors q
  inside : ∀ {p q : Position} {c : Nat}, (q, c) ∈ env.neighbors p → env.contains q = true
  nodup : ∀ p, ((env.neighbors p).map Prod.fst).Nodup
  apart : ∀ {p q : Position} {c : Nat}, (q, c) ∈ env.neighbors p → q ≠ p
  positive : ∀ {p q : Position} {c : Nat}, (q, c) ∈ env.neighbors p → 1 ≤ c
  outside : ∀ {p : Position}, env.contains p = false → env.neighbors p = []
  edgeCost : ∀ p q, env.edgeCost p q = firstCost (env.neighbors p) q
  coherent : ∀ {p q : Position} {c : Nat}, env.edgeCost p q = some c ↔ (q, c) ∈ env.neighbors p

end Environment

namespace Grid

variable {height width : Nat} {rows : Array (Array Bool)} {p : Position}

theorem nodup_neighbors (height width : Nat) (rows : Array (Array Bool)) (p : Position) :
    (((ofRows height width rows).environment.neighbors p).map Prod.fst).Nodup := by
  by_cases hp : (ofRows height width rows).isPassable p = true
  · have hfst : ((openAround height width rows p).map (·, 1)).map Prod.fst = openAround height width rows p := by
      rw [List.map_map]
      exact List.map_id _
    rw [neighbors_of_isPassable hp, hfst]
    exact nodup_openAround height width rows p
  · rw [neighbors_eq, if_neg hp]
    exact List.nodup_nil

theorem orderly_ofRows (hh : height < half) (hw : width < half) :
    (ofRows height width rows).environment.Orderly := by
  have hmem : ∀ {p q : Position} {c : Nat}, (q, c) ∈ (ofRows height width rows).environment.neighbors p →
      (ofRows height width rows).isPassable q = true ∧ Adjacent p q ∧ c = 1 := by
    intro p q c hm
    obtain ⟨-, -, -, hq, hadj, hc⟩ := (mem_neighbors_iff (lt_wordCount hh) (lt_wordCount hw)).mp hm
    exact ⟨hq, hadj, hc⟩
  refine ⟨⟨?_, ?_⟩, fun hm => (hmem hm).1, nodup_neighbors height width rows, fun {p q c} hm heq => ?_,
    fun hm => Nat.le_of_eq (hmem hm).2.2.symm, fun hp => ?_, fun p q => Option.ext fun c => ?_,
    edgeCost_eq_some_iff_mem hh hw⟩
  · exact mem_neighbors_symm (lt_wordCount hh) (lt_wordCount hw)
  · exact mem_neighbors_symm (lt_wordCount hh) (lt_wordCount hw)
  · have hadj := (hmem hm).2.1
    rw [heq, Adjacent] at hadj
    omega
  · rw [neighbors_eq, if_neg (by rw [← Bool.not_eq_true] at hp; exact hp)]
  · rw [firstCost_eq_some_iff (nodup_neighbors height width rows p), edgeCost_eq_some_iff_mem hh hw]

end Grid

namespace Graph

theorem nodup_neighbors (g : Graph) (p : Position) : ((g.environment.neighbors p).map Prod.fst).Nodup := by
  show (((g.adjacency.get? p).elim [] OrderedMap.toList).map Prod.fst).Nodup
  cases g.adjacency.get? p with
  | none => exact List.nodup_nil
  | some neighbors => exact neighbors.nodup_keys

theorem Sound.orderly {g : Graph} (h : g.Sound) : g.environment.Orderly where
  symmetric {p q c} := by rw [mem_neighbors_iff, mem_neighbors_iff, h.symmetric]
  inside hm := h.closed (mem_neighbors_iff.mp hm)
  nodup := g.nodup_neighbors
  apart {p q c} hm heq := by
    rw [mem_neighbors_iff, heq, h.loopless] at hm
    cases hm
  positive hm := h.positive (mem_neighbors_iff.mp hm)
  outside {p} hp := by
    show (g.adjacency.get? p).elim [] OrderedMap.toList = []
    rw [Option.isSome_eq_false_iff.mp hp |> Option.isNone_iff_eq_none.mp]
    rfl
  edgeCost p q := Option.ext fun c => by
    rw [firstCost_eq_some_iff (g.nodup_neighbors p), mem_neighbors_iff]
    rfl
  coherent := mem_neighbors_iff.symm

end Graph

/-- Every grid that can be built, with sizes that leave room for a sign, and every graph that can be built are
    orderly. -/
theorem orderly_of_built : (∀ g : Grid, g.Built → g.height < 2 ^ 63 → g.width < 2 ^ 63 → g.environment.Orderly) ∧
    ∀ g : Graph, g.Built → g.environment.Orderly := by
  refine ⟨fun g hg hh hw => ?_, fun g hg => hg.sound.orderly⟩
  obtain ⟨height, width, rows, rfl, -, -⟩ := hg.eq_ofRows
  exact Grid.orderly_ofRows hh hw

/-- Eight tiles around a blocked one. -/
def courtyard : Grid := .ofObstacles 3 3 [⟨1, 1⟩]

/-- One edge, entered twice with different weights, and a vertex without edges. -/
def footbridge : Graph :=
  ((Graph.empty.addVertex ⟨5, 5⟩).addEdges [⟨⟨0, 0⟩, ⟨0, 4⟩, 3⟩, ⟨⟨0, 4⟩, ⟨0, 0⟩, 7⟩]).toOption.getD .empty

theorem built_courtyard : courtyard.Built :=
  .placed (show Grid.ofObstacles? 3 3 [⟨1, 1⟩] = some courtyard from rfl)

theorem built_footbridge : footbridge.Built :=
  .addEdges (.vertex ⟨5, 5⟩ .empty)
    (show (Graph.empty.addVertex ⟨5, 5⟩).addEdges [⟨⟨0, 0⟩, ⟨0, 4⟩, 3⟩, ⟨⟨0, 4⟩, ⟨0, 0⟩, 7⟩] = .ok footbridge from rfl)

/-- A tile at the border and next to the blocked one leads to two others; the edge has its last weight. -/
theorem orderly_courtyard : courtyard.height < 2 ^ 63 ∧ courtyard.width < 2 ^ 63 ∧
    courtyard.environment.Orderly ∧ footbridge.environment.Orderly ∧
    courtyard.environment.neighbors ⟨0, 1⟩ = [(⟨0, 0⟩, 1), (⟨0, 2⟩, 1)] ∧
    footbridge.environment.neighbors ⟨0, 0⟩ = [(⟨0, 4⟩, 7)] := by
  have hh : courtyard.height < 2 ^ 63 := by decide
  have hw : courtyard.width < 2 ^ 63 := by decide
  obtain ⟨hgrids, hgraphs⟩ := orderly_of_built
  exact ⟨hh, hw, hgrids courtyard built_courtyard hh hw, hgraphs footbridge built_footbridge, by decide, by decide⟩

end Mapf
