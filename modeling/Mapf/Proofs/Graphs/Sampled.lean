import Mapf.Proofs.Draws
import Mapf.Proofs.Graphs.Exact
import Mathlib

/-! # Random subgraphs

Edges are sampled by their places in the listing. Any different places keep as many edges, in the order in which they
are listed, and adding these to the vertices neither fails nor merges two of them, for they are different edges of a
graph. So all that draws decide is which edges there are (`Graph.sampleEdges_exact`). -/

namespace Mapf

namespace Graph

open Mapf.Random

variable {g : Graph} {amount : Nat} {chosen : List Nat} {edges : List Edge}

/-- The vertices of a graph with as many of its edges as wanted, and the graph itself if these are all. -/
structure Variant (g : Graph) (amount : Nat) (variant : Graph) : Prop where
  vertices : variant.vertices = g.vertices
  edges : variant.edges.Sublist g.edges
  length : variant.edges.length = amount
  whole : amount = g.edgeCount → variant = g

/-- The elements of a list at some places of it. -/
def atPlaces {α : Type} (l : List α) (chosen : List Nat) : List α :=
  (l.zipIdx.filter fun (_, i) => chosen.contains i).map (·.1)

theorem atPlaces_sublist {α : Type} (l : List α) (chosen : List Nat) : (atPlaces l chosen).Sublist l := by
  have hsub : (atPlaces l chosen).Sublist (l.zipIdx.map Prod.fst) := List.filter_sublist.map Prod.fst
  rwa [List.zipIdx_map_fst] at hsub

/-- Different places of a list have as many elements. -/
theorem length_atPlaces {α : Type} {l : List α} (h : Selection l.length amount chosen) :
    (atPlaces l chosen).length = amount := by
  have hplaces : (l.zipIdx.filter fun (_, i) => chosen.contains i).map Prod.snd =
      (List.range l.length).filter (chosen.contains ·) := by
    rw [List.range_eq_range', ← List.zipIdx_map_snd 0 l, List.filter_map]
    rfl
  have hperm : ((List.range l.length).filter (chosen.contains ·)).Perm chosen := by
    refine (List.perm_ext_iff_of_nodup (List.nodup_range.filter _) h.nodup).mpr fun i => ?_
    rw [List.mem_filter, List.mem_range, List.contains_iff_mem]
    exact ⟨And.right, fun hi => ⟨h.below i hi, hi⟩⟩
  calc (atPlaces l chosen).length
    _ = ((l.zipIdx.filter fun (_, i) => chosen.contains i).map Prod.snd).length := by
      rw [atPlaces, List.length_map, List.length_map]
    _ = chosen.length := by rw [hplaces, hperm.length_eq]
    _ = amount := h.length

/-- A graph that has just some of the listed edges of another one lists them like that one. -/
theorem edges_eq_of_sublist {part : Graph} (hsub : edges.Sublist g.edges)
    (hweight : ∀ p q weight, part.weight? p q = some weight ↔ ⟨p, q, weight⟩ ∈ edges ∨ ⟨q, p, weight⟩ ∈ edges) :
    part.edges = edges := by
  refine eq_of_pairwise_of_mem Edge.Before.asymm part.pairwise_edges (g.pairwise_edges.sublist hsub) fun ⟨u, v, w⟩ => ?_
  have hup : ∀ {u v w}, ⟨u, v, w⟩ ∈ edges → u < v := fun he => (mem_edges_iff.mp (hsub.subset he)).1
  rw [mem_edges_iff, hweight]
  constructor
  · rintro ⟨hlt, he | he⟩
    · exact he
    · exact absurd (hup he) (Position.lt_asymm hlt)
  · exact fun he => ⟨hup he, .inl he⟩

/-- Whatever selects the places, the edges that are listed there make a variant. -/
theorem Sound.exists_variant (h : g.Sound) (hchosen : Selection g.edgeCount amount chosen) :
    ∃ variant, g.keepEdges chosen = .ok variant ∧ g.Variant amount variant := by
  have hsub : (atPlaces g.edges chosen).Sublist g.edges := atPlaces_sublist g.edges chosen
  have hlength : (atPlaces g.edges chosen).length = amount := length_atPlaces (h.length_edges ▸ hchosen)
  obtain ⟨part, hpart, hvertices, hweight⟩ := h.exists_part fun e he => hsub.subset he
  have hedges : part.edges = atPlaces g.edges chosen := edges_eq_of_sublist hsub hweight
  refine ⟨part, hpart, hvertices, hedges ▸ hsub, hedges ▸ hlength, fun hall => ?_⟩
  have hkept : atPlaces g.edges chosen = g.edges :=
    hsub.eq_of_length (by rw [hlength, hall, h.length_edges])
  have hrebuilt : build g.vertices (atPlaces g.edges chosen) = .ok g := h.rebuild (.of_eq hkept)
  exact Except.ok.inj (hpart.symm.trans hrebuilt)

/-- However places are drawn: sampling fails if and only if more edges are wanted than there are, and else it gives a
    variant, if the draws come to an end. The same holds of whatever else may select different places. -/
theorem sampleEdges_exact {ρ : Type} {draws : Draws ρ} (sound : draws.Sound) (h : g.Built) (amount : Nat) :
    (∀ source, if g.edgeCount < amount
      then g.sampleEdges draws amount source = some (.error (.tooFewEdges amount g.edgeCount), source)
      else (∀ result rest, g.sampleEdges draws amount source = some (result, rest) →
          ∃ variant, result = .ok variant ∧ g.Variant amount variant) ∧
        (draws.Ends → ∃ drawn, g.sampleEdges draws amount source = some drawn)) ∧
    ∀ chosen, Selection g.edgeCount amount chosen →
      ∃ variant, g.keepEdges chosen = .ok variant ∧ g.Variant amount variant := by
  refine ⟨fun source => ?_, fun chosen hchosen => h.sound.exists_variant hchosen⟩
  rw [← h.sound.length_edges]
  split
  case isTrue hmany => rw [sampleEdges, if_pos hmany]
  case isFalse hfew =>
    rw [sampleEdges, if_neg hfew]
    refine ⟨fun result rest hsample => ?_, fun ends => ?_⟩
    · obtain ⟨⟨chosen, rest'⟩, hselect, hsample⟩ := Option.bind_eq_some_iff.mp hsample
      cases hsample
      have hchosen := sound.select (Nat.le_of_not_lt hfew) hselect
      exact h.sound.exists_variant (h.sound.length_edges ▸ hchosen)
    · obtain ⟨drawn, hselect⟩ := ends.select (Nat.le_of_not_lt hfew) source
      rw [hselect]
      exact ⟨_, rfl⟩

/-- The graph has two edges: three cannot be sampled, two are all, and the place of the second one keeps that one. -/
theorem sampled_causeway : (Draws.ofWords 5).Sound ∧ (addAll .empty causeway).Built ∧
    (addAll .empty causeway).sampleEdges (.ofWords 5) 3 (.ofWords [8]) =
      some (.error (.tooFewEdges 3 2), .ofWords [8]) ∧
    (∃ rest, (addAll .empty causeway).sampleEdges (.ofWords 5) 2 (.ofWords [8]) =
      some (.ok (addAll .empty causeway), rest)) ∧
    Selection 2 1 [1] ∧ ∃ variant, (addAll .empty causeway).keepEdges [1] = .ok variant ∧ variant.edges.length = 1 := by
  have hbuilt : (addAll .empty causeway).Built := built_addAll causeway
  have hcount : (addAll .empty causeway).edgeCount = 2 := by decide
  have hselection : Selection 2 1 [1] := ⟨by decide, rfl, by decide⟩
  obtain ⟨result, rest, hsampled⟩ :
      ∃ result rest, (addAll .empty causeway).sampleEdges (.ofWords 5) 2 (.ofWords [8]) = some (result, rest) :=
    ⟨_, _, rfl⟩
  have sound := Draws.sound_ofWords 5
  obtain ⟨hall, -⟩ := (sampleEdges_exact sound hbuilt 2).1 (.ofWords [8])
  obtain ⟨variant, rfl, hvariant⟩ := hall _ _ hsampled
  obtain ⟨kept, hkept, hone⟩ := (sampleEdges_exact sound hbuilt 1).2 [1] (hcount ▸ hselection)
  refine ⟨sound, hbuilt, (sampleEdges_exact sound hbuilt 3).1 (.ofWords [8]), ⟨rest, ?_⟩, hselection, kept, hkept,
    hone.length⟩
  rw [hsampled, hvariant.whole hcount.symm]

end Graph

end Mapf
