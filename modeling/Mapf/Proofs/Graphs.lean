import Mapf.Graph.Sample
import Mapf.Proofs.Lawful
import Mapf.Proofs.OrderedMaps
import Mathlib.Data.Finset.Dedup

/-! # Graphs as environments

In every graph that can be built an edge has the same positive weight in both directions, and it leads from a
vertex to another (`Graph.Sound`). So its moves are symmetric, each costs at least 1, and they stay between
finitely many positions. -/

namespace Mapf.Graph

/-- The graphs that can be built: from nothing by adding vertices and edges, and by drawing edges at random. -/
inductive Built : Graph → Prop
  | empty : Built .empty
  | vertex {g : Graph} (v : Position) : Built g → Built (g.addVertex v)
  | edge {g g' : Graph} {u v : Position} {weight : Nat} : Built g → g.addEdge u v weight = .ok g' → Built g'
  | sample {ρ : Type} {draws : Random.Draws ρ} {g g' : Graph} {amount : Nat} {source source' : ρ} : Built g →
      g.sampleEdges draws amount source = some (.ok g', source') → Built g'

/-- Every edge has one positive weight for both directions, and leads to a vertex that is not its own start. -/
structure Sound (g : Graph) : Prop where
  symmetric : ∀ {u v : Position}, g.weight? u v = g.weight? v u
  positive : ∀ {u v : Position} {weight : Nat}, g.weight? u v = some weight → 1 ≤ weight
  closed : ∀ {u v : Position} {weight : Nat}, g.weight? u v = some weight → g.adjacency.contains v = true
  loopless : ∀ {u : Position}, g.weight? u u = none

variable {g g' : Graph} {u v a b : Position} {weight : Nat}

theorem sound_empty : Sound .empty := ⟨rfl, nofun, nofun, rfl⟩

/-! ### Adding a vertex or an edge -/

theorem weight?_addVertex (g : Graph) (x a b : Position) : (g.addVertex x).weight? a b = g.weight? a b := by
  simp only [weight?, Graph.addVertex, OrderedMap.get?_alter]
  split
  case isTrue ha =>
    subst ha
    cases g.adjacency.get? a <;> simp
  case isFalse => rfl

theorem contains_addVertex (g : Graph) (x a : Position) :
    (g.addVertex x).adjacency.contains a = true ↔ a = x ∨ g.adjacency.contains a = true := by
  simp only [OrderedMap.contains, Graph.addVertex, OrderedMap.get?_alter]
  split <;> simp_all

theorem weight?_link (adjacency : OrderedMap Position (OrderedMap Position Nat)) :
    (⟨link adjacency u v weight⟩ : Graph).weight? a b =
      if a = u ∧ b = v then some weight else (⟨adjacency⟩ : Graph).weight? a b := by
  simp only [weight?, link, OrderedMap.get?_alter]
  by_cases ha : a = u
  · subst ha
    simp only [↓reduceIte, Option.bind_some, OrderedMap.get?_insert, true_and]
    split
    · rfl
    · cases adjacency.get? a <;> rfl
  · simp [ha]

theorem contains_link (adjacency : OrderedMap Position (OrderedMap Position Nat)) :
    (link adjacency u v weight).contains a = true ↔ a = u ∨ adjacency.contains a = true := by
  simp only [OrderedMap.contains, link, OrderedMap.get?_alter]
  split <;> simp_all

theorem addEdge_eq_ok_iff : g.addEdge u v weight = .ok g' ↔
    u ≠ v ∧ weight ≠ 0 ∧ g' = ⟨link (link g.adjacency u v weight) v u weight⟩ := by
  rw [Graph.addEdge]
  split
  case isTrue huv => simp [huv]
  case isFalse huv =>
    split
    case isTrue hzero => simp [hzero]
    case isFalse hpos => simp [huv, hpos, eq_comm]

/-- An added edge has its weight in both directions, and all others keep theirs. -/
theorem weight?_addEdge (he : g.addEdge u v weight = .ok g') (a b : Position) :
    g'.weight? a b = if a = v ∧ b = u ∨ a = u ∧ b = v then some weight else g.weight? a b := by
  obtain ⟨-, -, rfl⟩ := addEdge_eq_ok_iff.mp he
  rw [weight?_link, weight?_link]
  by_cases h₁ : a = v ∧ b = u <;> by_cases h₂ : a = u ∧ b = v <;> simp [h₁, h₂]

theorem contains_addEdge (he : g.addEdge u v weight = .ok g') (a : Position) :
    g'.adjacency.contains a = true ↔ a = v ∨ a = u ∨ g.adjacency.contains a = true := by
  obtain ⟨-, -, rfl⟩ := addEdge_eq_ok_iff.mp he
  rw [contains_link, contains_link]

theorem Sound.addVertex (h : g.Sound) (x : Position) : (g.addVertex x).Sound where
  symmetric {a b} := by rw [weight?_addVertex, weight?_addVertex, h.symmetric]
  positive {a b w} hw := h.positive ((weight?_addVertex g x a b).symm.trans hw)
  closed {a b w} hw := (contains_addVertex g x b).mpr (.inr (h.closed ((weight?_addVertex g x a b).symm.trans hw)))
  loopless {a} := (weight?_addVertex g x a a).trans h.loopless

theorem Sound.addEdge (h : g.Sound) (he : g.addEdge u v weight = .ok g') : g'.Sound := by
  obtain ⟨hne, hpos, -⟩ := addEdge_eq_ok_iff.mp he
  refine ⟨fun {a b} => ?_, fun {a b w} hw => ?_, fun {a b w} hw => ?_, fun {a} => ?_⟩
  · rw [weight?_addEdge he, weight?_addEdge he, h.symmetric]
    refine if_congr ?_ rfl rfl
    constructor <;> rintro (⟨rfl, rfl⟩ | ⟨rfl, rfl⟩) <;> simp
  · rw [weight?_addEdge he] at hw
    split at hw
    · cases hw
      omega
    · exact h.positive hw
  · rw [contains_addEdge he]
    rw [weight?_addEdge he] at hw
    split at hw
    case isTrue hab =>
      rcases hab with ⟨-, rfl⟩ | ⟨-, rfl⟩
      · exact .inr (.inl rfl)
      · exact .inl rfl
    case isFalse => exact .inr (.inr (h.closed hw))
  · rw [weight?_addEdge he, if_neg, h.loopless]
    rintro (⟨rfl, rfl⟩ | ⟨rfl, rfl⟩) <;> exact hne rfl

/-- What every added edge keeps holds after a list of edges. -/
theorem addEdges_induction {P : Graph → Prop}
    (keep : ∀ {g g' : Graph} {u v : Position} {weight : Nat}, P g → g.addEdge u v weight = .ok g' → P g')
    {edges : List Edge} (h : P g) (he : g.addEdges edges = .ok g') : P g' := by
  induction edges generalizing g with
  | nil =>
    cases he
    exact h
  | cons e rest ih =>
    unfold Graph.addEdges at he
    rw [List.foldlM_cons] at he
    cases hadd : g.addEdge e.u e.v e.weight with
    | error err =>
      rw [hadd] at he
      cases he
    | ok g₁ =>
      rw [hadd] at he
      exact ih (keep h hadd) he

theorem Built.addEdges {edges : List Edge} (h : Built g) (he : g.addEdges edges = .ok g') : Built g' :=
  addEdges_induction .edge h he

theorem Built.sound (h : Built g) : g.Sound := by
  induction h with
  | empty => exact sound_empty
  | vertex v _ ih => exact ih.addVertex v
  | edge _ he ih => exact ih.addEdge he
  | sample _ hs _ =>
    have hvertices : ∀ (l : List Position) {g : Graph}, g.Sound → (l.foldl Graph.addVertex g).Sound := by
      intro l
      induction l with
      | nil => exact id
      | cons v rest ih => exact fun h => ih (h.addVertex v)
    unfold sampleEdges at hs
    dsimp only at hs
    split at hs
    · cases hs
    · obtain ⟨⟨chosen, rest⟩, -, hs⟩ := Option.bind_eq_some_iff.mp hs
      exact addEdges_induction .addEdge (hvertices _ sound_empty) (Prod.mk.inj (Option.some.inj hs)).1

theorem mem_neighbors_iff : (v, weight) ∈ g.environment.neighbors u ↔ g.weight? u v = some weight := by
  show (v, weight) ∈ (g.adjacency.get? u).elim [] OrderedMap.toList ↔ _
  rw [weight?]
  cases g.adjacency.get? u with
  | none => simp
  | some neighbors => exact OrderedMap.get?_eq_some_iff.symm

/-- The vertices of a graph as a set. -/
def cells (g : Graph) : Finset Position := g.vertices.toFinset

theorem mem_cells (h : g.adjacency.contains v = true) : v ∈ g.cells := by
  obtain ⟨neighbors, hn⟩ := Option.isSome_iff_exists.mp h
  exact List.mem_toFinset.mpr (List.mem_map.mpr ⟨_, OrderedMap.get?_eq_some_iff.mp hn, rfl⟩)

theorem Built.within (h : Built g) : g.environment.Within g.cells :=
  ⟨mem_cells, fun hm => mem_cells (h.sound.closed (mem_neighbors_iff.mp hm))⟩

theorem Built.lawful (h : Built g) : g.environment.Lawful where
  finite := ⟨g.cells, h.within⟩
  symmetric hm := by
    rw [mem_neighbors_iff] at hm ⊢
    rw [h.sound.symmetric, hm]
  coherent {p q} := by
    show (g.weight? p q).isSome = true ↔ _
    simp only [Option.isSome_iff_exists, mem_neighbors_iff]

theorem Built.cost_pos (h : Built g) (hm : (v, weight) ∈ g.environment.neighbors u) : 1 ≤ weight :=
  h.sound.positive (mem_neighbors_iff.mp hm)

end Mapf.Graph
