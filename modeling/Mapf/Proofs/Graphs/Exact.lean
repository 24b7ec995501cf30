import Mapf.Proofs.Graphs
import Mathlib

/-! # What a graph tells of its making

A graph is made by additions, some of which fail and change nothing. Afterwards an edge has in both directions the
weight that was given to it last, its ends are vertices, and it is listed once, from its lower end (`Graph.Records`).
An edge is stored in two places, so the listing is half of what is stored, and this is how the edges are counted.

A graph is determined by its vertices and the weights of its edges (`Graph.ext_weight?`). So the vertices and some of
the listed edges make a graph with just these edges, and the vertices and all of them make the same graph again, in
whatever order they are added (`exists_part`, `rebuild`). -/

namespace Mapf

namespace Position

theorem lt_asymm {p q : Position} (h : p < q) : ¬q < p := by
  rw [lt_iff] at *
  omega

theorem lt_or_eq_or_lt (p q : Position) : p < q ∨ p = q ∨ q < p := by
  obtain ⟨x, y⟩ := p
  obtain ⟨x', y'⟩ := q
  simp only [lt_iff, Position.mk.injEq]
  omega

end Position

namespace Edge

def reversed (e : Edge) : Edge := ⟨e.v, e.u, e.weight⟩

/-- Edges are listed by their first ends and then by their second ends. -/
def Before (e f : Edge) : Prop := e.u < f.u ∨ e.u = f.u ∧ e.v < f.v

theorem Before.asymm {e f : Edge} (h : e.Before f) : ¬f.Before e := by
  rintro (hlt | ⟨heq, hlt⟩)
  · rcases h with h | ⟨h, -⟩
    · exact Position.lt_asymm h hlt
    · rw [h] at hlt
      exact Position.lt_asymm hlt hlt
  · rcases h with h | ⟨-, h⟩
    · rw [heq] at h
      exact Position.lt_asymm h h
    · exact Position.lt_asymm h hlt

def addition (e : Edge) : Graph.Addition := .edge e.u e.v e.weight

end Edge

namespace Graph

variable {g g' : Graph} {p q u v : Position} {weight : Nat} {additions : List Addition} {edges : List Edge}

namespace Addition

/-- An edge can be added if its ends differ and it has a positive weight, and a vertex always. -/
def Proper : Addition → Prop
  | .vertex _ => True
  | .edge u v weight => u ≠ v ∧ 0 < weight

instance : DecidablePred Proper
  | .vertex _ => inferInstanceAs (Decidable True)
  | .edge u v weight => inferInstanceAs (Decidable (u ≠ v ∧ 0 < weight))

/-- A position is the vertex that is added, or an end of the edge. -/
def Names (p : Position) : Addition → Prop
  | .vertex v => p = v
  | .edge u v _ => p = u ∨ p = v

instance (p : Position) : DecidablePred (Names p)
  | .vertex v => inferInstanceAs (Decidable (p = v))
  | .edge u v _ => inferInstanceAs (Decidable (p = u ∨ p = v))

/-- The weight that an addition gives to the edge between two positions, in whichever direction. -/
def weight? (p q : Position) : Addition → Option Nat
  | .vertex _ => none
  | .edge u v weight => if p = u ∧ q = v ∨ p = v ∧ q = u then some weight else none

end Addition

/-- The last weight that additions give to the edge between two positions; those that fail do not count. -/
def lastWeight (p q : Position) (additions : List Addition) : Option Nat :=
  ((additions.filter (·.Proper)).filterMap (·.weight? p q)).getLast?

/-- What a graph tells of the additions by which it was made. -/
structure Records (g : Graph) (additions : List Addition) : Prop where
  weight : ∀ p q, g.weight? p q = lastWeight p q additions ∧ g.weight? q p = lastWeight p q additions
  vertex : ∀ p, p ∈ g.vertices ↔ ∃ a ∈ additions, a.Proper ∧ a.Names p
  closed : ∀ {p q : Position} {weight : Nat}, g.weight? p q = some weight → p ∈ g.vertices ∧ q ∈ g.vertices
  listed : ∀ {u v : Position} {weight : Nat}, ⟨u, v, weight⟩ ∈ g.edges ↔ u < v ∧ g.weight? u v = some weight
  ascending : g.edges.Pairwise Edge.Before
  counted : g.edges.length = g.edgeCount
  rebuilt : ∀ {edges : List Edge}, edges.Perm g.edges → build g.vertices edges = .ok g

/-! ### Additions -/

/-- What adding an edge does: a proper one is put in, and any other one fails and leaves the graph as it was. -/
theorem add_edge_cases (g : Graph) (u v : Position) (weight : Nat) :
    ((Addition.edge u v weight).Proper ∧
        ∃ g', g.addEdge u v weight = .ok g' ∧ g.add (.edge u v weight) = (none, g')) ∨
      ¬(Addition.edge u v weight).Proper ∧ ∃ e, g.add (.edge u v weight) = (some e, g) := by
  cases he : g.addEdge u v weight with
  | ok g' =>
    obtain ⟨hne, hpos, -⟩ := addEdge_eq_ok_iff.mp he
    exact .inl ⟨⟨hne, Nat.pos_of_ne_zero hpos⟩, g', rfl, by simp only [add, he]⟩
  | error e =>
    refine .inr ⟨fun ⟨hne, hpos⟩ => ?_, e, by simp only [add, he]⟩
    rw [addEdge_eq_ok_iff.mpr ⟨hne, Nat.ne_of_gt hpos, rfl⟩] at he
    cases he

theorem add_of_not_proper {a : Addition} (h : ¬a.Proper) (g : Graph) : ∃ e, g.add a = (some e, g) := by
  cases a with
  | vertex => exact absurd trivial h
  | edge u v weight =>
    rcases g.add_edge_cases u v weight with ⟨hproper, -⟩ | ⟨-, hfailed⟩
    · exact absurd hproper h
    · exact hfailed

theorem add_of_proper {a : Addition} (h : a.Proper) (g : Graph) : (g.add a).1 = none := by
  cases a with
  | vertex => rfl
  | edge u v weight =>
    rcases g.add_edge_cases u v weight with ⟨-, g', -, hadd⟩ | ⟨hnot, -⟩
    · rw [hadd]
    · exact absurd h hnot

theorem weight?_add (g : Graph) (a : Addition) (p q : Position) :
    (g.add a).2.weight? p q = if a.Proper then (a.weight? p q).or (g.weight? p q) else g.weight? p q := by
  cases a with
  | vertex v =>
    rw [if_pos (show (Addition.vertex v).Proper from trivial)]
    exact weight?_addVertex g v p q
  | edge u v weight =>
    rcases g.add_edge_cases u v weight with ⟨hproper, g', he, hadd⟩ | ⟨hnot, e, hadd⟩
    · rw [if_pos hproper, hadd, weight?_addEdge he, Addition.weight?]
      by_cases hpq : p = v ∧ q = u ∨ p = u ∧ q = v
      · rw [if_pos hpq, if_pos hpq.symm, Option.some_or]
      · rw [if_neg hpq, if_neg (mt Or.symm hpq), Option.none_or]
    · rw [if_neg hnot, hadd]

theorem contains_add (g : Graph) (a : Addition) (p : Position) :
    (g.add a).2.adjacency.contains p = true ↔ a.Proper ∧ a.Names p ∨ g.adjacency.contains p = true := by
  cases a with
  | vertex v =>
    show (g.addVertex v).adjacency.contains p = true ↔ _
    simp [contains_addVertex, Addition.Proper, Addition.Names]
  | edge u v weight =>
    rcases g.add_edge_cases u v weight with ⟨hproper, g', he, hadd⟩ | ⟨hnot, e, hadd⟩
    · rw [hadd, contains_addEdge he]
      simp only [hproper, Addition.Names, true_and]
      rw [or_left_comm, or_assoc]
    · simp only [hadd, hnot, false_and, false_or]

theorem Built.add (h : g.Built) (a : Addition) : (g.add a).2.Built := by
  cases a with
  | vertex v => exact .vertex v h
  | edge u v weight =>
    rcases g.add_edge_cases u v weight with ⟨-, g', he, hadd⟩ | ⟨-, e, hadd⟩
    · rw [hadd]
      exact .edge h he
    · rwa [hadd]

theorem addAll_snoc (g : Graph) (additions : List Addition) (a : Addition) :
    g.addAll (additions ++ [a]) = ((g.addAll additions).add a).2 := by
  rw [addAll, List.foldl_append]
  rfl

theorem lastWeight_snoc (p q : Position) (additions : List Addition) (a : Addition) :
    lastWeight p q (additions ++ [a]) =
      if a.Proper then (a.weight? p q).or (lastWeight p q additions) else lastWeight p q additions := by
  rw [lastWeight, lastWeight, List.filter_append, List.filterMap_append, List.getLast?_append]
  by_cases h : a.Proper
  · cases hw : a.weight? p q <;> simp [h, hw]
  · simp [h]

/-- After additions to nothing an edge has the last weight that it was given. -/
theorem weight?_addAll (additions : List Addition) (p q : Position) :
    (addAll .empty additions).weight? p q = lastWeight p q additions := by
  -- From the end, for it is the last addition that counts, and if it is not about the edge, what was before it.
  induction additions using List.reverseRecOn with
  | nil => rfl
  | append_singleton additions a ih => rw [addAll_snoc, weight?_add, lastWeight_snoc, ih]

theorem contains_addAll (additions : List Addition) (p : Position) :
    (addAll .empty additions).adjacency.contains p = true ↔ ∃ a ∈ additions, a.Proper ∧ a.Names p := by
  induction additions using List.reverseRecOn with
  | nil => simp [addAll, Graph.empty, OrderedMap.contains]
  | append_singleton additions a ih =>
    rw [addAll_snoc, contains_add, ih]
    simp only [List.mem_append, List.mem_singleton, or_and_right, exists_or, exists_eq_left]
    exact or_comm

theorem built_addAll (additions : List Addition) : (addAll .empty additions).Built := by
  induction additions using List.reverseRecOn with
  | nil => exact .empty
  | append_singleton additions a ih =>
    rw [addAll_snoc]
    exact ih.add a

theorem mem_vertices_iff : p ∈ g.vertices ↔ g.adjacency.contains p = true := OrderedMap.mem_keys_iff

/-! ### The listed edges -/

/-- What is stored: every edge in both directions. -/
def links (g : Graph) : List Edge :=
  g.adjacency.toList.flatMap fun (u, neighbors) => neighbors.toList.map fun (v, weight) => ⟨u, v, weight⟩

theorem edges_eq_filter (g : Graph) : g.edges = g.links.filter fun e => e.u < e.v := by
  rw [edges, links, List.filter_flatMap]
  refine congrArg (g.adjacency.toList.flatMap ·) (funext fun entry => ?_)
  rw [List.filter_map]
  rfl

theorem mem_links_iff : ⟨u, v, weight⟩ ∈ g.links ↔ g.weight? u v = some weight := by
  rw [links, List.mem_flatMap, Graph.weight?, Option.bind_eq_some_iff]
  constructor
  · rintro ⟨⟨u', neighbors⟩, hn, hm⟩
    obtain ⟨⟨v', w'⟩, hw, he⟩ := List.mem_map.mp hm
    cases he
    exact ⟨neighbors, OrderedMap.get?_eq_some_iff.mpr hn, OrderedMap.get?_eq_some_iff.mpr hw⟩
  · rintro ⟨neighbors, hn, hw⟩
    exact ⟨(u, neighbors), OrderedMap.get?_eq_some_iff.mp hn,
      List.mem_map.mpr ⟨(v, weight), OrderedMap.get?_eq_some_iff.mp hw, rfl⟩⟩

theorem mem_edges_iff : ⟨u, v, weight⟩ ∈ g.edges ↔ u < v ∧ g.weight? u v = some weight := by
  rw [edges_eq_filter, List.mem_filter, mem_links_iff, decide_eq_true_eq]
  exact and_comm

theorem pairwise_links (g : Graph) : g.links.Pairwise Edge.Before := by
  rw [links, List.pairwise_flatMap]
  constructor
  · rintro ⟨u, neighbors⟩ -
    rw [List.pairwise_map]
    exact neighbors.ascending.imp fun {a b} hlt => .inr ⟨rfl, Position.compare_eq_lt_iff.mp hlt⟩
  · refine g.adjacency.ascending.imp fun {a b} hlt e he f hf => .inl ?_
    obtain ⟨_, -, rfl⟩ := List.mem_map.mp he
    obtain ⟨_, -, rfl⟩ := List.mem_map.mp hf
    exact Position.compare_eq_lt_iff.mp hlt

theorem pairwise_edges (g : Graph) : g.edges.Pairwise Edge.Before := by
  rw [edges_eq_filter]
  exact g.pairwise_links.filter _

theorem nodup_of_before (h : edges.Pairwise Edge.Before) : edges.Nodup :=
  h.imp fun {_ _} hbefore heq => (heq ▸ hbefore).asymm (heq ▸ hbefore)

theorem length_links (g : Graph) : g.links.length = (g.adjacency.values.map OrderedMap.size).sum := by
  rw [links, List.length_flatMap, OrderedMap.values, List.map_map]
  refine congrArg List.sum (List.map_congr_left fun entry _ => ?_)
  rw [List.length_map]
  rfl

/-- No edge leads from a position to itself, so one of its ends is the lower one. -/
theorem Sound.lt_or_lt (h : g.Sound) (hw : g.weight? u v = some weight) : u < v ∨ v < u := by
  rcases Position.lt_or_eq_or_lt u v with hlt | rfl | hlt
  · exact .inl hlt
  · rw [h.loopless] at hw
    cases hw
  · exact .inr hlt

/-- The links that do not lead up are the listed edges in the opposite direction. -/
theorem Sound.perm_reversed (h : g.Sound) :
    (g.links.filter fun e => !decide (e.u < e.v)).Perm (g.edges.map Edge.reversed) := by
  have hreversed : (g.edges.map Edge.reversed).Nodup :=
    (nodup_of_before g.pairwise_edges).map fun e f hef => by
      cases e
      cases f
      cases hef
      rfl
  -- Neither list has an edge twice, so they need only have the same elements.
  refine (List.perm_ext_iff_of_nodup ((nodup_of_before g.pairwise_links).filter _) hreversed).mpr fun ⟨u, v, w⟩ => ?_
  have hmap : ⟨u, v, w⟩ ∈ g.edges.map Edge.reversed ↔ ⟨v, u, w⟩ ∈ g.edges := by
    rw [List.mem_map]
    exact ⟨fun ⟨e, he, heq⟩ => by cases heq; exact he, fun he => ⟨_, he, rfl⟩⟩
  rw [hmap, mem_edges_iff, List.mem_filter, mem_links_iff, h.symmetric]
  constructor
  · rintro ⟨hw, hnot⟩
    refine ⟨(h.lt_or_lt hw).resolve_right ?_, hw⟩
    simpa using hnot
  · rintro ⟨hlt, hw⟩
    exact ⟨hw, by simpa using Position.lt_asymm hlt⟩

/-- Half of what is stored is listed. -/
theorem Sound.length_edges (h : g.Sound) : g.edges.length = g.edgeCount := by
  have hhalves : g.links.length = g.edges.length + g.edges.length := calc
    g.links.length
    _ = (g.links.filter fun e => e.u < e.v).length + (g.links.filter fun e => !decide (e.u < e.v)).length :=
      List.length_eq_length_filter_add _
    _ = g.edges.length + (g.edges.map Edge.reversed).length := by rw [← edges_eq_filter, h.perm_reversed.length_eq]
    _ = g.edges.length + g.edges.length := by rw [List.length_map]
  rw [edgeCount, ← List.sum_eq_foldl_nat, ← length_links, hhalves]
  omega

/-! ### Rebuilding -/

/-- Graphs with the same vertices and weights are equal. -/
theorem ext_weight? (hv : g.vertices = g'.vertices) (hw : ∀ p q, g.weight? p q = g'.weight? p q) : g = g' := by
  have hadjacency : g.adjacency = g'.adjacency := OrderedMap.ext_get? fun p => by
    have hmem : g.adjacency.contains p = true ↔ g'.adjacency.contains p = true := by
      rw [← mem_vertices_iff, hv, mem_vertices_iff]
    have hget := hw p
    simp only [Graph.weight?] at hget
    simp only [OrderedMap.contains] at hmem
    cases hn : g.adjacency.get? p with
    | none =>
      cases hn' : g'.adjacency.get? p with
      | none => rfl
      | some => simp [hn, hn'] at hmem
    | some neighbors =>
      cases hn' : g'.adjacency.get? p with
      | none => simp [hn, hn'] at hmem
      | some neighbors' =>
        rw [hn, hn'] at hget
        exact congrArg some (OrderedMap.ext_get? hget)
  cases g
  cases g'
  exact congrArg Graph.mk hadjacency

theorem addEdges_eq (proper : ∀ e ∈ edges, e.addition.Proper) (g : Graph) :
    g.addEdges edges = .ok (g.addAll (edges.map Edge.addition)) := by
  induction edges generalizing g with
  | nil => rfl
  | cons e rest ih =>
    obtain ⟨hproper, hrest⟩ := List.forall_mem_cons.mp proper
    rcases g.add_edge_cases e.u e.v e.weight with ⟨-, g', he, hadd⟩ | ⟨hnot, -⟩
    · have hall : g.addAll ((e :: rest).map Edge.addition) = g'.addAll (rest.map Edge.addition) := by
        show addAll (g.add e.addition).2 _ = _
        rw [Edge.addition, hadd]
      rw [hall, ← ih hrest g']
      unfold addEdges
      rw [List.foldlM_cons, he]
      rfl
    · exact absurd hproper hnot

theorem Sound.proper (h : g.Sound) {e : Edge} (he : e ∈ g.edges) : e.addition.Proper := by
  obtain ⟨hlt, hw⟩ := mem_edges_iff.mp he
  exact ⟨fun heq => Position.lt_asymm (heq ▸ hlt) (heq ▸ hlt), h.positive hw⟩

theorem getLast?_eq_some_iff_mem {α : Type} {l : List α} (h : ∀ a ∈ l, ∀ b ∈ l, a = b) {a : α} :
    l.getLast? = some a ↔ a ∈ l := by
  refine ⟨List.mem_of_getLast?, fun ha => ?_⟩
  obtain ⟨b, hb⟩ := Option.isSome_iff_exists.mp (List.getLast?_isSome.mpr (List.ne_nil_of_mem ha))
  rw [hb, h b (List.mem_of_getLast? hb) a ha]

theorem weight?_addition_iff {e : Edge} :
    e.addition.weight? p q = some weight ↔ e = ⟨p, q, weight⟩ ∨ e = ⟨q, p, weight⟩ := by
  obtain ⟨u, v, w⟩ := e
  simp only [Edge.addition, Addition.weight?, Edge.mk.injEq]
  constructor
  · intro hw
    split at hw
    case isTrue hpq =>
      cases hw
      rcases hpq with ⟨rfl, rfl⟩ | ⟨rfl, rfl⟩
      · exact .inl ⟨rfl, rfl, rfl⟩
      · exact .inr ⟨rfl, rfl, rfl⟩
    case isFalse => cases hw
  · rintro (⟨rfl, rfl, rfl⟩ | ⟨rfl, rfl, rfl⟩) <;> simp

/-- If no two edges between the same positions differ in weight, then it does not matter which of them is the last. -/
theorem lastWeight_eq_some_iff (proper : ∀ e ∈ edges, e.addition.Proper) (vertices : List Position)
    (same : ∀ {w w' : Nat}, ⟨p, q, w⟩ ∈ edges ∨ ⟨q, p, w⟩ ∈ edges → ⟨p, q, w'⟩ ∈ edges ∨ ⟨q, p, w'⟩ ∈ edges → w = w') :
    lastWeight p q (vertices.map .vertex ++ edges.map Edge.addition) = some weight ↔
      ⟨p, q, weight⟩ ∈ edges ∨ ⟨q, p, weight⟩ ∈ edges := by
  have hmem : ∀ w, w ∈ ((vertices.map Addition.vertex ++ edges.map Edge.addition).filter (·.Proper)).filterMap
      (·.weight? p q) ↔ ⟨p, q, w⟩ ∈ edges ∨ ⟨q, p, w⟩ ∈ edges := fun w => by
    rw [List.mem_filterMap]
    constructor
    · rintro ⟨a, ha, hw⟩
      rcases List.mem_append.mp (List.mem_of_mem_filter ha) with ha | ha
      · obtain ⟨x, -, rfl⟩ := List.mem_map.mp ha
        cases hw
      · obtain ⟨e, he, rfl⟩ := List.mem_map.mp ha
        rcases weight?_addition_iff.mp hw with rfl | rfl
        · exact .inl he
        · exact .inr he
    · have hadded : ∀ {e}, e ∈ edges → e.addition ∈
          (vertices.map Addition.vertex ++ edges.map Edge.addition).filter (·.Proper) := fun he =>
        List.mem_filter.mpr ⟨List.mem_append_right _ (List.mem_map_of_mem he), by simp [proper _ he]⟩
      rintro (he | he)
      · exact ⟨_, hadded he, weight?_addition_iff.mpr (.inl rfl)⟩
      · exact ⟨_, hadded he, weight?_addition_iff.mpr (.inr rfl)⟩
  rw [lastWeight, getLast?_eq_some_iff_mem fun w hw w' hw' => same ((hmem w).mp hw) ((hmem w').mp hw'), hmem]

theorem build_eq (proper : ∀ e ∈ edges, e.addition.Proper) (vertices : List Position) :
    build vertices edges = .ok (addAll .empty (vertices.map .vertex ++ edges.map Edge.addition)) := by
  have hvertices : vertices.foldl Graph.addVertex .empty = addAll .empty (vertices.map .vertex) := by
    rw [addAll, List.foldl_map]
    rfl
  rw [build, hvertices, addEdges_eq proper, addAll, addAll, addAll, List.foldl_append]

theorem Sound.weight?_eq_some_iff (h : g.Sound) :
    g.weight? p q = some weight ↔ ⟨p, q, weight⟩ ∈ g.edges ∨ ⟨q, p, weight⟩ ∈ g.edges := by
  rw [mem_edges_iff, mem_edges_iff, h.symmetric (u := q)]
  constructor
  · exact fun hw => (h.lt_or_lt hw).imp (fun hlt => ⟨hlt, hw⟩) fun hlt => ⟨hlt, hw⟩
  · rintro (⟨-, hw⟩ | ⟨-, hw⟩) <;> exact hw

/-- The vertices of a graph and some of its listed edges make a graph with just these edges. -/
theorem Sound.exists_part (h : g.Sound) (hsub : ∀ e ∈ edges, e ∈ g.edges) :
    ∃ part, build g.vertices edges = .ok part ∧ part.vertices = g.vertices ∧
      ∀ p q weight, part.weight? p q = some weight ↔ ⟨p, q, weight⟩ ∈ edges ∨ ⟨q, p, weight⟩ ∈ edges := by
  have hproper : ∀ e ∈ edges, e.addition.Proper := fun e he => h.proper (hsub e he)
  have hweight : ∀ {p q w}, ⟨p, q, w⟩ ∈ edges ∨ ⟨q, p, w⟩ ∈ edges → g.weight? p q = some w :=
    fun hor => h.weight?_eq_some_iff.mpr (hor.imp (hsub _) (hsub _))
  refine ⟨_, build_eq hproper _, OrderedMap.keys_eq fun p => ?_, fun p q weight => ?_⟩
  · rw [contains_addAll, ← mem_vertices_iff]
    constructor
    · rintro ⟨a, ha, -, hnames⟩
      rcases List.mem_append.mp ha with ha | ha
      · obtain ⟨x, hx, rfl⟩ := List.mem_map.mp ha
        rwa [show p = x from hnames]
      · obtain ⟨e, he, rfl⟩ := List.mem_map.mp ha
        have hw := hweight (.inl he)
        rcases hnames with rfl | rfl
        · exact mem_vertices_iff.mpr (h.closed (h.symmetric.symm.trans hw))
        · exact mem_vertices_iff.mpr (h.closed hw)
    · exact fun hp => ⟨.vertex p, List.mem_append_left _ (List.mem_map_of_mem hp), trivial, rfl⟩
  · rw [weight?_addAll, lastWeight_eq_some_iff hproper]
    exact fun hw hw' => Option.some.inj ((hweight hw).symm.trans (hweight hw'))

/-- The vertices of a graph and its listed edges make the same graph. -/
theorem Sound.rebuild (h : g.Sound) (hperm : edges.Perm g.edges) : build g.vertices edges = .ok g := by
  obtain ⟨part, hpart, hvertices, hweights⟩ := h.exists_part fun e he => hperm.mem_iff.mp he
  rw [hpart]
  refine congrArg Except.ok (ext_weight? hvertices fun p q => Option.ext fun weight => ?_)
  rw [hweights, hperm.mem_iff, hperm.mem_iff, h.weight?_eq_some_iff]

/-- Whatever is added to a graph: what is not proper fails and changes nothing, all else succeeds, and a graph made by
    additions tells of them. -/
theorem made_by_additions : (∀ (g : Graph) (a : Addition), (¬a.Proper → ∃ e, g.add a = (some e, g)) ∧
    (a.Proper → (g.add a).1 = none)) ∧ ∀ additions, (addAll .empty additions).Records additions := by
  refine ⟨fun g a => ⟨fun h => add_of_not_proper h g, fun h => add_of_proper h g⟩, fun additions => ?_⟩
  have hsound := (built_addAll additions).sound
  refine ⟨fun p q => ⟨weight?_addAll additions p q, ?_⟩, fun p => ?_, fun hw => ⟨?_, ?_⟩, mem_edges_iff,
    pairwise_edges _, hsound.length_edges, hsound.rebuild⟩
  · rw [hsound.symmetric, weight?_addAll]
  · rw [mem_vertices_iff, contains_addAll]
  · exact mem_vertices_iff.mpr (hsound.closed (hsound.symmetric.symm.trans hw))
  · exact mem_vertices_iff.mpr (hsound.closed hw)

/-- A vertex without edges, an edge that is added twice, from either end, two that fail, and one more. -/
def causeway : List Addition :=
  [.vertex ⟨5, 5⟩, .edge ⟨0, 0⟩ ⟨0, 4⟩ 3, .edge ⟨0, 4⟩ ⟨0, 0⟩ 7, .edge ⟨1, 1⟩ ⟨1, 1⟩ 2, .edge ⟨0, 0⟩ ⟨0, 4⟩ 0,
    .edge ⟨2, 2⟩ ⟨0, 4⟩ 1]

/-- The edge has its second weight, from either end, and the two edges in the opposite order make the same graph. -/
theorem made_causeway : ¬(Addition.edge ⟨1, 1⟩ ⟨1, 1⟩ 2).Proper ∧ (Addition.edge ⟨2, 2⟩ ⟨0, 4⟩ 1).Proper ∧
    (∃ e, Graph.empty.add (.edge ⟨1, 1⟩ ⟨1, 1⟩ 2) = (some e, .empty)) ∧
    (Graph.empty.add (.edge ⟨2, 2⟩ ⟨0, 4⟩ 1)).1 = none ∧
    (addAll .empty causeway).weight? ⟨0, 4⟩ ⟨0, 0⟩ = some 7 ∧ (addAll .empty causeway).edgeCount = 2 ∧
    ⟨1, 1⟩ ∉ (addAll .empty causeway).vertices ∧
    [⟨⟨0, 4⟩, ⟨2, 2⟩, 1⟩, ⟨⟨0, 0⟩, ⟨0, 4⟩, 7⟩].Perm (addAll .empty causeway).edges ∧
    build (addAll .empty causeway).vertices [⟨⟨0, 4⟩, ⟨2, 2⟩, 1⟩, ⟨⟨0, 0⟩, ⟨0, 4⟩, 7⟩] =
      .ok (addAll .empty causeway) := by
  obtain ⟨hadd, hmade⟩ := made_by_additions
  have hloop : ¬(Addition.edge ⟨1, 1⟩ ⟨1, 1⟩ 2).Proper := by decide
  have hproper : (Addition.edge ⟨2, 2⟩ ⟨0, 4⟩ 1).Proper := by decide
  have hedges : (addAll .empty causeway).edges = [⟨⟨0, 0⟩, ⟨0, 4⟩, 7⟩, ⟨⟨0, 4⟩, ⟨2, 2⟩, 1⟩] := by decide
  have hperm : [⟨⟨0, 4⟩, ⟨2, 2⟩, 1⟩, ⟨⟨0, 0⟩, ⟨0, 4⟩, 7⟩].Perm (addAll .empty causeway).edges := by
    rw [hedges]
    exact .swap _ _ _
  refine ⟨hloop, hproper, (hadd .empty _).1 hloop, (hadd .empty _).2 hproper, ((hmade causeway).weight _ _).1.trans ?_,
    (hmade causeway).counted.symm.trans (congrArg List.length hedges), ?_, hperm, (hmade causeway).rebuilt hperm⟩
  · decide
  · rw [(hmade causeway).vertex]
    decide

end Graph

end Mapf
