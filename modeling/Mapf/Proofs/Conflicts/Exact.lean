import Mapf.Proofs.Conflicts

/-! # The scan for conflicts

Two agents meet when they stand on the same position, and they swap when each goes where the other was; an agent
whose path has ended stands on its last position for ever. The scan lists exactly these events below the end of the
longest path, one after the other by time and by pair of agents, and nothing that it leaves out ever happens
(`detect_exact`). Restricting either agent of a listed conflict loses no list of paths without conflicts: one of
its paths at least respects its restriction (`respected_of_detect`). -/

namespace Mapf.Conflict

open Mapf.Path

variable {paths : List Path} {i j t : Nat} {p u v : Position}

/-- The agents at the places `i` and `j` of a list both stand on `p` at `t`. -/
def Meet (paths : List Path) (i j : Nat) (p : Position) (t : Nat) : Prop :=
  ∃ a b, paths[i]? = some a ∧ paths[j]? = some b ∧ a.positionAt t = some p ∧ b.positionAt t = some p

/-- The agent at place `i` goes from `u` to `v` and the one at place `j` from `v` to `u`, both arriving at `t`. -/
def Swap (paths : List Path) (i j : Nat) (u v : Position) (t : Nat) : Prop :=
  u ≠ v ∧ ∃ before a b, t = before + 1 ∧ paths[i]? = some a ∧ paths[j]? = some b ∧
    (a.positionAt before = some u ∧ a.positionAt t = some v) ∧ b.positionAt before = some v ∧ b.positionAt t = some u

/-- Conflicts come by time, then by the first agent, then by the second one. -/
def Before (c d : Conflict) : Prop :=
  c.timeStep < d.timeStep ∨ c.timeStep = d.timeStep ∧
    (c.agent1 < d.agent1 ∨ c.agent1 = d.agent1 ∧ c.agent2 < d.agent2)

/-! ### What is listed -/

theorem lt_longest_iff : t < longest paths ↔ ∃ path ∈ paths, t < path.length := by
  rw [← not_iff_not, Nat.not_lt, longest_le_iff]
  simp

theorem meet_iff : Meet paths i j p t ↔
    ∃ a b, paths[i]? = some a ∧ paths[j]? = some b ∧ kindAt a b t = some (.vertex p t) := by
  have hkind : ∀ {a b : Path}, kindAt a b t = some (.vertex p t) ↔
      a.positionAt t = some p ∧ b.positionAt t = some p := by
    intro a b
    rw [kindAt_eq_some_iff]
    simp
  simp only [Meet, hkind]

/-- Agents that swap are still on their way: who has arrived goes nowhere. -/
theorem swap_iff : Swap paths i j u v t ↔
    ∃ a b, paths[i]? = some a ∧ paths[j]? = some b ∧ kindAt a b t = some (.edge u v t) := by
  have hkind : ∀ {a b : Path}, kindAt a b t = some (.edge u v t) ↔
      u ≠ v ∧ a.moveAt t = some (u, v) ∧ b.moveAt t = some (v, u) := by
    intro a b
    rw [kindAt_eq_some_iff]
    simp
  simp only [Swap, hkind]
  constructor
  · rintro ⟨hne, before, a, b, rfl, ha, hb, ⟨hau, hav⟩, hbv, hbu⟩
    exact ⟨a, b, ha, hb, hne, moveAt_of_ne hau hav hne, moveAt_of_ne hbv hbu hne.symm⟩
  · rintro ⟨a, b, ha, hb, hne, hma, hmb⟩
    obtain ⟨before, rfl, -, hau, hav⟩ := moveAt_eq_some_iff.mp hma
    obtain ⟨_, heq, -, hbv, hbu⟩ := moveAt_eq_some_iff.mp hmb
    obtain rfl := Nat.succ.inj heq
    exact ⟨hne, before, a, b, rfl, ha, hb, ⟨hau, hav⟩, hbv, hbu⟩

theorem vertex_mem_detect : ⟨i, j, .vertex p t⟩ ∈ detect paths ↔
    i < j ∧ (∃ path ∈ paths, t < path.length) ∧ Meet paths i j p t := by
  rw [mem_detect, ← lt_longest_iff, meet_iff]
  rfl

theorem edge_mem_detect : ⟨i, j, .edge u v t⟩ ∈ detect paths ↔
    i < j ∧ (∃ path ∈ paths, t < path.length) ∧ Swap paths i j u v t := by
  rw [mem_detect, ← lt_longest_iff, swap_iff]
  rfl

/-- Nothing is listed exactly if no two agents ever meet or swap. -/
theorem detect_eq_nil_iff_never : detect paths = [] ↔
    ¬∃ i j t, i < j ∧ ((∃ p, Meet paths i j p t) ∨ ∃ u v, Swap paths i j u v t) := by
  have hevent : ∀ {i j t : Nat}, ((∃ p, Meet paths i j p t) ∨ ∃ u v, Swap paths i j u v t) ↔
      ∃ a b, paths[i]? = some a ∧ paths[j]? = some b ∧ kindAt a b t ≠ none := by
    intro i j t
    simp only [meet_iff, swap_iff, ne_eq, Option.ne_none_iff_exists']
    constructor
    · rintro (⟨p, a, b, ha, hb, hk⟩ | ⟨u, v, a, b, ha, hb, hk⟩)
      · exact ⟨a, b, ha, hb, _, hk⟩
      · exact ⟨a, b, ha, hb, _, hk⟩
    · rintro ⟨a, b, ha, hb, kind, hk⟩
      rcases kindAt_eq_some_iff.mp hk with ⟨p, rfl, -⟩ | ⟨u, v, rfl, -⟩
      · exact .inl ⟨p, a, b, ha, hb, hk⟩
      · exact .inr ⟨u, v, a, b, ha, hb, hk⟩
  rw [detect_eq_nil_iff, List.pairwise_iff_getElem]
  simp only [hevent, apart_iff]
  constructor
  · rintro hapart ⟨i, j, t, hij, a, b, ha, hb, hk⟩
    obtain ⟨hi, rfl⟩ := List.getElem?_eq_some_iff.mp ha
    obtain ⟨hj, rfl⟩ := List.getElem?_eq_some_iff.mp hb
    exact hk (hapart i j hi hj hij t)
  · intro hnever i j hi hj hij t
    by_contra hk
    exact hnever ⟨i, j, t, hij, _, _, List.getElem?_eq_getElem hi, List.getElem?_eq_getElem hj, hk⟩

/-! ### The order of the list -/

/-- Pairs come in the order of their first elements, and then of their second ones. -/
theorem pairwise_pairs {α : Type} {R : α → α → Prop} {l : List α} (h : l.Pairwise R) :
    (pairs l).Pairwise fun x y => R x.1 y.1 ∨ x.1 = y.1 ∧ R x.2 y.2 := by
  induction h with
  | nil => exact .nil
  | @cons a rest ha hrest ih =>
    rw [pairs, List.pairwise_append, List.pairwise_map]
    refine ⟨hrest.imp fun hbc => .inr ⟨rfl, hbc⟩, ih, ?_⟩
    rintro x hx ⟨b, c⟩ hbc
    obtain ⟨_, -, rfl⟩ := List.mem_map.mp hx
    obtain ⟨k, -, -, hb, -⟩ := mem_pairs.mp hbc
    exact .inl (ha b (List.mem_of_getElem? hb))

theorem pairwise_zipIdx {α : Type} (l : List α) : l.zipIdx.Pairwise fun x y => x.2 < y.2 := by
  rw [← List.pairwise_map, List.zipIdx_map_snd]
  exact List.pairwise_lt_range'

theorem pairwise_detect (paths : List Path) : (detect paths).Pairwise Before := by
  rw [detect, List.pairwise_flatMap]
  constructor
  · intro t _
    rw [List.pairwise_filterMap]
    refine (pairwise_pairs (pairwise_zipIdx paths)).imp fun {x y} hxy c hc d hd => ?_
    obtain ⟨kind, hk, rfl⟩ := Option.map_eq_some_iff.mp hc
    obtain ⟨kind', hk', rfl⟩ := Option.map_eq_some_iff.mp hd
    refine .inr ⟨?_, ?_⟩
    · rw [timeStep_of_kindAt (c := ⟨_, _, kind⟩) hk, timeStep_of_kindAt (c := ⟨_, _, kind'⟩) hk']
    · rcases hxy with hfirst | ⟨hfirst, hsecond⟩
      · exact .inl hfirst
      · exact .inr ⟨congrArg Prod.snd hfirst, hsecond⟩
  · refine List.pairwise_lt_range.imp fun {t t'} htt' c hc d hd => .inl ?_
    obtain ⟨x, -, hx⟩ := List.mem_filterMap.mp hc
    obtain ⟨y, -, hy⟩ := List.mem_filterMap.mp hd
    obtain ⟨kind, hk, rfl⟩ := Option.map_eq_some_iff.mp hx
    obtain ⟨kind', hk', rfl⟩ := Option.map_eq_some_iff.mp hy
    rwa [timeStep_of_kindAt (c := ⟨_, _, kind⟩) hk, timeStep_of_kindAt (c := ⟨_, _, kind'⟩) hk']

/-- The scan lists exactly the meetings and swaps of two agents that happen before the longest path has ended,
    strictly in order; and if it lists none, then none ever happens. -/
theorem detect_exact (paths : List Path) :
    (∀ i j p t, ⟨i, j, .vertex p t⟩ ∈ detect paths ↔
      i < j ∧ (∃ path ∈ paths, t < path.length) ∧ Meet paths i j p t) ∧
    (∀ i j u v t, ⟨i, j, .edge u v t⟩ ∈ detect paths ↔
      i < j ∧ (∃ path ∈ paths, t < path.length) ∧ Swap paths i j u v t) ∧
    (detect paths).Pairwise Before ∧
    (detect paths = [] ↔ ¬∃ i j t, i < j ∧ ((∃ p, Meet paths i j p t) ∨ ∃ u v, Swap paths i j u v t)) :=
  ⟨fun _ _ _ _ => vertex_mem_detect, fun _ _ _ _ _ => edge_mem_detect, pairwise_detect paths, detect_eq_nil_iff_never⟩

/-! ### Resolving a conflict -/

/-- Of the two restrictions that resolve a listed conflict, any paths of the same agents that never conflict respect
    at least one. -/
theorem respected_of_detect {others : List Path} {c : Conflict} (hc : c ∈ detect paths)
    (same : others.length = paths.length) (free : detect others = []) :
    ∃ a b, others[c.constraints.1.agent]? = some a ∧ others[c.constraints.2.agent]? = some b ∧
      (¬a.Breaks c.constraints.1 ∨ ¬b.Breaks c.constraints.2) := by
  obtain ⟨hlt, -, _, _, -, hsecond, hkind⟩ := mem_detect.mp hc
  have hj : c.agent2 < others.length := same ▸ (List.getElem?_eq_some_iff.mp hsecond).1
  have hi : c.agent1 < others.length := Nat.lt_trans hlt hj
  have hapart : Apart others[c.agent1] others[c.agent2] :=
    List.pairwise_iff_getElem.mp (detect_eq_nil_iff.mp free) _ _ hi hj hlt
  obtain ⟨hproper₁, hproper₂⟩ := proper_constraints hkind
  rw [c.agent_constraints.1, c.agent_constraints.2]
  refine ⟨_, _, List.getElem?_eq_getElem hi, List.getElem?_eq_getElem hj, ?_⟩
  exact (avoids_of_apart hapart c).imp (·.not_breaks hproper₁) (·.not_breaks hproper₂)

/-- Two agents that exchange their places. -/
def exchange : List Path := [.ofPositions [⟨0, 0⟩, ⟨0, 1⟩], .ofPositions [⟨0, 1⟩, ⟨0, 0⟩]]

/-- The first of them goes the same way, and the second one steps aside in time. -/
def aside : List Path := [.ofPositions [⟨0, 0⟩, ⟨0, 1⟩], .ofPositions [⟨0, 1⟩, ⟨1, 1⟩]]

/-- The first agent uses the edge as before, so it is the second one that respects its restriction. -/
theorem respected_aside : detect exchange = [⟨0, 1, .edge ⟨0, 0⟩ ⟨0, 1⟩ 1⟩] ∧ aside.length = exchange.length ∧
    detect aside = [] ∧ (Path.ofPositions [⟨0, 0⟩, ⟨0, 1⟩]).Breaks (.edge 0 ⟨0, 0⟩ ⟨0, 1⟩ 1) ∧
    ¬(Path.ofPositions [⟨0, 1⟩, ⟨1, 1⟩]).Breaks (.edge 1 ⟨0, 1⟩ ⟨0, 0⟩ 1) := by
  have hexchange : detect exchange = [⟨0, 1, .edge ⟨0, 0⟩ ⟨0, 1⟩ 1⟩] := by decide
  have hbreaks : (Path.ofPositions [⟨0, 0⟩, ⟨0, 1⟩]).Breaks (.edge 0 ⟨0, 0⟩ ⟨0, 1⟩ 1) := ⟨0, rfl, .inl ⟨rfl, rfl⟩⟩
  have hlisted : (⟨0, 1, .edge ⟨0, 0⟩ ⟨0, 1⟩ 1⟩ : Conflict) ∈ detect exchange := by simp [hexchange]
  have hsame : aside.length = exchange.length := rfl
  have hfree : detect aside = [] := by decide
  obtain ⟨a, b, ha, hb, hrespected⟩ := respected_of_detect hlisted hsame hfree
  cases ha
  cases hb
  exact ⟨hexchange, hsame, hfree, hbreaks, hrespected.resolve_left fun h => h hbreaks⟩

end Mapf.Conflict
