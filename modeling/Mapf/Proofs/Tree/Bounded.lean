import Mapf.Proofs.Tree.Rounds
import Mathlib.Algebra.Group.Action.Defs
import Mathlib.Algebra.Order.BigOperators.Group.List
import Mathlib.Algebra.Order.Ring.Nat
import Mathlib.Data.Finset.Prod

/-! # How deep the tree search goes

Where no move is free, a path has at most one cell more than it costs, so the conflicts of a node happen
before a time that its cost bounds. If all constraints come from nodes of at most a given cost, they forbid
things of a finite set (`Forbiddable`), no two constraints of an agent forbid the same, and therefore the
tree is not deeper than that set is large for all agents together (`Fits.depth_le`). -/

namespace Mapf

/-- What constraints before a time can forbid between the positions of `cells`. -/
def Forbiddable (cells : Finset Position) (limit : Nat) : Finset (Cell ⊕ TimedEdge) :=
  ((cells ×ˢ Finset.range limit).image fun x => .inl (x.1.atTime x.2)) ∪
    ((Finset.range limit ×ˢ cells ×ˢ cells).image fun x => .inr (.between x.1 x.2.1 x.2.2))

section Forbiddable

variable {cells : Finset Position} {limit : Nat}

theorem inl_mem_forbiddable {p : Position} {t : Nat} (hp : p ∈ cells) (ht : t < limit) :
    .inl (p.atTime t) ∈ Forbiddable cells limit := by
  refine Finset.mem_union_left _ (Finset.mem_image.mpr ⟨(p, t), ?_, rfl⟩)
  exact Finset.mem_product.mpr ⟨hp, Finset.mem_range.mpr ht⟩

theorem inr_mem_forbiddable {p q : Position} {t : Nat} (hp : p ∈ cells) (hq : q ∈ cells) (ht : t < limit) :
    .inr (.between t p q) ∈ Forbiddable cells limit := by
  refine Finset.mem_union_right _ (Finset.mem_image.mpr ⟨(t, p, q), ?_, rfl⟩)
  exact Finset.mem_product.mpr ⟨Finset.mem_range.mpr ht, Finset.mem_product.mpr ⟨hp, hq⟩⟩

theorem time_lt_of_forbiddable {x : Cell ⊕ TimedEdge} (hx : x ∈ Forbiddable cells limit) :
    x.elim Cell.time TimedEdge.timeStep < limit := by
  rcases Finset.mem_union.mp hx with hx | hx <;> obtain ⟨y, hy, rfl⟩ := Finset.mem_image.mp hx
  · exact Finset.mem_range.mp (Finset.mem_product.mp hy).2
  · rw [Sum.elim_inr, TimedEdge.timeStep_between]
    exact Finset.mem_range.mp (Finset.mem_product.mp hy).1

end Forbiddable

theorem CostType.le_combine (costType : CostType) {costs : List Nat} {c : Nat} (h : c ∈ costs) :
    c ≤ costType.combine costs := by
  cases costType with
  | sumOfCosts =>
    rw [CostType.combine, ← List.sum_eq_foldl]
    exact List.single_le_sum (fun _ _ => Nat.zero_le _) c h
  | makespan => exact (foldl_max_le_iff.mp (Nat.le_refl _)).2 c h

namespace Solver

/-- All that the constraints of a node forbid belongs to a finite set. -/
def Bounded (cells : Finset Position) (limit : Nat) (node : TreeNode) : Prop :=
  ∀ set ∈ node.constraints, ∀ x ∈ set.forbidden, x ∈ Forbiddable cells limit

variable {s : Solver} {node : TreeNode} {cells : Finset Position} {limit : Nat}

/-- Per agent there are no more constraints than things to forbid. -/
theorem Fits.depth_le (h : s.Fits node) (hb : Bounded cells limit node) :
    node.depth ≤ s.agents.length * (Forbiddable cells limit).card := by
  rw [h.depth, ← h.constraints_length, ← List.length_map ConstraintSet.size, ← smul_eq_mul]
  refine List.sum_le_card_nsmul _ _ fun size hsize => ?_
  obtain ⟨set, hset, rfl⟩ := List.mem_map.mp hsize
  obtain ⟨i, hi, rfl⟩ := List.mem_iff_getElem.mp hset
  obtain ⟨_, _, u, _, hh⟩ := h.holds (h.constraints_length ▸ hi)
  have hindexed : node.constraints[i].Indexed := (List.getElem?_eq_some_iff.mp hh.set_eq).2 ▸ hh.indexed
  have hlen : node.constraints[i].forbidden.length = node.constraints[i].size := List.length_map _
  rw [← hlen, ← List.toFinset_card_of_nodup hindexed.distinct]
  exact Finset.card_le_card fun x hx => hb _ hset x (List.mem_toFinset.mp hx)

/-- A side of a conflict of a node forbids something that happens no later than the node costs. -/
theorem Fits.forbids_mem (h : s.Fits node) (hw : s.env.Within cells)
    (hpos : ∀ {p q : Position} {c : Nat}, (q, c) ∈ s.env.neighbors p → 1 ≤ c) (hcost : node.cost < limit)
    {c : Conflict} (hc : c ∈ node.conflicts) {k : Constraint} (hk : k = c.constraints.1 ∨ k = c.constraints.2) :
    k.forbids ∈ Forbiddable cells limit := by
  rw [h.conflicts] at hc
  obtain ⟨-, htime, a, b, ha, -, hkind⟩ := Conflict.mem_detect.mp hc
  have hlimit : c.timeStep < limit := by
    refine Nat.lt_of_lt_of_le htime (Conflict.longest_le_iff.mpr fun path hpath => ?_)
    obtain ⟨i, hi, rfl⟩ := List.mem_iff_getElem.mp hpath
    obtain ⟨_, _, _, plan, hh⟩ := h.holds (h.paths_length ▸ hi)
    obtain ⟨ps, hserves⟩ := hh.best.serves
    rw [(List.getElem?_eq_some_iff.mp hh.path_eq).2, hserves.path, Path.length_ofPositions]
    have h₁ := hserves.travels.route.length_le hpos
    have h₂ := s.costType.le_combine (List.mem_of_getElem? hh.cost_eq)
    rw [← h.cost] at h₂
    omega
  -- The first agent stands on or moves between positions inside.
  obtain ⟨_, _, _, plan, hh⟩ := h.holds (h.paths_length ▸ (List.getElem?_eq_some_iff.mp ha).1)
  obtain rfl := Option.some.inj (ha.symm.trans hh.path_eq)
  obtain ⟨ps, hserves⟩ := hh.best.serves
  have hin : ∀ {t p}, plan.path.positionAt t = some p → p ∈ cells := fun {t p} hp => by
    rw [hserves.path, Path.positionAt_ofPositions] at hp
    refine hw.contains (hserves.inside p ?_)
    rcases Option.or_eq_some_iff.mp hp with hp | ⟨-, hp⟩
    · exact List.mem_of_getElem? hp
    · exact List.mem_of_getLast? hp
  rcases Conflict.kindAt_eq_some_iff.mp hkind with ⟨p, hkind, hp, -⟩ | ⟨p, q, hkind, -, hm, -⟩
  · rcases hk with rfl | rfl <;> simp only [Conflict.constraints, hkind, Constraint.forbids] <;>
      exact inl_mem_forbiddable (hin hp) hlimit
  · obtain ⟨u, -, -, hp, hq⟩ := Path.moveAt_eq_some_iff.mp hm
    rcases hk with rfl | rfl <;> simp only [Conflict.constraints, hkind, Constraint.forbids]
    · exact inr_mem_forbiddable (hin hp) (hin hq) hlimit
    · exact inr_mem_forbiddable (hin hq) (hin hp) hlimit

/-- One more constraint forbids one more thing. -/
theorem Bounded.insert (hb : Bounded cells limit node) {set : ConstraintSet} (hset : set ∈ node.constraints)
    (hi : set.Indexed) {k : Constraint} (hk : k.forbids ∈ Forbiddable cells limit) :
    ∀ x ∈ (set.insert k).forbidden, x ∈ Forbiddable cells limit := by
  intro x hx
  rcases hi.mem_forbidden_insert.mp hx with hx | rfl
  · exact hb set hset x hx
  · exact hk

theorem Grown.bounded {k : Constraint} {child : TreeNode} (hg : s.Grown node k (some child))
    (hb : Bounded cells limit node)
    (hset : ∀ {set : ConstraintSet}, node.constraints[k.agent]? = some set → set.Indexed)
    (hk : k.forbids ∈ Forbiddable cells limit) : Bounded cells limit child ∧ child.depth = node.depth + 1 := by
  cases hg with
  | child _ _ hs _ =>
    refine ⟨fun u hu => ?_, rfl⟩
    rcases List.mem_or_eq_of_mem_set hu with hu | rfl
    · exact hb u hu
    · exact hb.insert (List.mem_of_getElem? hs) (hset hs) hk

end Solver

end Mapf
