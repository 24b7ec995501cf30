import Mapf.Proofs.Tree.History
import Mapf.Proofs.Tree.Optimal

/-! # Costs along a tree search

In a lawful environment one more constraint never makes a plan cheaper, so no child costs less than its parent.
Every round takes out a cheapest node and puts in nothing cheaper. The costs of the nodes that are taken out one
after the other therefore never decrease (`Solver.cost_monotone`). -/

namespace Mapf

theorem forall₂_le_set {costs : List Nat} {i a b : Nat} (h : costs[i]? = some a) (hab : a ≤ b) :
    List.Forall₂ (· ≤ ·) costs (costs.set i b) := by
  induction costs generalizing i with
  | nil => cases h
  | cons c rest ih =>
    cases i with
    | zero =>
      cases h
      exact .cons hab (List.forall₂_refl _)
    | succ i => exact .cons (Nat.le_refl c) (ih h)

/-- More constraints leave fewer routes, of which the best costs no less. -/
theorem Plan.Best.cost_le_insert {env : Environment} {agent : Agent} {table : DistanceTable} {set : ConstraintSet}
    {k : Constraint} {old new : Plan} (hi : set.Indexed) (informed : Informed env agent table)
    (hold : old.Best env agent table set) (hnew : new.Best env agent table (set.insert k)) : old.cost ≤ new.cost := by
  obtain ⟨ps, hserves⟩ := hnew.serves
  have hkeeps := (Path.keeps_insert hi).mp hserves.keeps
  rw [hserves.path] at hkeeps
  exact hold.least informed hserves.travels hkeeps.1

namespace Solver

variable {s : Solver} {rounds : Nat} {clock : Clock} {budget : Budget} {t u : Progress} {parent child : TreeNode}
  {count : Nat}

theorem Fits.cost_le_child (h : s.Fits parent) (hknow : s.Knowing) {c : Conflict} (hc : c ∈ parent.conflicts)
    {k : Constraint} (hk : k = c.constraints.1 ∨ k = c.constraints.2) (hg : s.Grown parent k (some child)) :
    parent.cost ≤ child.cost := by
  obtain ⟨agent, table, set, old, hh, -⟩ := h.fresh hc hk
  cases hg with
  | child hagent htable hset hbest =>
    cases hh.agent_eq.symm.trans hagent
    cases hh.table_eq.symm.trans htable
    cases hh.set_eq.symm.trans hset
    have hle := hh.best.cost_le_insert hh.indexed (hknow hagent htable) hbest
    rw [h.cost, ← h.costType]
    exact parent.costType.combine_mono (forall₂_le_set hh.cost_eq hle)

/-- A turn leaves no node that is cheaper than all nodes were before. -/
theorem Turn.cost_le (h : Turn s clock budget t (.next u)) (ht : s.Growing t) (hknow : s.Knowing) :
    ∀ m ∈ u.nodes, ∃ n ∈ t.nodes, n.cost ≤ m.cost := by
  intro m hm
  rcases h.mem_nodes hm with hm | ⟨parent, hmem, c, hc, k, hk, hg⟩
  · exact ⟨m, hm, Nat.le_refl _⟩
  · exact ⟨parent, hmem, (ht.fits parent hmem).cost_le_child hknow hc hk hg⟩

/-- The nodes that a search takes out in its first `count` rounds, in this order. -/
def taken (s : Solver) (rounds : Nat) (clock : Clock) (budget : Budget) (count : Nat) : List TreeNode :=
  (s.states rounds clock budget count).filterMap (Progress.taken? · clock budget)

theorem cost_le_of_families (hp : s.Prepared) (nav : s.env.Navigable)
    (h : (parent, child) ∈ s.families rounds clock budget count) : parent.cost ≤ child.cost := by
  obtain ⟨t, ht, hbirth⟩ := List.mem_flatMap.mp h
  obtain ⟨hgrowing, hknow⟩ := forall_states (I := fun _ => s.Knowing) (fun hl => hl.knowing hp nav)
    (fun _ hknow _ => hknow) t ht
  obtain ⟨hmem, c, k, hfirst, hk, hg⟩ := hgrowing.grown hbirth
  exact (hgrowing.fits parent hmem).cost_le_child hknow (List.mem_of_head? hfirst) hk hg

/-- As long as the search goes on, nothing waits that is cheaper than a node taken out before. -/
theorem pairwise_states (hp : s.Prepared) (nav : s.env.Navigable) :
    (s.states rounds clock budget count).Pairwise fun t u =>
      ∀ n, t.taken? clock budget = some n → ∀ m ∈ u.nodes, n.cost ≤ m.cost := by
  unfold states
  split
  case h_1 root hlaunch =>
    have hl := launched_of_launch hlaunch
    have hknow : s.Knowing := hl.knowing hp nav
    refine Loop.pairwise_states (I := s.Growing) (fun t u ht hround => (turn_of_round ht hround).growing)
      (fun t u ht hround n htaken m hm => ?enter) (fun t u v hu hleast hround n htaken m hm => ?stay) hl.growing
    case enter =>
      obtain ⟨n', hn', hle⟩ := (turn_of_round ht hround).cost_le ht hknow m hm
      exact Nat.le_trans ((ht.taken htaken).2 n' hn') hle
    case stay =>
      obtain ⟨n', hn', hle⟩ := (turn_of_round hu hround).cost_le hu hknow m hm
      exact Nat.le_trans (hleast n htaken n' hn') hle
  case h_2 => exact .nil

theorem pairwise_taken (hp : s.Prepared) (nav : s.env.Navigable) :
    ((s.taken rounds clock budget count).map TreeNode.cost).Pairwise (· ≤ ·) := by
  rw [taken, List.pairwise_map, List.pairwise_filterMap]
  refine (pairwise_states hp nav).imp_of_mem fun {t u} _ hu hleast n htaken m hm => hleast n htaken m ?_
  -- What is taken out has been waiting.
  obtain ⟨hgrowing, -⟩ := proper_of_states u hu
  exact (hgrowing.taken hm).1

/-- In a lawful environment no child costs less than its parent, and the costs of the nodes that are taken out never
    decrease. -/
theorem cost_monotone {env : Environment} {agents : List Agent} (lawful : env.Lawful) {solver : Solver}
    (prepared : prepare rounds env agents = some solver) (costType : CostType) (parallel : Bool) (rounds' : Nat)
    (clock : Clock) (budget : Budget) (count : Nat) :
    let s := { solver with costType := costType, parallelBranching := parallel }
    (∀ parent child, (parent, child) ∈ s.families rounds' clock budget count → parent.cost ≤ child.cost) ∧
      ((s.taken rounds' clock budget count).map TreeNode.cost).Pairwise (· ≤ ·) := by
  obtain ⟨rfl, rfl, hp⟩ := prepared_of_prepare prepared
  -- Neither the kind of cost nor the way of branching changes the environment and the tables.
  have hp' : ({ solver with costType := costType, parallelBranching := parallel } : Solver).Prepared := hp
  exact ⟨fun parent child h => cost_le_of_families hp' lawful.navigable h, pairwise_taken hp' lawful.navigable⟩

end Solver

end Mapf
