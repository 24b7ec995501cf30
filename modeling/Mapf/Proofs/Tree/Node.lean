import Mapf.Proofs.Plans
import Mapf.Tree.Solver
import Mathlib.Algebra.GroupWithZero.Nat

/-! # Nodes of the constraint tree

In every node of a tree search each agent has a best plan under its constraints, the cost is the combined
one, the conflicts are those of the paths, and there are as many constraints as the node is deep
(`Solver.Fits`). Its first conflict is one that neither agent's constraints rule out, so each child gains
one constraint (`Solver.Grown`). -/

namespace Mapf

theorem sum_map_set {α : Type} {f : α → Nat} {l : List α} {i : Nat} {a b : α} (h : l[i]? = some a)
    (hf : f b = f a + 1) : ((l.set i b).map f).sum = (l.map f).sum + 1 := by
  induction l generalizing i with
  | nil => cases h
  | cons c rest ih =>
    cases i with
    | zero =>
      cases h
      simp only [List.set_cons_zero, List.map_cons, List.sum_cons, hf]
      omega
    | succ i =>
      have := ih h
      simp only [List.set_cons_succ, List.map_cons, List.sum_cons] at this ⊢
      omega

namespace Solver

/-- What a node holds for the agent at place `i`. -/
structure Holds (s : Solver) (node : TreeNode) (i : Nat) (agent : Agent) (table : DistanceTable)
    (set : ConstraintSet) (plan : Plan) : Prop where
  agent_eq : s.agents[i]? = some agent
  table_eq : s.tables[i]? = some table
  set_eq : node.constraints[i]? = some set
  path_eq : node.paths[i]? = some plan.path
  cost_eq : node.costs[i]? = some plan.cost
  indexed : set.Indexed
  best : plan.Best s.env agent table set

/-- What holds of every node of a tree search. -/
structure Fits (s : Solver) (node : TreeNode) : Prop where
  constraints_length : node.constraints.length = s.agents.length
  paths_length : node.paths.length = s.agents.length
  costs_length : node.costs.length = s.agents.length
  holds : ∀ {i : Nat}, i < s.agents.length → ∃ agent table set plan, s.Holds node i agent table set plan
  cost : node.cost = s.costType.combine node.costs
  costType : node.costType = s.costType
  conflicts : node.conflicts = Conflict.detect node.paths
  depth : node.depth = (node.constraints.map ConstraintSet.size).sum

/-- What became of planning an agent again under one more constraint. -/
inductive Grown (s : Solver) (node : TreeNode) (c : Constraint) : Option TreeNode → Prop
  | child {agent : Agent} {table : DistanceTable} {set : ConstraintSet} {plan : Plan} :
      s.agents[c.agent]? = some agent → s.tables[c.agent]? = some table → node.constraints[c.agent]? = some set →
      plan.Best s.env agent table (set.insert c) → Grown s node c (some (node.replace c.agent (set.insert c) plan))
  | barren {agent : Agent} {table : DistanceTable} {set : ConstraintSet} :
      s.agents[c.agent]? = some agent → s.tables[c.agent]? = some table → node.constraints[c.agent]? = some set →
      Plan.Barren s.env agent table (set.insert c) → Grown s node c none

variable {s : Solver} {node : TreeNode}

/-- A constraint that one side of a conflict asks for is new to its agent. -/
theorem Fits.fresh (h : s.Fits node) {c : Conflict} (hc : c ∈ node.conflicts) {k : Constraint}
    (hk : k = c.constraints.1 ∨ k = c.constraints.2) :
    ∃ agent table set plan, s.Holds node k.agent agent table set plan ∧ set.covers k = false := by
  rw [h.conflicts] at hc
  obtain ⟨-, -, a, b, ha, hb, hkind⟩ := Conflict.mem_detect.mp hc
  obtain ⟨hna, hnb⟩ := Conflict.not_avoids_of_kindAt hkind
  obtain ⟨path, hpath, hnot⟩ : ∃ path, node.paths[k.agent]? = some path ∧ ¬path.Avoids k.forbids := by
    rcases hk with rfl | rfl
    · exact ⟨a, by rw [c.agent_constraints.1, ha], hna⟩
    · exact ⟨b, by rw [c.agent_constraints.2, hb], hnb⟩
  have hlt := (List.getElem?_eq_some_iff.mp hpath).1
  obtain ⟨agent, table, set, plan, hh⟩ := h.holds (h.paths_length ▸ hlt)
  obtain rfl := Option.some.inj (hpath.symm.trans hh.path_eq)
  obtain ⟨ps, hserves⟩ := hh.best.serves
  refine ⟨agent, table, set, plan, hh, ?_⟩
  rw [← Bool.not_eq_true, hh.indexed.covers_iff]
  exact fun hm => hnot (hserves.keeps _ hm)

/-- A child is what planning its agent under one more constraint leads to. -/
theorem Holds.buildChild_eq {k : Constraint} {agent : Agent} {table : DistanceTable} {set : ConstraintSet}
    {plan : Plan} (h : s.Holds node k.agent agent table set plan) (rounds : Nat) (clock : Clock) (budget : Budget)
    (search : Nat) : s.buildChild rounds clock budget search node k =
      (s.plan rounds clock budget search k.agent (set.insert k)).map fun report =>
        ⟨node.adopt k.agent (set.insert k) report.result, report.counters⟩ := by
  have hext : node.extend? k = some (set.insert k) := by
    rw [TreeNode.extend?, h.set_eq]
    rfl
  rw [buildChild, hext, Option.map_eq_bind]
  rfl

theorem Fits.replace (h : s.Fits node) {c : Constraint} {agent : Agent} {table : DistanceTable}
    {set : ConstraintSet} {old plan : Plan} (hh : s.Holds node c.agent agent table set old)
    (hnew : set.covers c = false) (hbest : plan.Best s.env agent table (set.insert c)) :
    s.Fits (node.replace c.agent (set.insert c) plan) where
  constraints_length := by simp [TreeNode.replace, h.constraints_length]
  paths_length := by simp [TreeNode.replace, h.paths_length]
  costs_length := by simp [TreeNode.replace, h.costs_length]
  holds {i} hi := by
    by_cases hic : c.agent = i
    · subst hic
      refine ⟨agent, table, set.insert c, plan, hh.agent_eq, hh.table_eq, ?_, ?_, ?_, hh.indexed.insert c, hbest⟩
      · simp [TreeNode.replace, h.constraints_length, hi]
      · simp [TreeNode.replace, h.paths_length, hi]
      · simp [TreeNode.replace, h.costs_length, hi]
    · obtain ⟨a, t, u, p, hp⟩ := h.holds hi
      exact ⟨a, t, u, p, hp.agent_eq, hp.table_eq, by simp [TreeNode.replace, hic, hp.set_eq],
        by simp [TreeNode.replace, hic, hp.path_eq], by simp [TreeNode.replace, hic, hp.cost_eq], hp.indexed, hp.best⟩
  cost := by rw [← h.costType]; rfl
  costType := h.costType
  conflicts := rfl
  depth := by
    have hsize : (set.insert c).size = set.size + 1 := by
      rw [ConstraintSet.insert_of_not_covers hnew, ConstraintSet.size, ConstraintSet.toList_record]
      exact List.length_append
    show node.depth + 1 = _
    rw [h.depth]
    exact (sum_map_set hh.set_eq hsize).symm

/-- A child fits as its parent does. -/
theorem Fits.grown (h : s.Fits node) {c : Conflict} (hc : c ∈ node.conflicts) {k : Constraint}
    (hk : k = c.constraints.1 ∨ k = c.constraints.2) {child : TreeNode} (hg : s.Grown node k (some child)) :
    s.Fits child := by
  obtain ⟨agent, table, set, plan, hh, hnew⟩ := h.fresh hc hk
  cases hg with
  | child ha ht hs hbest =>
    cases hh.agent_eq.symm.trans ha
    cases hh.table_eq.symm.trans ht
    cases hh.set_eq.symm.trans hs
    exact h.replace hh hnew hbest

/-! ### The root -/

/-- What the result of planning the agent at place `i` says. -/
inductive Planned (s : Solver) (clock : Clock) (budget : Budget) (i : Nat) (set : ConstraintSet) :
    Except SearchError Plan → Prop
  | missing : (s.agents[i]? = none ∨ s.tables[i]? = none) → Planned s clock budget i set (.error .indexOutOfRange)
  | answered {agent : Agent} {table : DistanceTable} {search : Nat} {result : Except SearchError Plan} :
      s.agents[i]? = some agent → s.tables[i]? = some table →
      Plan.Answers s.env agent table set (budget.searchDeadline clock search) result →
      Planned s clock budget i set result

variable {rounds : Nat} {clock : Clock} {budget : Budget}

theorem planned_of_plan {search i : Nat} {set : ConstraintSet} (h : set.Indexed) {report : SearchReport Plan}
    (hp : s.plan rounds clock budget search i set = some report) : Planned s clock budget i set report.result := by
  unfold plan at hp
  split at hp
  case h_1 a table ha ht => exact .answered ha ht (Plan.answers_of_search h hp)
  case h_2 hno =>
    cases hp
    refine .missing ?_
    cases ha : s.agents[i]? with
    | none => exact .inl rfl
    | some a =>
      cases ht : s.tables[i]? with
      | none => exact .inr rfl
      | some table => exact absurd ht (hno a table ha)

/-- What planning several agents without constraints says: each has a best plan, or one of them has none. -/
theorem planned_of_planAll {is : List Nat} {stats stats' : Stats} {result : Except SearchError (List Plan)}
    (h : s.planAll rounds clock budget is stats = some (result, stats')) :
    (∃ plans, result = .ok plans ∧
        List.Forall₂ (fun i plan => Planned s clock budget i (.empty i) (.ok plan)) is plans) ∨
      ∃ i ∈ is, ∃ e, result = .error e ∧ Planned s clock budget i (.empty i) (.error e) := by
  induction is generalizing stats result with
  | nil =>
    cases h
    exact .inl ⟨[], rfl, .nil⟩
  | cons i rest ih =>
    obtain ⟨report, hplan, h⟩ := Option.bind_eq_some_iff.mp h
    have hi := planned_of_plan (ConstraintSet.indexed_empty i) hplan
    dsimp only at h
    split at h
    case h_1 e he =>
      cases h
      exact .inr ⟨i, List.mem_cons_self, e, rfl, he ▸ hi⟩
    case h_2 plan hok =>
      obtain ⟨⟨rest', stats''⟩, hrest, h⟩ := Option.bind_eq_some_iff.mp h
      cases h
      rcases ih hrest with ⟨plans, rfl, hall⟩ | ⟨j, hj, e, rfl, hp⟩
      · exact .inl ⟨plan :: plans, rfl, .cons (hok ▸ hi) hall⟩
      · exact .inr ⟨j, List.mem_cons_of_mem _ hj, e, rfl, hp⟩

/-- The root fits if every agent was planned. -/
theorem fits_root {plans : List Plan} (h : List.Forall₂ (fun i plan => Planned s clock budget i (.empty i) (.ok plan))
    (List.range s.agents.length) plans) : s.Fits (.root s.costType plans) := by
  have hlen : plans.length = s.agents.length := by rw [← h.length_eq, List.length_range]
  refine ⟨by simp [TreeNode.root, hlen], by simp [TreeNode.root, hlen], by simp [TreeNode.root, hlen],
    fun {i} hi => ?_, rfl, rfl, rfl, ?_⟩
  · have hplanned := h.get (i := i) (by simpa using hi) (by omega)
    simp only [List.get_eq_getElem, List.getElem_range] at hplanned
    cases hplanned with
    | answered ha ht hans =>
      cases hans with
      | found hbest =>
        exact ⟨_, _, .empty i, plans[i], ha, ht, by simp [TreeNode.root, hlen, hi],
          by simp [TreeNode.root, hlen, hi], by simp [TreeNode.root, hlen, hi], ConstraintSet.indexed_empty i, hbest⟩
  · refine (List.sum_eq_zero fun size hsize => ?_).symm
    obtain ⟨set, hset, rfl⟩ := List.mem_map.mp hsize
    obtain ⟨i, -, rfl⟩ := List.mem_map.mp hset
    rfl

end Solver

end Mapf
