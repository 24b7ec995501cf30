import Mapf.Proofs.Graphs
import Mapf.Proofs.Tree.Bounded
import Mapf.Proofs.Tree.Optimal

/-! # Every solvable problem is solved

A joint plan bounds the tree search where no move is free. The cheapest waiting node costs no more than the
plan, so all constraints of its children forbid things of a finite set, and no node is deeper than a number
that depends on the plan alone. Each node weighs three times as much as a child of its own; as a round
trades a node for at most two children, the weight of all waiting nodes decreases (`Hopeful.turn`). -/

namespace Mapf

/-- A budget without a limit of time that allows at least `expansions`. -/
structure Budget.Allows (budget : Budget) (expansions : Nat) : Prop where
  untimed : budget.timeLimit = none
  enough : ∀ m, budget.maxExpansions = some m → expansions ≤ m

theorem Budget.Allows.not_spent {budget : Budget} {clock : Clock} {n k : Nat} (h : budget.Allows n) (hk : k < n) :
    ¬budget.Spent clock k := by
  intro hspent
  cases hspent with
  | expansions hm =>
    obtain ⟨m, hm, hle⟩ := (Option.any_eq_true _ _).mp hm
    exact absurd (Nat.lt_of_lt_of_le hk (h.enough m hm)) (Nat.not_lt.mpr (decide_eq_true_iff.mp hle))
  | round hexp => simp [Budget.roundDeadline, Deadline.ofLimit, h.untimed] at hexp
  | search hexp => simp [Budget.searchDeadline, Deadline.ofLimit, h.untimed] at hexp

/-- The weight of a node in a tree that is at most `deepest` deep. -/
def TreeNode.weight (deepest : Nat) (node : TreeNode) : Nat := 3 ^ (deepest + 1 - node.depth)

theorem TreeNode.weight_pos (deepest : Nat) (node : TreeNode) : 0 < node.weight deepest :=
  Nat.pow_pos (by decide)

theorem TreeNode.weight_child {deepest : Nat} {node child : TreeNode} (hd : child.depth = node.depth + 1)
    (hle : child.depth ≤ deepest) : node.weight deepest = 3 * child.weight deepest := by
  unfold weight
  rw [hd, ← Nat.pow_succ']
  congr 1
  omega

namespace Solver

/-- A solver for agents that have a joint plan, in a finite environment without free moves. -/
structure Solvable (s : Solver) (cells : Finset Position) (plan : JointPlan s.env s.agents) : Prop where
  within : s.env.Within cells
  navigable : s.env.Navigable
  cost_pos : ∀ {p q : Position} {c : Nat}, (q, c) ∈ s.env.neighbors p → 1 ≤ c
  prepared : s.Prepared
  valid : ValidAgents s.env s.agents

/-- A time by which everything has happened in nodes that cost no more than a joint plan. -/
def limit (s : Solver) (plan : JointPlan s.env s.agents) : Nat := s.costType.combine plan.costs + 1

/-- The depth that the tree does not exceed. -/
def deepest (s : Solver) (cells : Finset Position) (plan : JointPlan s.env s.agents) : Nat :=
  s.agents.length * (Forbiddable cells (s.limit plan)).card

/-- The number of expansions that are always enough. -/
def enough (s : Solver) (cells : Finset Position) (plan : JointPlan s.env s.agents) : Nat :=
  3 ^ (s.deepest cells plan + 1)

/-- The weight of all waiting nodes. -/
def Progress.weight (deepest : Nat) (t : Progress) : Nat := (t.nodes.map (TreeNode.weight deepest)).sum

/-- What holds between rounds if there is a joint plan. -/
structure Hopeful (s : Solver) (cells : Finset Position) (plan : JointPlan s.env s.agents) (t : Progress) :
    Prop where
  covers : Covers t plan
  bounded : ∀ node ∈ t.nodes, Bounded cells (s.limit plan) node
  spent : t.stats.high.expanded + t.weight (s.deepest cells plan) ≤ s.enough cells plan

variable {s : Solver} {cells : Finset Position} {plan : JointPlan s.env s.agents} {rounds : Nat} {clock : Clock}
  {budget : Budget} {t u : Progress} {node : TreeNode}

/-! ### Turns -/

theorem Solvable.knowing (h : s.Solvable cells plan) : s.Knowing := h.prepared.knowing h.navigable h.valid

/-- As long as the joint plan is covered, some expansions are left. -/
theorem Hopeful.expanded_lt (h : s.Hopeful cells plan t) : t.stats.high.expanded < s.enough cells plan := by
  obtain ⟨node, hn, -⟩ := h.covers
  have hle : node.weight (s.deepest cells plan) ≤ t.weight (s.deepest cells plan) :=
    List.single_le_sum (fun _ _ => Nat.zero_le _) _ (List.mem_map_of_mem hn)
  have := node.weight_pos (s.deepest cells plan)
  have := h.spent
  omega

/-- A cheapest waiting node costs no more than the joint plan. -/
theorem Hopeful.cost_lt (h : s.Hopeful cells plan t) (hs : s.Solvable cells plan) (ht : s.Growing t)
    (hleast : ∀ n ∈ t.nodes, node.cost ≤ n.cost) : node.cost < s.limit plan := by
  obtain ⟨n, hn, ha⟩ := h.covers
  have := (ht.fits n hn).cost_le hs.knowing ha
  have := hleast n hn
  rw [limit]
  omega

/-- A child forbids nothing new but what its conflict asks for, and weighs a third of its parent. -/
theorem Grown.weight {c : Conflict} {k : Constraint} {o : Option TreeNode} (hg : s.Grown node k o)
    (hs : s.Solvable cells plan) (hf : s.Fits node) (hb : Bounded cells (s.limit plan) node)
    (hcost : node.cost < s.limit plan) (hc : c ∈ node.conflicts) (hk : k = c.constraints.1 ∨ k = c.constraints.2) :
    (∀ child, o = some child → Bounded cells (s.limit plan) child) ∧
      3 * (o.toList.map (TreeNode.weight (s.deepest cells plan))).sum ≤ node.weight (s.deepest cells plan) := by
  cases o with
  | none => exact ⟨nofun, Nat.zero_le _⟩
  | some child =>
    obtain ⟨_, _, _, _, hh, -⟩ := hf.fresh hc hk
    obtain ⟨hbounded, hdepth⟩ := hg.bounded hb (fun hset => by cases hset.symm.trans hh.set_eq; exact hh.indexed)
      (hf.forbids_mem hs.within hs.cost_pos hcost hc hk)
    have hle : child.depth ≤ s.deepest cells plan := (hf.grown hc hk hg).depth_le hbounded
    refine ⟨fun _ h => by cases h; exact hbounded, ?_⟩
    rw [TreeNode.weight_child hdepth hle, Option.toList_some, List.map_singleton, List.sum_singleton]

/-- A turn that goes on keeps the plan covered and takes off some of the weight. -/
theorem Hopeful.turn (h : s.Hopeful cells plan t) (hs : s.Solvable cells plan) (ht : s.Growing t)
    (hturn : Turn s clock budget t (.next u)) :
    s.Hopeful cells plan u ∧ u.weight (s.deepest cells plan) < t.weight (s.deepest cells plan) := by
  have hcovers := covers_turn ht hs.knowing h.covers hturn
  cases hturn with
  | @split node others c first second _ hperm hleast hc hfirst hsecond _ hu hexp =>
    have hnode : node ∈ t.nodes := hperm.mem_iff.mpr List.mem_cons_self
    have hcost := h.cost_lt hs ht hleast
    obtain ⟨hb₁, hw₁⟩ := hfirst.weight hs (ht.fits node hnode) (h.bounded node hnode) hcost hc (.inl rfl)
    obtain ⟨hb₂, hw₂⟩ := hsecond.weight hs (ht.fits node hnode) (h.bounded node hnode) hcost hc (.inr rfl)
    have hpos := node.weight_pos (s.deepest cells plan)
    have hwt : t.weight (s.deepest cells plan) = node.weight (s.deepest cells plan) +
        (others.map (TreeNode.weight (s.deepest cells plan))).sum := by
      rw [Progress.weight, (hperm.map _).sum_eq, List.map_cons, List.sum_cons]
    have hwu : u.weight (s.deepest cells plan) =
        (first.toList.map (TreeNode.weight (s.deepest cells plan))).sum +
          (second.toList.map (TreeNode.weight (s.deepest cells plan))).sum +
          (others.map (TreeNode.weight (s.deepest cells plan))).sum := by
      rw [Progress.weight, (hu.map _).sum_eq, List.map_append, List.map_append, List.sum_append, List.sum_append]
    have hspent := h.spent
    refine ⟨⟨hcovers, fun n hn => ?_, by omega⟩, by omega⟩
    rw [hu.mem_iff, List.mem_append, List.mem_append, Option.mem_toList, Option.mem_toList] at hn
    rcases hn with (hn | hn) | hn
    · exact hb₁ n hn
    · exact hb₂ n hn
    · exact h.bounded n (hperm.mem_iff.mpr (List.mem_cons_of_mem _ hn))

theorem hopeful_root (h : Launched s clock budget (.next t)) : s.Hopeful cells plan t := by
  refine ⟨covers_root h plan, ?_, ?_⟩ <;> cases h with
  | @rooted _ plans _ _ hnodes hexp => ?_
  · intro node hn set hset x hx
    rw [hnodes, List.mem_singleton] at hn
    subst hn
    obtain ⟨i, -, rfl⟩ := List.mem_map.mp hset
    cases hx
  · rw [hexp, Progress.weight, hnodes]
    simp [TreeNode.weight, TreeNode.root, enough]

/-- A search that ends has solved the problem, if its budget allows enough expansions. -/
theorem ok_of_search (hs : s.Solvable cells plan) (hbudget : budget.Allows (s.enough cells plan))
    {report : SolveReport} (h : s.search rounds clock budget = some report) :
    ∃ solution, report.result = .ok solution := by
  obtain ⟨r, hr, hend⟩ := search_cases (I := s.Hopeful cells plan) hopeful_root
    (fun ht hinv hturn => (hinv.turn hs ht hturn).1) h
  rw [hr]
  rcases hend with hl | ⟨t, ht, hinv, hturn⟩
  · cases hl with
    | unfit _ hinvalid =>
      rw [validate_eq_ok_iff.mpr hs.valid] at hinvalid
      cases hinvalid
    | barren _ _ hagent htable hbarren =>
      obtain ⟨ps, cost, htravels, -⟩ := plan.route hagent
      exact absurd (Path.keeps_empty _ _) (hbarren (hs.knowing hagent htable) htravels)
    | outOfBudget _ hspent =>
      exact absurd hspent (hbudget.not_spent (Nat.pow_pos (by decide)))
    | untabled _ hlt hnone =>
      rw [List.getElem?_eq_none_iff, ← hs.prepared.length_eq] at hnone
      omega
  · cases hturn with
    | outOfBudget _ hspent => exact absurd hspent (hbudget.not_spent hinv.expanded_lt)
    | exhausted _ hnone =>
      obtain ⟨n, hn, -⟩ := hinv.covers
      rw [hnone] at hn
      cases hn
    | solved hres _ _ _ => exact ⟨_, hres⟩

/-! ### Every loop ends -/

theorem plan_ends (clock : Clock) (budget : Budget) (hw : s.env.Within cells) {set : ConstraintSet}
    (hset : set.Indexed) {n : Nat} (hn : SpaceTime.horizon set ≤ n) (hr : cells.card * (n + 1) < rounds)
    (search i : Nat) : ∃ report, s.plan rounds clock budget search i set = some report := by
  unfold plan
  split
  · refine Plan.search_ends hset hw _ (Nat.lt_of_le_of_lt ?_ hr)
    exact Nat.mul_le_mul_left _ (Nat.succ_le_succ hn)
  · exact ⟨_, rfl⟩

theorem planAll_ends (clock : Clock) (budget : Budget) (hw : s.env.Within cells) {n : Nat}
    (hr : cells.card * (n + 1) < rounds) (is : List Nat) (stats : Stats) :
    ∃ planned, s.planAll rounds clock budget is stats = some planned := by
  induction is generalizing stats with
  | nil => exact ⟨_, rfl⟩
  | cons i rest ih =>
    obtain ⟨report, hreport⟩ := plan_ends clock budget hw (ConstraintSet.indexed_empty i)
      (Nat.zero_le n) hr stats.searches i
    obtain ⟨planned, hrest⟩ := ih (stats.recordLowLevel report.counters)
    unfold planAll
    simp only [hreport, Option.bind_eq_bind, Option.bind_some]
    split
    · exact ⟨_, rfl⟩
    · rw [hrest]
      exact ⟨_, rfl⟩

theorem launch_ends (clock : Clock) (budget : Budget) (hw : s.env.Within cells) {n : Nat}
    (hr : cells.card * (n + 1) < rounds) : ∃ r, s.launch rounds clock budget = some r := by
  unfold launch
  dsimp only
  split
  · exact ⟨_, rfl⟩
  · obtain ⟨planned, hplanned⟩ := planAll_ends clock budget hw hr
      (List.range s.agents.length) .zero
    unfold plant
    simp only [hplanned, Option.bind_eq_bind, Option.bind_some]
    split
    · exact ⟨_, rfl⟩
    · exact ⟨_, rfl⟩
    · exact ⟨_, rfl⟩
    · split <;> exact ⟨_, rfl⟩

theorem buildChild_ends (clock : Clock) (budget : Budget) (hs : s.Solvable cells plan) (hf : s.Fits node)
    (hb : Bounded cells (s.limit plan) node) (hcost : node.cost < s.limit plan)
    (hr : cells.card * (s.limit plan + 1) < rounds) {c : Conflict} (hc : c ∈ node.conflicts) {k : Constraint}
    (hk : k = c.constraints.1 ∨ k = c.constraints.2) (search : Nat) :
    ∃ child, s.buildChild rounds clock budget search node k = some child := by
  obtain ⟨_, _, set, _, hh, -⟩ := hf.fresh hc hk
  have hforbids := hf.forbids_mem hs.within hs.cost_pos hcost hc hk
  have hhorizon : SpaceTime.horizon (set.insert k) ≤ s.limit plan :=
    SpaceTime.horizon_le (hh.indexed.insert k) fun x hx =>
      time_lt_of_forbiddable (hb.insert (List.mem_of_getElem? hh.set_eq) hh.indexed hforbids x hx)
  obtain ⟨report, hreport⟩ := plan_ends clock budget hs.within (hh.indexed.insert k)
    hhorizon hr search k.agent
  rw [hh.buildChild_eq, hreport]
  exact ⟨_, rfl⟩

theorem round_ends (clock : Clock) (budget : Budget) (hs : s.Solvable cells plan) (ht : s.Growing t)
    (h : s.Hopeful cells plan t) (hr : cells.card * (s.limit plan + 1) < rounds) :
    ∃ r, s.round rounds clock budget t = some r := by
  unfold round
  dsimp only
  split
  · exact ⟨_, rfl⟩
  · split
    · exact ⟨_, rfl⟩
    case h_2 key node waiting hpop =>
      obtain ⟨hperm, hleast⟩ := ht.popMin hpop
      have hnode : node ∈ t.nodes := hperm.mem_iff.mpr List.mem_cons_self
      split
      · exact ⟨_, rfl⟩
      case h_2 c hfirst =>
        have hc : c ∈ node.conflicts := List.mem_of_head? hfirst
        have hbuild : ∀ {k}, k = c.constraints.1 ∨ k = c.constraints.2 → ∀ search,
            ∃ child, s.buildChild rounds clock budget search node k = some child := fun hk =>
          buildChild_ends clock budget hs (ht.fits node hnode) (h.bounded node hnode) (h.cost_lt hs ht hleast) hr hc hk
        obtain ⟨first, h₁⟩ := hbuild (.inl rfl) t.stats.searches
        obtain ⟨second, h₂⟩ := hbuild (.inr rfl) (t.stats.searches + 1)
        rw [buildChildren_eq_some_iff.mpr ⟨first, second, rfl, h₁, h₂⟩]
        exact ⟨_, rfl⟩

theorem search_ends (clock : Clock) (budget : Budget) (hs : s.Solvable cells plan)
    (hr : cells.card * (s.limit plan + 1) < rounds) (hr' : s.enough cells plan < rounds) :
    ∃ report, s.search rounds clock budget = some report := by
  obtain ⟨first, hlaunch⟩ := launch_ends clock budget hs.within hr
  unfold search
  simp only [hlaunch, Option.bind_eq_bind, Option.bind_some]
  cases first with
  | done report => exact ⟨_, rfl⟩
  | next t =>
    have hl := launched_of_launch hlaunch
    have hroot : s.Hopeful cells plan t := hopeful_root hl
    have hlt : t.weight (s.deepest cells plan) < rounds := by
      have := hroot.spent
      omega
    obtain ⟨report, hrun⟩ := Loop.run_ends (I := fun t => s.Growing t ∧ s.Hopeful cells plan t)
      (Progress.weight (s.deepest cells plan)) (fun t ⟨hg, hh⟩ => by
        obtain ⟨r, hround⟩ := round_ends clock budget hs hg hh hr
        have hturn := turn_of_round hg hround
        cases r with
        | done report => exact .inl ⟨report, hround⟩
        | next u =>
          obtain ⟨hu, hw⟩ := hh.turn hs hg hturn
          exact .inr ⟨u, hround, ⟨hturn.growing, hu⟩, hw⟩) ⟨hl.growing, hroot⟩ hlt
    dsimp only
    rw [hrun]
    exact ⟨_, rfl⟩

theorem prepare_ends {env : Environment} (hw : env.Within cells) (hr : cells.card + 1 < rounds)
    (agents : List Agent) : ∃ tables, prepare rounds env agents = some ⟨env, agents, tables, .standard, false⟩ := by
  obtain ⟨tables, ht⟩ : ∃ tables, agents.mapM (fun agent => DistanceTable.build rounds env agent.goal) =
      some tables := by
    induction agents with
    | nil => exact ⟨[], rfl⟩
    | cons a rest ih =>
      obtain ⟨tables, hrest⟩ := ih
      obtain ⟨table, ha⟩ := DistanceTable.build_ends hw
        (Nat.lt_of_le_of_lt (Finset.card_insert_le _ _) hr)
      exact ⟨table :: tables, mapM_eq_some_iff.mpr (.cons ha (mapM_eq_some_iff.mp hrest))⟩
  refine ⟨tables, ?_⟩
  unfold prepare
  rw [ht]
  rfl

end Solver

/-! ### Grids and graphs -/

/-- The environments of grids and graphs that can be built. -/
inductive Environment.Supported : Environment → Prop
  | grid {g : Grid} : g.Built → Supported g.environment
  | graph {g : Graph} : g.Built → Supported g.environment

namespace Environment.Supported

variable {env : Environment}

theorem navigable (h : env.Supported) : env.Navigable := by
  cases h with
  | grid h => exact h.navigable
  | graph h => exact h.lawful.navigable

theorem within (h : env.Supported) : ∃ cells, env.Within cells := by
  cases h with
  | grid h => exact ⟨_, h.within⟩
  | graph h => exact ⟨_, h.within⟩

theorem cost_pos (h : env.Supported) {p q : Position} {c : Nat} (hm : (q, c) ∈ env.neighbors p) : 1 ≤ c := by
  cases h with
  | grid h => exact h.cost_pos hm
  | graph h => exact h.cost_pos hm

end Environment.Supported

namespace Solver

/-- Agents that have a joint plan on a grid or a graph are given a solution, after a number of expansions that
    depends neither on the clock nor on the budget. -/
theorem search_solves {env : Environment} (supported : env.Supported) {agents : List Agent}
    (valid : ValidAgents env agents) (plan : JointPlan env agents) (costType : CostType) (parallel : Bool) :
    ∃ expansions least, ∀ rounds ≥ least, ∀ (clock : Clock) (budget : Budget), budget.Allows expansions →
      ∃ solver report solution, prepare rounds env agents = some solver ∧
        search { solver with costType := costType, parallelBranching := parallel } rounds clock budget =
          some report ∧ report.result = .ok solution := by
  obtain ⟨cells, within⟩ := supported.within
  -- The numbers do not depend on the tables.
  let s (tables : List DistanceTable) : Solver := ⟨env, agents, tables, costType, parallel⟩
  let most := cells.card * ((s []).limit plan + 1)
  refine ⟨(s []).enough cells plan, cells.card + most + (s []).enough cells plan + 2,
    fun rounds hr clock budget hbudget => ?_⟩
  obtain ⟨tables, hprep⟩ := prepare_ends within (show cells.card + 1 < rounds by omega) agents
  have hs : (s tables).Solvable cells plan :=
    ⟨within, supported.navigable, supported.cost_pos, (prepared_of_prepare hprep).2.2, valid⟩
  obtain ⟨report, hsearch⟩ := search_ends clock budget hs
    (show most < rounds by omega) (show (s []).enough cells plan < rounds by omega)
  obtain ⟨solution, hok⟩ := ok_of_search hs hbudget hsearch
  exact ⟨_, report, solution, hprep, hsearch, hok⟩

theorem validAgents_bay : ValidAgents bay.environment bayAgents where
  nonempty := nofun
  inside := by decide
  ids := by decide
  starts := by decide
  goals := by decide

theorem built_bay : bay.Built :=
  .placed (show Grid.ofObstacles? 2 3 [⟨1, 0⟩, ⟨1, 2⟩] = some bay from rfl)

end Solver

end Mapf
