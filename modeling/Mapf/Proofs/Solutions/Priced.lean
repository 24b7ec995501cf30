import Mapf.Proofs.Orderly
import Mapf.Proofs.Plans.Exact
import Mapf.Proofs.Tree.Ends

/-! # The price of a solution

A path is priced by its steps alone, whatever was summed up while it was searched for (`Path.price?`). Every listed
move leads to another cell and costs what the environment says, so the cost that a planner has for a route is the price
of its path (`Environment.Route.price`). A node keeps one such cost for each agent. So the cost of a solution is the sum
of the prices of its paths, or the highest of them (`Solver.Fits.priced`), and where every move costs 1 it can be read
off the lengths of the paths (`Solver.Fits.cost_eq_duration`). -/

namespace Mapf

namespace Environment

/-- The price of a step: 1 for a wait, and for a move what it costs, unless there is no such move. -/
def stepPrice? (env : Environment) (p q : Position) : Option Nat :=
  if p = q then some 1 else env.edgeCost p q

/-- Every listed move leads to another cell, and costs what the environment says that it costs. -/
def Honest (env : Environment) : Prop :=
  ∀ {p q : Position} {c : Nat}, (q, c) ∈ env.neighbors p → p ≠ q ∧ env.edgeCost p q = some c

end Environment

/-- The sum of the prices of all steps of a path, unless one of its moves does not exist. -/
def Path.price? (path : Path) (env : Environment) : Option Nat :=
  (path.steps.mapM fun step => env.stepPrice? step.1.position step.2.position).map List.sum

/-- What the costs of the agents amount to: their sum, or the largest of them. -/
def CostType.Totals : CostType → List Nat → Nat → Prop
  | .sumOfCosts, costs, total => costs.sum = total
  | .makespan, costs, total => IsGreatest {cost | cost ∈ costs} total

namespace Solution

/-- The paths of all agents have prices, and the cost is what these amount to. -/
def Priced (solution : Solution) (env : Environment) (agents : List Agent) (costType : CostType) : Prop :=
  ∃ prices, List.Forall₂ (fun agent price => ∃ path, solution.paths.get? agent.id = some path ∧
    path.price? env = some price) agents prices ∧ costType.Totals prices solution.cost

/-- How long the paths take: all of them together, or until the last agent ends its path. -/
def duration (solution : Solution) : CostType → Nat
  | .sumOfCosts => (solution.paths.values.map fun path => path.length - 1).sum
  | .makespan => solution.makespan

end Solution

/-! ### Combined costs -/

namespace CostType

theorem totals_combine (costType : CostType) {costs : List Nat} (hne : costs ≠ []) :
    costType.Totals costs (costType.combine costs) := by
  cases costType with
  | sumOfCosts => exact List.sum_eq_foldl
  | makespan =>
    refine ⟨?_, fun cost hcost => le_combine .makespan hcost⟩
    obtain ⟨cost, rest, rfl⟩ := List.exists_cons_of_ne_nil hne
    show (cost :: rest).foldl max 0 ∈ cost :: rest
    rw [List.foldl_cons, Nat.zero_max]
    exact List.max?_mem rfl

theorem combine_perm (costType : CostType) {xs ys : List Nat} (h : xs.Perm ys) :
    costType.combine xs = costType.combine ys := by
  cases costType with
  | sumOfCosts => exact h.foldl_eq 0
  | makespan => exact h.foldl_eq 0

end CostType

theorem Solution.duration_eq_combine (solution : Solution) (costType : CostType) :
    solution.duration costType = costType.combine (solution.paths.values.map fun path => path.length - 1) := by
  cases costType with
  | sumOfCosts => exact List.sum_eq_foldl
  | makespan => rfl

/-! ### Routes -/

namespace Path

@[simp] theorem map_position_ofPositions (ps : List Position) : (ofPositions ps).map Cell.position = ps :=
  List.ext_getElem (by simp) fun t _ _ => by simp [ofPositions]

/-- The times of the cells do not count for the price. -/
theorem price?_ofPositions (ps : List Position) (env : Environment) : (ofPositions ps).price? env =
    ((ps.zip ps.tail).mapM fun step => env.stepPrice? step.1 step.2).map List.sum := by
  have hsteps : (ofPositions ps).steps.map (Prod.map Cell.position Cell.position) = ps.zip ps.tail := by
    rw [steps, ← List.zip_map, List.map_tail, map_position_ofPositions]
  rw [price?, ← hsteps, List.mapM_map]
  rfl

end Path

namespace Environment

variable {env : Environment} {p q : Position} {ps : List Position} {c n : Nat}

theorem Step.price (honest : env.Honest) (h : env.Step p q c) : env.stepPrice? p q = some c := by
  cases h with
  | wait => exact if_pos rfl
  | move hm =>
    obtain ⟨hne, hcost⟩ := honest hm
    rw [stepPrice?, if_neg hne, hcost]

/-- What a route costs is the price of its path. -/
theorem Route.price (honest : env.Honest) (h : env.Route ps n) : (Path.ofPositions ps).price? env = some n := by
  rw [Path.price?_ofPositions, Option.map_eq_some_iff]
  induction h with
  | single p => exact ⟨[], rfl, rfl⟩
  | @cons p q rest c n hs _ ih =>
    obtain ⟨prices, hprices, hsum⟩ := ih
    refine ⟨c :: prices, mapM_eq_some_iff.mpr (.cons (hs.price honest) (mapM_eq_some_iff.mp hprices)), ?_⟩
    rw [List.sum_cons, hsum]

/-- Where every move costs as much as a wait, a route costs as many steps as it has. -/
theorem Route.length_eq (unit : ∀ {p q : Position} {c : Nat}, (q, c) ∈ env.neighbors p → c = waitCost)
    (h : env.Route ps n) : ps.length = n + 1 := by
  induction h with
  | single => rfl
  | @cons p q rest c n hs _ ih =>
    have hc : c = 1 := by
      cases hs with
      | wait => rfl
      | move hm => exact unit hm
    rw [List.length_cons, ih, hc, Nat.add_comm 1 n]

end Environment

/-! ### Nodes -/

namespace Solver

variable {s : Solver} {node : TreeNode} {i cost : Nat} {path : Path}

/-- The path and the cost of an agent belong to one route. -/
theorem Fits.route (h : s.Fits node) (hpath : node.paths[i]? = some path) (hcost : node.costs[i]? = some cost) :
    ∃ ps, path = Path.ofPositions ps ∧ s.env.Route ps cost := by
  obtain ⟨_, _, _, plan, hh⟩ := h.holds (h.paths_length ▸ (List.getElem?_eq_some_iff.mp hpath).1)
  obtain ⟨ps, hserves⟩ := hh.best.serves
  cases hpath.symm.trans hh.path_eq
  cases hcost.symm.trans hh.cost_eq
  exact ⟨ps, hserves.path, hserves.travels.route⟩

theorem Fits.costs_ne_nil (h : s.Fits node) (valid : ValidAgents s.env s.agents) : node.costs ≠ [] :=
  List.ne_nil_of_length_pos (h.costs_length ▸ List.length_pos_iff.mpr valid.nonempty)

/-- The cost of a node is the price of its paths, whatever conflicts there are between them. -/
theorem Fits.priced (h : s.Fits node) (honest : s.env.Honest) (valid : ValidAgents s.env s.agents) :
    (s.toSolution node).Priced s.env s.agents s.costType := by
  refine ⟨node.costs, List.forall₂_iff_get.mpr ⟨h.costs_length.symm, fun i hi hi' => ?_⟩, ?_⟩
  · have hlt : i < node.paths.length := h.paths_length ▸ hi
    have hpath : node.paths[i]? = some node.paths[i] := List.getElem?_eq_getElem hlt
    obtain ⟨ps, hps, hroute⟩ := h.route hpath (List.getElem?_eq_getElem hi')
    refine ⟨_, (h.get?_toSolution valid (List.getElem?_eq_getElem hi)).trans hpath, ?_⟩
    rw [hps]
    exact hroute.price honest
  · show s.costType.Totals node.costs node.cost
    rw [h.cost]
    exact s.costType.totals_combine (h.costs_ne_nil valid)

theorem Fits.values_perm (h : s.Fits node) (valid : ValidAgents s.env s.agents) :
    (s.toSolution node).paths.values.Perm node.paths := by
  have hpaths : ((s.agents.zip node.paths).map fun x => (x.1.id, x.2)).map Prod.snd = node.paths := by
    rw [List.map_map]
    exact List.map_snd_zip (Nat.le_of_eq h.paths_length)
  have hperm := (OrderedMap.toList_ofList_perm (by rw [h.ids_zip]; exact valid.ids)).map Prod.snd
  rwa [hpaths] at hperm

/-- Where every move costs as much as a wait, the cost of a node is the time that its paths take. -/
theorem Fits.cost_eq_duration (h : s.Fits node) (valid : ValidAgents s.env s.agents)
    (unit : ∀ {p q : Position} {c : Nat}, (q, c) ∈ s.env.neighbors p → c = waitCost) :
    (s.toSolution node).cost = (s.toSolution node).duration s.costType := by
  have hcosts : node.costs = node.paths.map fun path => path.length - 1 := by
    refine List.ext_getElem ?_ fun i hi hi' => ?_
    · rw [List.length_map, h.costs_length, h.paths_length]
    · rw [List.length_map] at hi'
      obtain ⟨ps, hps, hroute⟩ := h.route (List.getElem?_eq_getElem hi') (List.getElem?_eq_getElem hi)
      rw [List.getElem_map, hps, Path.length_ofPositions, hroute.length_eq unit, Nat.add_sub_cancel]
  calc node.cost
    _ = s.costType.combine (node.paths.map fun path => path.length - 1) := by rw [h.cost, hcosts]
    _ = s.costType.combine ((s.toSolution node).paths.values.map fun path => path.length - 1) :=
      s.costType.combine_perm ((h.values_perm valid).symm.map _)
    _ = (s.toSolution node).duration s.costType := (Solution.duration_eq_combine _ _).symm

end Solver

/-! ### Grids and graphs -/

namespace Grid

variable {g : Grid} {p q : Position} {c : Nat}

theorem Built.edgeCost (h : g.Built) (hm : (q, c) ∈ g.environment.neighbors p) :
    g.environment.edgeCost p q = some c := by
  obtain ⟨height, width, rows, rfl, hh, hw⟩ := h.eq_ofRows
  obtain ⟨-, -, hp, hq, hadj, hc⟩ := (mem_neighbors_iff hh hw).mp hm
  exact edgeCost_eq_some_iff.mpr ⟨hp, hq, hadj, hc⟩

theorem Built.honest (h : g.Built) : g.environment.Honest := by
  intro p q c hm
  have hcost := h.edgeCost hm
  obtain ⟨-, -, hadj, -⟩ := edgeCost_eq_some_iff.mp hcost
  refine ⟨?_, hcost⟩
  rintro rfl
  unfold Adjacent at hadj
  omega

theorem Built.unit (h : g.Built) (hm : (q, c) ∈ g.environment.neighbors p) : c = waitCost :=
  (edgeCost_eq_some_iff.mp (h.edgeCost hm)).2.2.2

end Grid

theorem Environment.Orderly.honest {env : Environment} (h : env.Orderly) : env.Honest :=
  fun hm => ⟨(h.apart hm).symm, h.coherent.mpr hm⟩

theorem Environment.Supported.honest {env : Environment} (h : env.Supported) : env.Honest := by
  cases h with
  | grid hg => exact hg.honest
  | graph hg => exact hg.sound.orderly.honest

namespace Solver

/-- The cost of a solution on a grid or a graph is the price of its paths, and on a grid also the time that they
    take. -/
theorem cost_of_search {s : Solver} (supported : s.env.Supported) {rounds : Nat} {clock : Clock} {budget : Budget}
    {report : SolveReport} (h : s.search rounds clock budget = some report) {solution : Solution}
    (ok : report.result = .ok solution) : solution.Priced s.env s.agents s.costType ∧
      ∀ g : Grid, g.Built → s.env = g.environment → solution.cost = solution.duration s.costType := by
  obtain ⟨valid, node, hfits, -, rfl⟩ := node_of_search h ok
  refine ⟨hfits.priced supported.honest valid, fun g built henv => hfits.cost_eq_duration valid fun hm => ?_⟩
  rw [henv] at hm
  exact built.unit hm

end Solver

end Mapf
