import Mapf.Proofs.Strict.Conflicts
import Mapf.Proofs.Strict.Distances
import Mapf.Proofs.Strict.Search
import Mapf.Proofs.Tree.Optimal

/-! # A solve that cannot fail within

A tree search takes agents, distance tables, constraint sets, paths and costs by the place of an agent, and enters
children under numbers that nobody has used. The agents of every conflict are places in the list of agents, so the
whole solve comes to the end strictly, down to its queues, arenas and paths, and is never stopped by a low-level
search that blames itself (`Strict.faultless`). -/

namespace Mapf

open Mapf.Strict

namespace CostType.Strict

def combine (sums : Sums) : CostType → List Nat → Except Fault Nat
  | .sumOfCosts, costs => costs.foldlM sums.add 0
  | .makespan, costs => return costs.foldl max 0

theorem combine_eq (costType : CostType) (costs : List Nat) :
    combine .numbers costType costs = .ok (costType.combine costs) := by
  cases costType with
  | sumOfCosts => exact List.foldlM_pure
  | makespan => rfl

theorem combine_lags (sums : Sums) (costType : CostType) (costs : List Nat) :
    Lags (combine .checked costType costs) (combine sums costType costs) := by
  cases costType with
  | sumOfCosts => exact .foldlM (Lags.add sums) costs 0
  | makespan => exact .refl _

end CostType.Strict

namespace TreeNode.Strict

def root (sums : Sums) (costType : CostType) (plans : List Plan) : Except Fault TreeNode := do
  let conflicts ← Conflict.Strict.detect (plans.map Plan.path)
  let cost ← CostType.Strict.combine sums costType (plans.map Plan.cost)
  return { TreeNode.root costType plans with conflicts := conflicts, cost := cost }

def extend (n : TreeNode) (c : Constraint) : Except Fault ConstraintSet :=
  return (← element n.constraints.toArray c.agent).insert c

def replace (sums : Sums) (n : TreeNode) (agent : Nat) (set : ConstraintSet) (plan : Plan) : Except Fault TreeNode := do
  let _ ← element n.paths.toArray agent
  let _ ← element n.costs.toArray agent
  let conflicts ← Conflict.Strict.detect (n.paths.set agent plan.path)
  let cost ← CostType.Strict.combine sums n.costType (n.costs.set agent plan.cost)
  return { n.replace agent set plan with conflicts := conflicts, cost := cost }

def adopt (sums : Sums) (n : TreeNode) (agent : Nat) (set : ConstraintSet) :
    Except SearchError Plan → Except Fault (Except SearchError (Option TreeNode))
  | .ok plan => return .ok (some (← replace sums n agent set plan))
  | .error .noPathFound => return .ok none
  | .error e => return .error e

end TreeNode.Strict

namespace Solver

namespace Strict

/-- Measures the distances to the goals of agents. -/
def measureAll (sums : Sums) (rounds : Nat) (env : Environment) :
    (agents : List Agent) → Except Fault (Option (List DistanceTable))
  | [] => return some []
  | agent :: rest => do
    let some table ← DistanceTable.Strict.build sums rounds env agent.goal | return none
    let some tables ← measureAll sums rounds env rest | return none
    return some (table :: tables)

def prepare (sums : Sums) (rounds : Nat) (env : Environment) (agents : List Agent) : Except Fault (Option Solver) := do
  let some tables ← measureAll sums rounds env agents | return none
  return some { env, agents, tables, costType := .standard, parallelBranching := false }

def plan (sums : Sums) (s : Solver) (rounds : Nat) (clock : Clock) (budget : Budget) (search : Nat) (agent : Nat)
    (constraints : ConstraintSet) : Except Fault (Option (SearchReport Plan)) := do
  let a ← element s.agents.toArray agent
  let table ← element s.tables.toArray agent
  Plan.Strict.search sums rounds s.env a table constraints (budget.searchDeadline clock search)

def planAll (sums : Sums) (s : Solver) (rounds : Nat) (clock : Clock) (budget : Budget) :
    (agents : List Nat) → Stats → Except Fault (Option (Except SearchError (List Plan) × Stats))
  | [], stats => return some (.ok [], stats)
  | agent :: rest, stats => do
    let some report ← plan sums s rounds clock budget stats.searches agent (.empty agent) | return none
    let stats := stats.recordLowLevel report.counters
    match report.result with
    | .error e => return some (.error e, stats)
    | .ok plan =>
      let some (plans, stats) ← planAll sums s rounds clock budget rest stats | return none
      return some (plans.map (plan :: ·), stats)

def buildChild (sums : Sums) (s : Solver) (rounds : Nat) (clock : Clock) (budget : Budget) (search : Nat)
    (node : TreeNode) (c : Constraint) : Except Fault (Option Child) := do
  let set ← TreeNode.Strict.extend node c
  let some report ← plan sums s rounds clock budget search c.agent set | return none
  return some ⟨← TreeNode.Strict.adopt sums node c.agent set report.result, report.counters⟩

def buildChildren (sums : Sums) (s : Solver) (rounds : Nat) (clock : Clock) (budget : Budget) (search : Nat)
    (node : TreeNode) (conflict : Conflict) : Except Fault (Option (List Child)) := do
  let some first ← buildChild sums s rounds clock budget search node conflict.constraints.1 | return none
  let some second ← buildChild sums s rounds clock budget (search + 1) node conflict.constraints.2 | return none
  return some [first, second]

def absorb (s : Solver) (t : Progress) (child : Child) : Except Fault (Round Progress SolveReport) := do
  let t := { t with stats := t.stats.recordGeneration.recordLowLevel child.counters }
  match child.result with
  | .ok none => return .next { t with stats := t.stats.recordEvaluation }
  | .ok (some node) =>
    let t := { t with stats := t.stats.recordEvaluation, best := better t.best node, created := t.created + 1 }
    match ← Queue.Strict.insert t.waiting t.created node with
    | .ok waiting => return .next { t with waiting := waiting }
    | .error e => return t.finish (.error (.search (.queue e))) []
  | .error .budgetExceeded =>
    return t.finish (.error (s.budgetExceeded (some t.best))) [.warn "budget exceeded during low-level search"]
  | .error e => return t.finish (.error (.search e)) []

def absorbAll (s : Solver) (t : Progress) : List Child → Except Fault (Round Progress SolveReport)
  | [] => return .next t
  | child :: rest => do
    match ← absorb s t child with
    | .next t => absorbAll s t rest
    | .done report => return .done report

def round (sums : Sums) (s : Solver) (rounds : Nat) (clock : Clock) (budget : Budget) (t : Progress) :
    Except Fault (Option (Round Progress SolveReport)) := do
  let k := t.stats.high.expanded
  if (budget.roundDeadline clock).expired k || budget.expansionsExhausted k then
    return some (t.finish (.error (s.budgetExceeded (some t.best))) [.warn s!"budget exceeded after {k} expansions"])
  else
    match ← Queue.Strict.popMin t.waiting with
    | .error _ => return some (t.finish (.error .noSolutionFound) [])
    | .ok ((_, node), waiting) =>
      match node.firstConflict? with
      | none => return some (t.finish (.ok (s.toSolution node)) [])
      | some conflict =>
        let some children ← buildChildren sums s rounds clock budget t.stats.searches node conflict | return none
        let lap := (t.stopwatch.start lowLevelPhase (clock.atRound k)).stop lowLevelPhase (clock.atRound (k + 1))
        return some (← absorbAll s
          { t with waiting := waiting, stats := t.stats.recordExpansion, stopwatch := lap.2 } children)

def plant (sums : Sums) (s : Solver) (rounds : Nat) (clock : Clock) (budget : Budget) (stopwatch : Stopwatch) :
    Except Fault (Option (Round Progress SolveReport)) := do
  let some (plans, stats) ← planAll sums s rounds clock budget (List.range s.agents.length) .zero | return none
  let stopwatch := ((stopwatch.start lowLevelPhase 0).stop lowLevelPhase (clock.atRound 0)).2
  let fail (failure : Failure) : Round Progress SolveReport := .done ⟨.error failure, stats, stopwatch, []⟩
  match plans with
  | .error .noPathFound => return some (fail .noSolutionFound)
  | .error .budgetExceeded => return some (fail (s.budgetExceeded none))
  | .error e => return some (fail (.search e))
  | .ok plans =>
    let root ← TreeNode.Strict.root sums s.costType plans
    match ← Queue.Strict.insert .empty 0 root with
    | .error e => return some (fail (.search (.queue e)))
    | .ok waiting =>
      return some (.next { waiting, created := 0, best := root, stats := stats.recordGeneration, stopwatch })

def launch (sums : Sums) (s : Solver) (rounds : Nat) (clock : Clock) (budget : Budget) :
    Except Fault (Option (Round Progress SolveReport)) :=
  let stopwatch := Stopwatch.fresh.start planningPhase 0
  match s.validate with
  | .error invalid => return some (.done ⟨.error (.invalidInput invalid.message), .zero, stopwatch, []⟩)
  | .ok () => plant sums s rounds clock budget stopwatch

def search (sums : Sums) (s : Solver) (rounds : Nat) (clock : Clock) (budget : Budget) :
    Except Fault (Option SolveReport) := do
  let some first ← launch sums s rounds clock budget | return none
  let report ←
    match first with
    | .done report => pure (some report)
    | .next t => Loop.Strict.run (round sums s rounds clock budget) rounds t
  return report.map fun report => conclude (clock.atRound report.stats.high.expanded) report

/-! ### No fault -/

variable {s : Solver} {rounds : Nat} {clock : Clock} {budget : Budget} {node : TreeNode}

theorem measureAll_eq (rounds : Nat) (env : Environment) (agents : List Agent) :
    measureAll .numbers rounds env agents =
      .ok (agents.mapM fun agent => DistanceTable.build rounds env agent.goal) := by
  induction agents with
  | nil => rfl
  | cons agent rest ih =>
    rw [measureAll, DistanceTable.Strict.build_eq, ok_bind, List.mapM_cons]
    cases DistanceTable.build rounds env agent.goal with
    | none => rfl
    | some table =>
      dsimp only
      rw [ih, ok_bind]
      cases rest.mapM fun agent => DistanceTable.build rounds env agent.goal <;> rfl

theorem prepare_eq (rounds : Nat) (env : Environment) (agents : List Agent) :
    prepare .numbers rounds env agents = .ok (Solver.prepare rounds env agents) := by
  rw [prepare, measureAll_eq, ok_bind, Solver.prepare]
  cases agents.mapM fun agent => DistanceTable.build rounds env agent.goal <;> rfl

theorem plan_eq {i : Nat} {agent : Agent} {table : DistanceTable} (ha : s.agents[i]? = some agent)
    (ht : s.tables[i]? = some table) (search : Nat) (set : ConstraintSet) :
    plan .numbers s rounds clock budget search i set = .ok (s.plan rounds clock budget search i set) := by
  rw [plan, element_eq (a := agent) (by simpa using ha), ok_bind, element_eq (a := table) (by simpa using ht), ok_bind,
    Plan.Strict.search_eq, Solver.plan, ha, ht]

/-- An agent without a table stops the solve. -/
example (env : Environment) (agent : Agent) :
    plan .numbers ⟨env, [agent], [], .makespan, false⟩ 10 .still .unlimited 0 0 (.empty 0) =
      .error (.outOfRange 0 0) := rfl

theorem planAll_eq (hlen : s.tables.length = s.agents.length) {is : List Nat} (his : ∀ i ∈ is, i < s.agents.length)
    (stats : Stats) :
    planAll .numbers s rounds clock budget is stats = .ok (s.planAll rounds clock budget is stats) := by
  induction is generalizing stats with
  | nil => rfl
  | cons i rest ih =>
    obtain ⟨hi, hrest⟩ := List.forall_mem_cons.mp his
    rw [planAll, plan_eq (List.getElem?_eq_getElem hi) (List.getElem?_eq_getElem (hlen ▸ hi)), ok_bind, Solver.planAll]
    cases s.plan rounds clock budget stats.searches i (.empty i) with
    | none => rfl
    | some report =>
      simp only [Option.bind_eq_bind, Option.bind_some]
      cases report.result with
      | error e => rfl
      | ok plan =>
        dsimp only
        rw [ih hrest, ok_bind]
        cases s.planAll rounds clock budget rest (stats.recordLowLevel report.counters) <;> rfl

theorem root_eq (costType : CostType) (plans : List Plan) :
    TreeNode.Strict.root .numbers costType plans = .ok (.root costType plans) := by
  rw [TreeNode.Strict.root, Conflict.Strict.detect_eq, ok_bind, CostType.Strict.combine_eq]
  rfl

theorem adopt_eq {i : Nat} (hpath : i < node.paths.length) (hcost : i < node.costs.length) (set : ConstraintSet)
    (result : Except SearchError Plan) :
    TreeNode.Strict.adopt .numbers node i set result = .ok (node.adopt i set result) := by
  cases result with
  | ok plan =>
    rw [TreeNode.Strict.adopt, TreeNode.Strict.replace, element_of_lt (by simpa using hpath), ok_bind,
      element_of_lt (by simpa using hcost), ok_bind, Conflict.Strict.detect_eq, ok_bind, CostType.Strict.combine_eq]
    rfl
  | error e => cases e <;> rfl

/-- The agents of a conflict have all that a child of the node takes. -/
theorem buildChild_eq (hf : s.Fits node) {c : Conflict} (hc : c ∈ node.conflicts) {k : Constraint}
    (hk : k = c.constraints.1 ∨ k = c.constraints.2) (search : Nat) :
    buildChild .numbers s rounds clock budget search node k = .ok (s.buildChild rounds clock budget search node k) := by
  obtain ⟨agent, table, set, old, hh, -⟩ := hf.fresh hc hk
  have hset : TreeNode.Strict.extend node k = .ok (set.insert k) := by
    rw [TreeNode.Strict.extend, element_eq (a := set) (by simpa using hh.set_eq)]
    rfl
  rw [buildChild, hset, ok_bind, plan_eq hh.agent_eq hh.table_eq, ok_bind, hh.buildChild_eq]
  cases s.plan rounds clock budget search k.agent (set.insert k) with
  | none => rfl
  | some report =>
    dsimp only
    rw [adopt_eq (List.getElem?_eq_some_iff.mp hh.path_eq).1 (List.getElem?_eq_some_iff.mp hh.cost_eq).1]
    rfl

theorem buildChildren_eq (hf : s.Fits node) {c : Conflict} (hc : c ∈ node.conflicts) (search : Nat) :
    buildChildren .numbers s rounds clock budget search node c =
      .ok (s.buildChildren rounds clock budget search node c) := by
  rw [buildChildren, buildChild_eq hf hc (.inl rfl), ok_bind, buildChild_eq hf hc (.inr rfl), Solver.buildChildren_eq]
  cases s.buildChild rounds clock budget search node c.constraints.1 with
  | none => rfl
  | some first => cases s.buildChild rounds clock budget (search + 1) node c.constraints.2 <;> rfl

theorem absorb_eq (s : Solver) (t : Progress) (child : Child) : absorb s t child = .ok (s.absorb t child) := by
  unfold absorb Solver.absorb
  cases child.result with
  | error e => cases e <;> rfl
  | ok built =>
    cases built with
    | none => rfl
    | some node =>
      dsimp only
      rw [Queue.Strict.insert_eq, ok_bind]
      cases t.waiting.insert (t.created + 1) node <;> rfl

theorem absorbAll_eq (s : Solver) (t : Progress) (children : List Child) :
    absorbAll s t children = .ok (s.absorbAll t children) := by
  induction children generalizing t with
  | nil => rfl
  | cons child rest ih =>
    rw [absorbAll, absorb_eq, ok_bind, Solver.absorbAll]
    cases s.absorb t child with
    | next t => exact ih t
    | done report => rfl

theorem round_eq {t : Progress} (ht : s.Growing t) :
    round .numbers s rounds clock budget t = .ok (s.round rounds clock budget t) := by
  unfold round Solver.round
  dsimp only
  split
  case isTrue => rfl
  case isFalse =>
    rw [Queue.Strict.popMin_eq, ok_bind]
    cases hpop : t.waiting.popMin with
    | error err => rfl
    | ok popped =>
      obtain ⟨⟨key, node⟩, waiting⟩ := popped
      have hf : s.Fits node := ht.fits node ((ht.popMin hpop).1.mem_iff.mpr List.mem_cons_self)
      dsimp only
      cases hfirst : node.firstConflict? with
      | none => rfl
      | some conflict =>
        dsimp only
        rw [buildChildren_eq hf (List.mem_of_head? hfirst), ok_bind]
        cases s.buildChildren rounds clock budget t.stats.searches node conflict with
        | none => rfl
        | some children =>
          dsimp only
          rw [absorbAll_eq]
          rfl

theorem plant_eq (hlen : s.tables.length = s.agents.length) (stopwatch : Stopwatch) :
    plant .numbers s rounds clock budget stopwatch = .ok (s.plant rounds clock budget stopwatch) := by
  rw [plant, planAll_eq hlen fun i hi => List.mem_range.mp hi, ok_bind, Solver.plant]
  cases s.planAll rounds clock budget (List.range s.agents.length) .zero with
  | none => rfl
  | some planned =>
    obtain ⟨plans, stats⟩ := planned
    simp only [Option.bind_eq_bind, Option.bind_some]
    cases plans with
    | error e => cases e <;> rfl
    | ok plans =>
      dsimp only
      rw [root_eq, ok_bind, Queue.Strict.insert_eq, ok_bind]
      cases (Queue.empty : Queue Nat TreeNode).insert 0 (TreeNode.root s.costType plans) <;> rfl

theorem launch_eq (hlen : s.tables.length = s.agents.length) :
    launch .numbers s rounds clock budget = .ok (s.launch rounds clock budget) := by
  unfold launch Solver.launch
  cases s.validate with
  | error invalid => rfl
  | ok fit => exact plant_eq hlen _

/-- A solver with a table for each of its agents comes to the end strictly. -/
theorem search_eq (hlen : s.tables.length = s.agents.length) :
    search .numbers s rounds clock budget = .ok (s.search rounds clock budget) := by
  rw [search, launch_eq hlen, ok_bind, Solver.search]
  cases hlaunch : s.launch rounds clock budget with
  | none => rfl
  | some first =>
    simp only [Option.bind_eq_bind, Option.bind_some]
    cases first with
    | done report => rfl
    | next t =>
      have hrun : Loop.Strict.run (round .numbers s rounds clock budget) rounds t =
          .ok (Loop.run (s.round rounds clock budget) rounds t) :=
        Loop.Strict.run_eq (fun _ ht => round_eq ht) (fun _ _ ht hr => (turn_of_round ht hr).growing) rounds
          (launched_of_launch hlaunch).growing
      dsimp only
      rw [hrun, ok_bind]
      cases Loop.run (s.round rounds clock budget) rounds t <;> rfl

/-! ### Rounds -/

theorem measureAll_awaits (sums : Sums) (env : Environment) (agents : List Agent) {n m : Nat} (hnm : n ≤ m) :
    Awaits (measureAll sums n env agents) (measureAll sums m env agents) := by
  induction agents with
  | nil => exact .refl _
  | cons agent rest ih =>
    exact (DistanceTable.Strict.build_awaits sums env agent.goal hnm).bind rfl fun _ => ih.bind_right rfl

theorem prepare_awaits (sums : Sums) (env : Environment) (agents : List Agent) {n m : Nat} (hnm : n ≤ m) :
    Awaits (prepare sums n env agents) (prepare sums m env agents) :=
  (measureAll_awaits sums env agents hnm).bind_right rfl

theorem plan_awaits (sums : Sums) (s : Solver) (clock : Clock) (budget : Budget) (search i : Nat) (set : ConstraintSet)
    {n m : Nat} (hnm : n ≤ m) :
    Awaits (plan sums s n clock budget search i set) (plan sums s m clock budget search i set) :=
  .bind_left _ fun agent => .bind_left _ fun table => Plan.Strict.search_awaits sums s.env agent table set _ hnm

theorem planAll_awaits (sums : Sums) (s : Solver) (clock : Clock) (budget : Budget) (is : List Nat) (stats : Stats)
    {n m : Nat} (hnm : n ≤ m) :
    Awaits (planAll sums s n clock budget is stats) (planAll sums s m clock budget is stats) := by
  induction is generalizing stats with
  | nil => exact .refl _
  | cons i rest ih =>
    refine (plan_awaits sums s clock budget _ i _ hnm).bind rfl fun report => ?_
    dsimp only
    cases report.result with
    | error e => exact .refl _
    | ok plan => exact (ih _).bind_right rfl

theorem buildChild_awaits (sums : Sums) (s : Solver) (clock : Clock) (budget : Budget) (search : Nat) (node : TreeNode)
    (c : Constraint) {n m : Nat} (hnm : n ≤ m) :
    Awaits (buildChild sums s n clock budget search node c) (buildChild sums s m clock budget search node c) :=
  .bind_left _ fun set => (plan_awaits sums s clock budget search c.agent set hnm).bind_right rfl

theorem buildChildren_awaits (sums : Sums) (s : Solver) (clock : Clock) (budget : Budget) (search : Nat)
    (node : TreeNode) (c : Conflict) {n m : Nat} (hnm : n ≤ m) :
    Awaits (buildChildren sums s n clock budget search node c) (buildChildren sums s m clock budget search node c) :=
  (buildChild_awaits sums s clock budget search node _ hnm).bind rfl fun _ =>
    (buildChild_awaits sums s clock budget (search + 1) node _ hnm).bind_right rfl

theorem round_awaits (sums : Sums) (s : Solver) (clock : Clock) (budget : Budget) (t : Progress) {n m : Nat}
    (hnm : n ≤ m) : Awaits (round sums s n clock budget t) (round sums s m clock budget t) := by
  refine .ite (.refl _) (.bind_left _ fun popped => ?_)
  cases popped with
  | error err => exact .refl _
  | ok popped =>
    dsimp only
    cases popped.1.2.firstConflict? with
    | none => exact .refl _
    | some conflict => exact (buildChildren_awaits sums s clock budget _ _ conflict hnm).bind_right rfl

theorem plant_awaits (sums : Sums) (s : Solver) (clock : Clock) (budget : Budget) (stopwatch : Stopwatch) {n m : Nat}
    (hnm : n ≤ m) : Awaits (plant sums s n clock budget stopwatch) (plant sums s m clock budget stopwatch) :=
  (planAll_awaits sums s clock budget _ _ hnm).bind_right rfl

theorem launch_awaits (sums : Sums) (s : Solver) (clock : Clock) (budget : Budget) {n m : Nat} (hnm : n ≤ m) :
    Awaits (launch sums s n clock budget) (launch sums s m clock budget) := by
  unfold launch
  dsimp only
  cases s.validate with
  | error invalid => exact .refl _
  | ok fit => exact plant_awaits sums s clock budget _ hnm

theorem search_awaits (sums : Sums) (s : Solver) (clock : Clock) (budget : Budget) {n m : Nat} (hnm : n ≤ m) :
    Awaits (search sums s n clock budget) (search sums s m clock budget) := by
  refine (launch_awaits sums s clock budget hnm).bind rfl fun first => ?_
  cases first with
  | done report => exact .refl _
  | next t =>
    exact (Loop.Strict.run_awaits (fun t => round_awaits sums s clock budget t hnm) hnm t).bind_right rfl

/-! ### Sums -/

theorem measureAll_lags (sums : Sums) (rounds : Nat) (env : Environment) (agents : List Agent) :
    Lags (measureAll .checked rounds env agents) (measureAll sums rounds env agents) := by
  induction agents with
  | nil => exact .refl _
  | cons agent rest ih =>
    refine (DistanceTable.Strict.build_lags sums rounds env agent.goal).bind fun table => ?_
    cases table with
    | none => exact .refl _
    | some table => exact ih.bind_right _

theorem prepare_lags (sums : Sums) (rounds : Nat) (env : Environment) (agents : List Agent) :
    Lags (prepare .checked rounds env agents) (prepare sums rounds env agents) :=
  (measureAll_lags sums rounds env agents).bind_right _

theorem plan_lags (sums : Sums) (s : Solver) (rounds : Nat) (clock : Clock) (budget : Budget) (search i : Nat)
    (set : ConstraintSet) :
    Lags (plan .checked s rounds clock budget search i set) (plan sums s rounds clock budget search i set) :=
  .bind_left _ fun agent => .bind_left _ fun table => Plan.Strict.search_lags sums rounds s.env agent table set _

theorem planAll_lags (sums : Sums) (s : Solver) (rounds : Nat) (clock : Clock) (budget : Budget) (is : List Nat)
    (stats : Stats) :
    Lags (planAll .checked s rounds clock budget is stats) (planAll sums s rounds clock budget is stats) := by
  induction is generalizing stats with
  | nil => exact .refl _
  | cons i rest ih =>
    refine (plan_lags sums s rounds clock budget _ i _).bind fun report => ?_
    cases report with
    | none => exact .refl _
    | some report =>
      dsimp only
      cases report.result with
      | error e => exact .refl _
      | ok plan => exact (ih _).bind_right _

theorem root_lags (sums : Sums) (costType : CostType) (plans : List Plan) :
    Lags (TreeNode.Strict.root .checked costType plans) (TreeNode.Strict.root sums costType plans) :=
  .bind_left _ fun _ => (CostType.Strict.combine_lags sums costType _).bind_right _

theorem adopt_lags (sums : Sums) (node : TreeNode) (i : Nat) (set : ConstraintSet) (result : Except SearchError Plan) :
    Lags (TreeNode.Strict.adopt .checked node i set result) (TreeNode.Strict.adopt sums node i set result) := by
  cases result with
  | ok plan =>
    have hreplace : Lags (TreeNode.Strict.replace .checked node i set plan)
        (TreeNode.Strict.replace sums node i set plan) :=
      .bind_left _ fun _ => .bind_left _ fun _ => .bind_left _ fun _ =>
        (CostType.Strict.combine_lags sums node.costType _).bind_right _
    exact hreplace.bind_right _
  | error e => cases e <;> exact .refl _

theorem buildChild_lags (sums : Sums) (s : Solver) (rounds : Nat) (clock : Clock) (budget : Budget) (search : Nat)
    (node : TreeNode) (c : Constraint) :
    Lags (buildChild .checked s rounds clock budget search node c)
      (buildChild sums s rounds clock budget search node c) := by
  refine .bind_left _ fun set => (plan_lags sums s rounds clock budget search c.agent set).bind fun report => ?_
  cases report with
  | none => exact .refl _
  | some report => exact (adopt_lags sums node c.agent set report.result).bind_right _

theorem buildChildren_lags (sums : Sums) (s : Solver) (rounds : Nat) (clock : Clock) (budget : Budget) (search : Nat)
    (node : TreeNode) (c : Conflict) :
    Lags (buildChildren .checked s rounds clock budget search node c)
      (buildChildren sums s rounds clock budget search node c) := by
  refine (buildChild_lags sums s rounds clock budget search node c.constraints.1).bind fun first => ?_
  cases first with
  | none => exact .refl _
  | some first =>
    exact (buildChild_lags sums s rounds clock budget (search + 1) node c.constraints.2).bind_right _

theorem round_lags (sums : Sums) (s : Solver) (rounds : Nat) (clock : Clock) (budget : Budget) (t : Progress) :
    Lags (round .checked s rounds clock budget t) (round sums s rounds clock budget t) := by
  refine .ite (.refl _) (.bind_left _ fun popped => ?_)
  cases popped with
  | error err => exact .refl _
  | ok popped =>
    dsimp only
    cases popped.1.2.firstConflict? with
    | none => exact .refl _
    | some conflict => exact (buildChildren_lags sums s rounds clock budget _ _ conflict).bind_right _

theorem plant_lags (sums : Sums) (s : Solver) (rounds : Nat) (clock : Clock) (budget : Budget) (stopwatch : Stopwatch) :
    Lags (plant .checked s rounds clock budget stopwatch) (plant sums s rounds clock budget stopwatch) := by
  refine (planAll_lags sums s rounds clock budget _ _).bind fun planned => ?_
  cases planned with
  | none => exact .refl _
  | some planned =>
    obtain ⟨plans, stats⟩ := planned
    cases plans with
    | error e => cases e <;> exact .refl _
    | ok plans => exact (root_lags sums s.costType plans).bind_right _

theorem launch_lags (sums : Sums) (s : Solver) (rounds : Nat) (clock : Clock) (budget : Budget) :
    Lags (launch .checked s rounds clock budget) (launch sums s rounds clock budget) := by
  unfold launch
  dsimp only
  cases s.validate with
  | error invalid => exact .refl _
  | ok fit => exact plant_lags sums s rounds clock budget _

theorem search_lags (sums : Sums) (s : Solver) (rounds : Nat) (clock : Clock) (budget : Budget) :
    Lags (search .checked s rounds clock budget) (search sums s rounds clock budget) := by
  refine (launch_lags sums s rounds clock budget).bind fun first => ?_
  cases first with
  | none => exact .refl _
  | some first =>
    cases first with
    | done report => exact .refl _
    | next t =>
      exact (Loop.Strict.run_lags (round_lags sums s rounds clock budget) rounds t).bind_right _

end Strict

/-- A search is never stopped by a low-level search that fails in any other way than it may. -/
theorem not_failed_of_search {s : Solver} {rounds : Nat} {clock : Clock} {budget : Budget}
    (hlen : s.tables.length = s.agents.length) {report : SolveReport}
    (h : s.search rounds clock budget = some report) (e : SearchError) : report.result ≠ .error (.search e) := by
  obtain ⟨r, hr, hend⟩ := search_cases (I := fun _ => True) (fun _ => trivial) (fun _ _ _ => trivial) h
  rw [hr]
  intro hres
  rcases hend with hl | ⟨t, -, -, hturn⟩
  · cases hl with
    | untabled _ hi htable =>
      rw [List.getElem?_eq_none_iff] at htable
      omega
    | unfit hres' _ => cases hres.symm.trans hres'
    | barren hres' _ _ _ _ => cases hres.symm.trans hres'
    | outOfBudget hres' _ => cases hres.symm.trans hres'
  · cases hturn with
    | outOfBudget hres' _ => cases hres.symm.trans hres'
    | exhausted hres' _ => cases hres.symm.trans hres'
    | solved hres' _ _ _ => cases hres.symm.trans hres'

end Solver

/-! ### The whole library -/

/-- Nothing fails within. Whatever is asked of a queue, of distance tables, of a search in any state space, of the
    planning of an agent and of a solve: strictly, it comes to the same as without taking anything for granted, and
    what is reported is never a fault of the queue or of an index. -/
theorem Strict.faultless :
    (∀ {κ π ρ : Type} [DecidableEq κ] [Hashable κ] [Prioritized π ρ] [LT ρ] [DecidableLT ρ] [DecidableEq ρ]
        [IsStrictTotalOrder ρ (· < ·)] (commands : List (Queue.Command κ π)),
      Queue.Strict.serve .empty commands = .ok (Queue.serve Queue.respond .empty commands)) ∧
    (∀ (rounds : Nat) (env : Environment) (goal : Position),
      DistanceTable.Strict.build .numbers rounds env goal = .ok (DistanceTable.build rounds env goal)) ∧
    (∀ {σ : Type} [BEq σ] [Hashable σ] [LawfulBEq σ] (rounds : Nat) (problem : Problem σ) (prune : Pruning σ)
        (deadline : Deadline),
      BestFirst.Strict.search .numbers rounds problem prune deadline =
        .ok (BestFirst.search rounds problem prune deadline) ∧
      ∀ report ∈ BestFirst.search rounds problem prune deadline, ∀ e, e.Internal → report.result ≠ .error e) ∧
    (∀ (rounds : Nat) (env : Environment) (agent : Agent) (table : DistanceTable) (constraints : ConstraintSet)
        (deadline : Deadline),
      Plan.Strict.search .numbers rounds env agent table constraints deadline =
        .ok (Plan.search rounds env agent table constraints deadline) ∧
      ∀ report ∈ Plan.search rounds env agent table constraints deadline, ∀ e, e.Internal → report.result ≠ .error e) ∧
    ∀ (rounds : Nat) (env : Environment) (agents : List Agent),
      Solver.Strict.prepare .numbers rounds env agents = .ok (Solver.prepare rounds env agents) ∧
      ∀ solver ∈ Solver.prepare rounds env agents, ∀ (costType : CostType) (parallel : Bool) (rounds' : Nat)
          (clock : Clock) (budget : Budget),
        let s := { solver with costType := costType, parallelBranching := parallel }
        Solver.Strict.search .numbers s rounds' clock budget = .ok (s.search rounds' clock budget) ∧
        ∀ report ∈ s.search rounds' clock budget, ∀ e, report.result ≠ .error (.search e) := by
  refine ⟨fun commands => Queue.Strict.serve_eq Queue.refines_empty commands, DistanceTable.Strict.build_eq,
    fun rounds problem prune deadline => ⟨BestFirst.Strict.search_eq rounds problem prune deadline,
      fun report h e he => BestFirst.not_internal_of_search h he⟩,
    fun rounds env agent table constraints deadline =>
      ⟨Plan.Strict.search_eq rounds env agent table constraints deadline,
        fun report h e he => Plan.not_internal_of_search h he⟩, fun rounds env agents => ?_⟩
  refine ⟨Solver.Strict.prepare_eq rounds env agents, fun solver hprepare costType parallel rounds' clock budget => ?_⟩
  obtain ⟨-, -, hp⟩ := Solver.prepared_of_prepare hprepare
  have hlen : solver.tables.length = solver.agents.length := hp.length_eq.symm
  exact ⟨Solver.Strict.search_eq (s := { solver with costType := costType, parallelBranching := parallel }) hlen,
    fun report h e => Solver.not_failed_of_search
      (s := { solver with costType := costType, parallelBranching := parallel }) hlen h e⟩

/-- The solve in the bay, and a history of a queue in which entries move both ways, as they come out strictly. -/
theorem Strict.faultless_bay : (∃ solver report solution,
      Solver.Strict.prepare .numbers 100 Solver.bay.environment Solver.bayAgents = .ok (some solver) ∧
      Solver.Strict.search .numbers { solver with costType := .sumOfCosts, parallelBranching := true } 100 .still
        .unlimited = .ok (some report) ∧ report.result = .ok solution ∧ solution.cost = 5) ∧
    (Queue.Strict.serve (Queue.empty : Queue Nat Nat) [.insert 1 5, .insert 2 7, .insert 3 6, .update 2 (· - 4),
      .remove 3, .get 2, .popMin, .popMin, .popMin]).map Prod.fst =
    .ok [.done (.ok ()), .done (.ok ()), .done (.ok ()), .done (.ok ()), .payload (some 6), .payload (some 3),
      .entry (.ok (2, 3)), .entry (.ok (1, 5)), .entry (.error .empty)] := by
  obtain ⟨hqueue, -, -, -, hsolve⟩ := Strict.faultless
  obtain ⟨solver, report, solution, hprep, hsearch, hok, hcost⟩ := Solver.search_bay
  obtain ⟨hprepare, hstrict⟩ := hsolve 100 Solver.bay.environment Solver.bayAgents
  obtain ⟨hstrict, -⟩ := hstrict solver hprep .sumOfCosts true 100 .still .unlimited
  refine ⟨⟨solver, report, solution, ?_, ?_, hok, hcost⟩, ?_⟩
  · rw [hprepare, hprep]
  · rw [← hsearch]
    exact hstrict
  · rw [hqueue]
    cbv

end Mapf
