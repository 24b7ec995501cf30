import Mapf.Proofs.Solutions.Priced
import Mapf.Proofs.Strict.Tree
import Mapf.Proofs.Tree.Monotone
import Mapf.Proofs.Words.Plans

/-! # Solves in words

A solve adds up the distances to the goals of its agents, the costs and times of all routes that it looks at, and the
costs of the agents of every node. As long as all these sums are words, it does not matter how a machine adds: the nodes
that the solve comes through and the solution that it reports are those of the solve with numbers
(`Solver.Strict.solve_eq_of_inWords`, `Solver.Strict.states_eq_of_inWords`). So a solution is cheapest and costs what
its paths do, solvable problems are solved, and the nodes get no cheaper along the tree. -/

namespace Mapf

open Mapf.Strict

namespace Solver

variable {env : Environment} {agents : List Agent} {costType : CostType} {parallel : Bool} {rounds count : Nat}
  {clock : Clock} {budget : Budget} {sums : Sums} {s solver : Solver} {t : Progress} {report : SolveReport}
  {solution : Solution}

namespace Strict

/-- Measures the distances to the goals of agents and then searches for a solution. -/
def solve (sums : Sums) (rounds : Nat) (env : Environment) (agents : List Agent) (costType : CostType) (parallel : Bool)
    (clock : Clock) (budget : Budget) : Except Fault (Option SolveReport) := do
  let some solver ← prepare sums rounds env agents | return none
  search sums { solver with costType := costType, parallelBranching := parallel } rounds clock budget

theorem prepare_eq_of_inWords (fits : InWords (prepare .checked rounds env agents)) (sums : Sums) :
    prepare sums rounds env agents = .ok (Solver.prepare rounds env agents) :=
  InWords.eq_ok (f := fun sums => prepare sums rounds env agents) fits
    (fun sums => prepare_lags sums rounds env agents) (prepare_eq rounds env agents) sums

theorem solve_eq_of_inWords (fits : InWords (solve .checked rounds env agents costType parallel clock budget))
    (sums : Sums) : solve sums rounds env agents costType parallel clock budget =
      .ok ((Solver.prepare rounds env agents).bind fun solver =>
        Solver.search { solver with costType := costType, parallelBranching := parallel } rounds clock budget) := by
  refine InWords.eq_ok (f := fun sums => solve sums rounds env agents costType parallel clock budget) fits
    (fun sums => ?_) ?_ sums
  · refine (prepare_lags sums rounds env agents).bind fun prepared => ?_
    cases prepared with
    | none => exact .refl _
    | some solver => exact search_lags sums _ rounds clock budget
  · rw [solve, prepare_eq, ok_bind]
    cases hprep : Solver.prepare rounds env agents with
    | none => rfl
    | some solver =>
      obtain ⟨-, -, hp⟩ := prepared_of_prepare hprep
      exact search_eq (s := { solver with costType := costType, parallelBranching := parallel }) hp.length_eq.symm

/-- A report in words is that of a solver whose tables are finished. -/
theorem solve_of_inWords (fits : InWords (solve .checked rounds env agents costType parallel clock budget))
    (h : solve sums rounds env agents costType parallel clock budget = .ok (some report)) :
    ∃ solver, Solver.prepare rounds env agents = some solver ∧
      Solver.search { solver with costType := costType, parallelBranching := parallel } rounds clock budget =
        some report :=
  Option.bind_eq_some_iff.mp (Except.ok.inj ((solve_eq_of_inWords fits sums).symm.trans h))

theorem solve_awaits (sums : Sums) (env : Environment) (agents : List Agent) (costType : CostType) (parallel : Bool)
    (clock : Clock) (budget : Budget) {n m : Nat} (hnm : n ≤ m) :
    Awaits (solve sums n env agents costType parallel clock budget)
      (solve sums m env agents costType parallel clock budget) :=
  (prepare_awaits sums env agents hnm).bind rfl fun _ => search_awaits sums _ clock budget hnm

/-! ### The course of a solve -/

/-- The states of a search in front of its first `count` rounds, which are all taken. -/
def states (sums : Sums) (s : Solver) (rounds : Nat) (clock : Clock) (budget : Budget) (count : Nat) :
    Except Fault (List Progress) := do
  match ← launch sums s rounds clock budget with
  | some (.next t) => Loop.Strict.states (round sums s rounds clock budget) count t
  | _ => return []

/-- The children that the next round builds, each with its parent. -/
def births (sums : Sums) (s : Solver) (rounds : Nat) (clock : Clock) (budget : Budget) (t : Progress) :
    Except Fault (List (TreeNode × TreeNode)) := do
  let some parent := t.taken? clock budget | return []
  let some conflict := parent.firstConflict? | return []
  let some children ← buildChildren sums s rounds clock budget t.stats.searches parent conflict | return []
  return children.filterMap fun child => child.result.toOption.join.map (parent, ·)

/-- The children that are built in the first `count` rounds, each with its parent. -/
def families (sums : Sums) (s : Solver) (rounds : Nat) (clock : Clock) (budget : Budget) (count : Nat) :
    Except Fault (List (TreeNode × TreeNode)) := do
  let all ← states sums s rounds clock budget count
  return (← all.mapM (births sums s rounds clock budget)).flatten

theorem states_lags (sums : Sums) (s : Solver) (rounds : Nat) (clock : Clock) (budget : Budget) (count : Nat) :
    Lags (states .checked s rounds clock budget count) (states sums s rounds clock budget count) := by
  refine (launch_lags sums s rounds clock budget).bind fun first => ?_
  rcases first with _ | report | t
  · exact .refl _
  · exact Loop.Strict.states_lags (round_lags sums s rounds clock budget) count _
  · exact .refl _

theorem states_eq (hlen : s.tables.length = s.agents.length) :
    states .numbers s rounds clock budget count = .ok (s.states rounds clock budget count) := by
  rw [states, launch_eq hlen, ok_bind, Solver.states]
  rcases hlaunch : s.launch rounds clock budget with _ | t | report
  · rfl
  · exact Loop.Strict.states_eq (fun _ ht => round_eq ht) (fun _ _ ht hr => (turn_of_round ht hr).growing) count
      (launched_of_launch hlaunch).growing
  · rfl

/-- All rounds of a search in words are taken. -/
theorem inWords_states (fits : InWords (search .checked s rounds clock budget)) :
    InWords (states .checked s rounds clock budget rounds) := by
  refine fits.bind fun first hrest => ?_
  rcases first with _ | t | report
  · exact .of_ok rfl
  · exact Loop.Strict.inWords_states hrest.of_bind
  · exact .of_ok rfl

theorem births_lags (sums : Sums) (s : Solver) (rounds : Nat) (clock : Clock) (budget : Budget) (t : Progress) :
    Lags (births .checked s rounds clock budget t) (births sums s rounds clock budget t) := by
  unfold births
  cases t.taken? clock budget with
  | none => exact .refl _
  | some parent =>
    dsimp only
    cases parent.firstConflict? with
    | none => exact .refl _
    | some conflict => exact (buildChildren_lags sums s rounds clock budget _ parent conflict).bind_right _

theorem births_eq (ht : s.Growing t) :
    births .numbers s rounds clock budget t = .ok (s.births rounds clock budget t) := by
  unfold births Solver.births
  cases htaken : t.taken? clock budget with
  | none => rfl
  | some parent =>
    dsimp only
    cases hfirst : parent.firstConflict? with
    | none => simp [hfirst]; rfl
    | some conflict =>
      have hf : s.Fits parent := ht.fits parent (ht.taken htaken).1
      dsimp only
      rw [buildChildren_eq hf (List.mem_of_head? hfirst), ok_bind]
      simp only [Option.bind_eq_bind, Option.bind_some, hfirst]
      cases s.buildChildren rounds clock budget t.stats.searches parent conflict <;> rfl

/-- What a round that is taken builds is in words. -/
theorem inWords_births {r : Option (Round Progress SolveReport)} (h : round .checked s rounds clock budget t = .ok r) :
    InWords (births .checked s rounds clock budget t) := by
  unfold births Progress.taken?
  unfold round at h
  dsimp only at h ⊢
  cases hcloses : (budget.roundDeadline clock).expired t.stats.high.expanded ||
      budget.expansionsExhausted t.stats.high.expanded with
  | true => exact .of_ok rfl
  | false =>
    simp only [hcloses, Bool.false_eq_true, ↓reduceIte, Queue.Strict.popMin_eq, ok_bind] at h ⊢
    cases hpop : t.waiting.popMin with
    | error e => exact .of_ok rfl
    | ok popped =>
      obtain ⟨⟨key, node⟩, waiting⟩ := popped
      rw [hpop] at h
      dsimp only [Except.toOption, Option.map_some] at h ⊢
      cases hfirst : node.firstConflict? with
      | none => exact .of_ok rfl
      | some conflict =>
        rw [hfirst] at h
        cases hchildren : buildChildren .checked s rounds clock budget t.stats.searches node conflict with
        | error e =>
          dsimp only at h
          rw [hchildren] at h
          cases h
        | ok children =>
          dsimp only
          rw [hchildren]
          cases children <;> exact .of_ok rfl

theorem round_ok_of_states {all : List Progress} (h : states .checked s rounds clock budget count = .ok all) :
    ∀ t ∈ all, ∃ r, round .checked s rounds clock budget t = .ok r := by
  unfold states at h
  cases hlaunch : launch .checked s rounds clock budget with
  | error e =>
    rw [hlaunch] at h
    cases h
  | ok first =>
    rw [hlaunch, ok_bind] at h
    rcases first with _ | t | report
    · cases h
      simp
    · exact Loop.Strict.round_ok_of_states h
    · cases h
      simp

theorem states_eq_of_inWords (hlen : s.tables.length = s.agents.length)
    (fits : InWords (search .checked s rounds clock budget)) (sums : Sums) :
    states sums s rounds clock budget rounds = .ok (s.states rounds clock budget rounds) :=
  InWords.eq_ok (f := fun sums => states sums s rounds clock budget rounds) (inWords_states fits)
    (fun sums => states_lags sums s rounds clock budget rounds) (states_eq hlen) sums

theorem families_eq_of_inWords (hlen : s.tables.length = s.agents.length)
    (fits : InWords (search .checked s rounds clock budget)) (sums : Sums) :
    families sums s rounds clock budget rounds = .ok (s.families rounds clock budget rounds) := by
  have hbirths : ∀ t ∈ s.states rounds clock budget rounds,
      births sums s rounds clock budget t = .ok (s.births rounds clock budget t) := by
    intro t ht
    obtain ⟨r, hround⟩ := round_ok_of_states (states_eq_of_inWords hlen fits .checked) t ht
    obtain ⟨hgrowing, -⟩ := forall_states (I := fun _ => True) (fun _ => trivial) (fun _ _ _ => trivial) t ht
    exact InWords.eq_ok (f := fun sums => births sums s rounds clock budget t) (inWords_births hround)
      (fun sums => births_lags sums s rounds clock budget t) (births_eq hgrowing) sums
  rw [families, states_eq_of_inWords hlen fits sums, ok_bind, mapM_eq hbirths, Solver.families, List.flatMap_def]
  rfl

end Strict

/-! ### Optimality -/

/-- In a lawful environment a solution of a solve in words costs no more than any joint plan, however the machine
    adds. -/
theorem cost_le_of_inWords (lawful : env.Lawful)
    (fits : InWords (Strict.solve .checked rounds env agents costType parallel clock budget))
    (h : Strict.solve sums rounds env agents costType parallel clock budget = .ok (some report))
    (ok : report.result = .ok solution) (plan : JointPlan env agents) :
    solution.cost ≤ costType.combine plan.costs := by
  obtain ⟨solver, hprep, hsearch⟩ := Strict.solve_of_inWords fits h
  exact cost_le_of_search lawful hprep costType parallel hsearch ok plan

/-- The first agent waits until the second has gone into the bay. -/
def bayPlan : JointPlan bay.environment bayAgents where
  routes := [([⟨0, 0⟩, ⟨0, 0⟩, ⟨0, 1⟩, ⟨0, 2⟩], 3), ([⟨0, 2⟩, ⟨0, 1⟩, ⟨1, 1⟩], 2)]
  travels := by
    refine .cons ⟨rfl, rfl, ?_⟩ (.cons ⟨rfl, rfl, ?_⟩ .nil)
    · exact .cons (n := 2) .wait (.cons (n := 1) (.move (c := 1) (by decide) rfl)
        (.cons (n := 0) (.move (c := 1) (by decide) rfl) (.single _)))
    · exact .cons (n := 1) (.move (c := 1) (by decide) rfl)
        (.cons (n := 0) (.move (c := 1) (by decide) rfl) (.single _))
  free := by decide

/-- What is computed from the solution of a solve belongs to one that has a solution. -/
theorem solved_of_map {α : Type} {x : Except Fault (Option SolveReport)} {f : Solution → α} {a : α}
    (h : x.map (Option.map fun report => report.result.toOption.map f) = .ok (some (some a))) :
    ∃ report solution, x = .ok (some report) ∧ report.result = .ok solution ∧ f solution = a := by
  obtain ⟨report, hreport, h⟩ := ok_some_of_map h
  obtain ⟨solution, hsolution, ha⟩ := Option.map_eq_some_iff.mp h
  cases hr : report.result with
  | error e =>
    rw [hr] at hsolution
    cases hsolution
  | ok _ =>
    rw [hr] at hsolution
    cases hsolution
    exact ⟨report, solution, hreport, hr, ha⟩

set_option maxRecDepth 100000 in
theorem solve_bay : (Strict.solve .checked 100 bay.environment bayAgents .sumOfCosts true .still .unlimited).map
    (Option.map fun report => report.result.toOption.map Solution.cost) = .ok (some (some 5)) := by
  cbv

/-- The least cost of a joint plan for the bay is 5. -/
theorem isLeast_bay :
    InWords (Strict.solve .checked 100 bay.environment bayAgents .sumOfCosts true .still .unlimited) ∧ IsLeast
      (Set.range fun plan : JointPlan bay.environment bayAgents => CostType.sumOfCosts.combine plan.costs) 5 := by
  obtain ⟨report, solution, h, hok, hfive⟩ := solved_of_map solve_bay
  have lawful : bay.environment.Lawful := Grid.lawful_ofRows (by decide) (by decide)
  refine ⟨.of_ok h, ⟨bayPlan, rfl⟩, ?_⟩
  rintro _ ⟨plan, rfl⟩
  rw [← hfive]
  exact cost_le_of_inWords lawful (.of_ok h) h hok plan

/-! ### Prices -/

/-- The cost of a solution of a solve in words on a grid or a graph is the price of its paths, and on a grid also the
    time that they take. -/
theorem cost_of_inWords (supported : env.Supported)
    (fits : InWords (Strict.solve .checked rounds env agents costType parallel clock budget))
    (h : Strict.solve sums rounds env agents costType parallel clock budget = .ok (some report))
    (ok : report.result = .ok solution) : solution.Priced env agents costType ∧
      ∀ g : Grid, g.Built → env = g.environment → solution.cost = solution.duration costType := by
  obtain ⟨solver, hprep, hsearch⟩ := Strict.solve_of_inWords fits h
  obtain ⟨rfl, rfl, -⟩ := prepared_of_prepare hprep
  exact cost_of_search (s := { solver with costType := costType, parallelBranching := parallel }) supported hsearch ok

/-- Two agents that exchange the ends of the long side of a triangle. -/
def triangleAgents : List Agent := [⟨0, ⟨0, 0⟩, ⟨1, 1⟩⟩, ⟨1, ⟨1, 1⟩, ⟨0, 0⟩⟩]

set_option maxRecDepth 100000 in
theorem sum_triangle :
    (Strict.solve .checked 100 Plan.triangle.environment triangleAgents .sumOfCosts false .still .unlimited).map
      (Option.map fun report => report.result.toOption.map fun solution =>
        (solution.cost, solution.duration .sumOfCosts)) = .ok (some (some (9, 3))) := by
  cbv

set_option maxRecDepth 100000 in
theorem makespan_bay : (Strict.solve .checked 100 bay.environment bayAgents .makespan false .still .unlimited).map
    (Option.map fun report => report.result.toOption.map Solution.cost) = .ok (some (some 3)) := by
  cbv

/-- The agents of the triangle go along three edges for 9 together; the last agent of the bay takes three steps. -/
theorem cost_triangle_bay :
    (∃ report solution,
      Strict.solve .checked 100 Plan.triangle.environment triangleAgents .sumOfCosts false .still .unlimited =
        .ok (some report) ∧ report.result = .ok solution ∧ solution.cost = 9 ∧ solution.duration .sumOfCosts = 3 ∧
      solution.Priced Plan.triangle.environment triangleAgents .sumOfCosts) ∧
    ∃ report solution,
      Strict.solve .checked 100 bay.environment bayAgents .makespan false .still .unlimited = .ok (some report) ∧
        report.result = .ok solution ∧ solution.Priced bay.environment bayAgents .makespan ∧
      solution.duration .makespan = 3 := by
  constructor
  · obtain ⟨report, solution, h, hok, hvalues⟩ := solved_of_map sum_triangle
    obtain ⟨hcost, hduration⟩ := Prod.mk.inj hvalues
    obtain ⟨hpriced, -⟩ := cost_of_inWords (.graph Plan.built_triangle) (.of_ok h) h hok
    exact ⟨report, solution, h, hok, hcost, hduration, hpriced⟩
  · obtain ⟨report, solution, h, hok, hcost⟩ := solved_of_map makespan_bay
    obtain ⟨hpriced, hgrid⟩ := cost_of_inWords (.grid built_bay) (.of_ok h) h hok
    exact ⟨report, solution, h, hok, hpriced, (hgrid bay built_bay rfl).symm.trans hcost⟩

/-! ### Solvable problems -/

/-- Agents that have a joint plan on a grid or a graph are given a solution, after a number of expansions that depends
    neither on the clock nor on the budget nor on how the machine adds, as long as all sums are words. -/
theorem search_solves_of_inWords (supported : env.Supported) (valid : ValidAgents env agents)
    (plan : JointPlan env agents) (costType : CostType) (parallel : Bool) :
    ∃ expansions least, ∀ rounds ≥ least, ∀ (clock : Clock) (budget : Budget), budget.Allows expansions →
      InWords (Strict.solve .checked rounds env agents costType parallel clock budget) → ∀ sums,
      ∃ report solution, Strict.solve sums rounds env agents costType parallel clock budget = .ok (some report) ∧
        report.result = .ok solution := by
  obtain ⟨expansions, least, h⟩ := search_solves supported valid plan costType parallel
  refine ⟨expansions, least, fun rounds hr clock budget hbudget fits sums => ?_⟩
  obtain ⟨solver, report, solution, hprep, hsearch, hok⟩ := h rounds hr clock budget hbudget
  refine ⟨report, solution, ?_, hok⟩
  rw [Strict.solve_eq_of_inWords fits sums, hprep]
  exact congrArg Except.ok hsearch

theorem search_solves_bay : ∃ rounds,
    InWords (Strict.solve .checked rounds bay.environment bayAgents .sumOfCosts true .still .unlimited) ∧
      ∃ report solution,
        Strict.solve .wrapping rounds bay.environment bayAgents .sumOfCosts true .still .unlimited = .ok (some report) ∧
          report.result = .ok solution := by
  obtain ⟨_, _, hbay, -⟩ := solved_of_map solve_bay
  obtain ⟨_, least, h⟩ := search_solves_of_inWords (.grid built_bay) validAgents_bay bayPlan .sumOfCosts true
  have fits := InWords.of_awaits (Strict.solve_awaits .checked _ _ _ _ _ _) hbay least
  exact ⟨least, fits, h least (Nat.le_refl _) .still .unlimited ⟨rfl, nofun⟩ fits .wrapping⟩

/-! ### Costs along the tree -/

/-- In a lawful environment and a solve in words, however the machine adds, all rounds are taken, no child costs less
    than its parent, and the costs of the nodes that are taken out never decrease. -/
theorem cost_monotone_of_inWords (lawful : env.Lawful)
    (fits : InWords (Strict.solve .checked rounds env agents costType parallel clock budget))
    (prepared : Strict.prepare sums rounds env agents = .ok (some solver)) :
    let s := { solver with costType := costType, parallelBranching := parallel }
    ∃ all families, Strict.states sums s rounds clock budget rounds = .ok all ∧
      Strict.families sums s rounds clock budget rounds = .ok families ∧
      (∀ parent child, (parent, child) ∈ families → parent.cost ≤ child.cost) ∧
      ((all.filterMap (Progress.taken? · clock budget)).map TreeNode.cost).Pairwise (· ≤ ·) := by
  intro s
  have hsame := Strict.prepare_eq_of_inWords (fits.of_bind)
  have hprep : prepare rounds env agents = some solver := Except.ok.inj ((hsame sums).symm.trans prepared)
  have hsearch : InWords (Strict.search .checked s rounds clock budget) := by
    refine InWords.of_bind_ok fits (a := some solver) ?_
    rw [hsame, hprep]
  obtain ⟨-, -, hp⟩ := prepared_of_prepare hprep
  have hlen : s.tables.length = s.agents.length := hp.length_eq.symm
  exact ⟨_, _, Strict.states_eq_of_inWords hlen hsearch sums, Strict.families_eq_of_inWords hlen hsearch sums,
    cost_monotone lawful hprep costType parallel rounds clock budget rounds⟩

set_option maxRecDepth 100000 in
theorem solve_square : (Strict.solve .checked 100 square.environment swappers .sumOfCosts true .still .unlimited).map
    (Option.map fun report => report.result.toOption.map Solution.cost) = .ok (some (some 4)) := by
  cbv

set_option maxRecDepth 100000 in
theorem taken_square : (do
    let some solver ← Strict.prepare .wrapping 100 square.environment swappers | return none
    let all ← Strict.states .wrapping { solver with costType := .sumOfCosts, parallelBranching := true } 100 .still
      .unlimited 100
    return some ((all.filterMap (Progress.taken? · .still .unlimited)).map TreeNode.cost)) =
      .ok (some [2, 3, 3, 4, 4]) := by
  cbv

/-- To exchange the places costs twice as much in the end as the agents would need alone. -/
theorem cost_monotone_square :
    InWords (Strict.solve .checked 100 square.environment swappers .sumOfCosts true .still .unlimited) ∧
    ∃ solver, Strict.prepare .wrapping 100 square.environment swappers = .ok (some solver) ∧
      let s := { solver with costType := .sumOfCosts, parallelBranching := true }
      ∃ all families, Strict.states .wrapping s 100 .still .unlimited 100 = .ok all ∧
        (all.filterMap (Progress.taken? · .still .unlimited)).map TreeNode.cost = [2, 3, 3, 4, 4] ∧
        Strict.families .wrapping s 100 .still .unlimited 100 = .ok families ∧
        ∀ parent child, (parent, child) ∈ families → parent.cost ≤ child.cost := by
  obtain ⟨_, _, h, -⟩ := solved_of_map solve_square
  have fits := InWords.of_ok h
  have lawful : square.environment.Lawful := Grid.lawful_ofRows (by decide) (by decide)
  have htaken := taken_square
  rcases hprep : Strict.prepare .wrapping 100 square.environment swappers with e | _ | solver
  · rw [hprep] at htaken
    cases htaken
  · rw [hprep] at htaken
    cases htaken
  obtain ⟨all, families, hall, hfamilies, hle, -⟩ := cost_monotone_of_inWords lawful fits hprep
  refine ⟨fits, solver, rfl, all, families, hall, ?_, hfamilies, hle⟩
  rw [hprep, ok_bind] at htaken
  dsimp only at htaken
  rw [hall] at htaken
  exact Option.some.inj (Except.ok.inj htaken)

end Solver

end Mapf
