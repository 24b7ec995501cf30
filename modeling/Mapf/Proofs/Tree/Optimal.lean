import Mapf.Proofs.Grids
import Mapf.Proofs.Tree.Cover
import Mathlib

/-! # Solutions are cheapest, failures are real

In an environment with symmetric edges a solver with finished tables reports a solution only if no joint
plan costs less, and reports that there is none only if no joint plan exists. -/

namespace Mapf

theorem mapM_eq_some_iff {α β : Type} {f : α → Option β} {as : List α} {bs : List β} :
    as.mapM f = some bs ↔ List.Forall₂ (fun a b => f a = some b) as bs := by
  induction as generalizing bs with
  | nil => simp [eq_comm]
  | cons a rest ih =>
    simp only [List.mapM_cons, Option.bind_eq_bind, Option.bind_eq_some_iff, Option.pure_def, Option.some.injEq]
    constructor
    · rintro ⟨b, hb, bs, hbs, rfl⟩
      exact .cons hb (ih.mp hbs)
    · intro h
      cases h with
      | cons hb hbs => exact ⟨_, hb, _, ih.mpr hbs, rfl⟩

namespace Solver

variable {s : Solver} {rounds : Nat} {clock : Clock} {budget : Budget} {report : SolveReport}

/-- The tables of a solver are finished ones for the goals of its agents. -/
def Prepared (s : Solver) : Prop :=
  List.Forall₂ (fun agent table => DistanceTable.Relaxed s.env table ∧ table.goal = agent.goal) s.agents s.tables

theorem prepared_of_prepare {env : Environment} {agents : List Agent} (h : prepare rounds env agents = some s) :
    s.env = env ∧ s.agents = agents ∧ s.Prepared := by
  obtain ⟨tables, ht, h⟩ := Option.bind_eq_some_iff.mp h
  cases h
  exact ⟨rfl, rfl, (mapM_eq_some_iff.mp ht).imp fun _ _ => DistanceTable.relaxed_of_build⟩

theorem Prepared.knowing (h : s.Prepared) (nav : s.env.Navigable) (valid : ValidAgents s.env s.agents) :
    s.Knowing := by
  intro i agent table ha ht
  obtain ⟨hi, rfl⟩ := List.getElem?_eq_some_iff.mp ha
  obtain ⟨hi', rfl⟩ := List.getElem?_eq_some_iff.mp ht
  obtain ⟨hrelaxed, hgoal⟩ := h.get hi hi'
  have hin := valid.inside _ (List.getElem_mem hi)
  rw [Agent.verify, Bool.and_eq_true] at hin
  exact ⟨nav, hrelaxed, hgoal, hin.1, hin.2⟩

theorem Launched.knowing {t : Progress} (h : Launched s clock budget (.next t)) (hp : s.Prepared)
    (nav : s.env.Navigable) : s.Knowing := by
  cases h with
  | rooted hvalid _ _ _ => exact hp.knowing nav (validate_eq_ok_iff.mp hvalid)

/-- Where a search ends, it has covered a joint plan to the last. -/
theorem covers_of_search (hp : s.Prepared) (nav : s.env.Navigable) (plan : JointPlan s.env s.agents)
    (h : s.search rounds clock budget = some report) :
    ∃ r : SolveReport, report.result = r.result ∧ (Launched s clock budget (.done r) ∨
      ∃ t, s.Growing t ∧ (s.Knowing ∧ Covers t plan) ∧ Turn s clock budget t (.done r)) := by
  exact search_cases (fun hl => ⟨hl.knowing hp nav, covers_root hl plan⟩)
    (fun ht hinv hturn => ⟨hinv.1, covers_turn ht hinv.1 hinv.2 hturn⟩) h

theorem cost_le_of_covers (hp : s.Prepared) (nav : s.env.Navigable) (h : s.search rounds clock budget = some report)
    {solution : Solution} (hok : report.result = .ok solution) (plan : JointPlan s.env s.agents) :
    solution.cost ≤ s.costType.combine plan.costs := by
  obtain ⟨r, hr, hend⟩ := covers_of_search hp nav plan h
  rw [hr] at hok
  rcases hend with hl | ⟨t, ht, ⟨hk, n, hn, ha⟩, hturn⟩
  · exact absurd hok hl.not_ok
  · obtain ⟨node, -, hleast, -, rfl⟩ := hturn.solved_of_ok hok
    exact Nat.le_trans (hleast n hn) ((ht.fits n hn).cost_le hk ha)

theorem no_plan_of_covers (hp : s.Prepared) (nav : s.env.Navigable) (h : s.search rounds clock budget = some report)
    (hno : report.result = .error .noSolutionFound) : IsEmpty (JointPlan s.env s.agents) := by
  refine ⟨fun plan => ?_⟩
  obtain ⟨r, hr, hend⟩ := covers_of_search hp nav plan h
  rw [hr] at hno
  rcases hend with hl | ⟨t, ht, ⟨hk, n, hn, ha⟩, hturn⟩
  · cases hl with
    | barren _ hvalid hagent htable hbarren =>
      obtain ⟨ps, cost, htravels, -⟩ := plan.route hagent
      exact hbarren (hp.knowing nav (validate_eq_ok_iff.mp hvalid) hagent htable) htravels (Path.keeps_empty _ _)
    | unfit hres _ => simp_all
    | outOfBudget hres _ => simp_all
    | untabled hres _ _ => simp_all
  · cases hturn with
    | outOfBudget hres _ => simp_all
    | exhausted _ hnone =>
      rw [hnone] at hn
      cases hn
    | solved hres _ _ _ => simp_all

/-! ### Optimality -/

/-- A solution costs no more than any joint plan. -/
theorem cost_le_of_search {env : Environment} {agents : List Agent} (lawful : env.Lawful) {solver : Solver}
    (prepared : prepare rounds env agents = some solver) (costType : CostType) (parallel : Bool) {rounds' : Nat}
    (h : search { solver with costType := costType, parallelBranching := parallel } rounds' clock budget =
      some report) {solution : Solution} (ok : report.result = .ok solution) (plan : JointPlan env agents) :
    solution.cost ≤ costType.combine plan.costs := by
  obtain ⟨rfl, rfl, hp⟩ := prepared_of_prepare prepared
  exact cost_le_of_covers (s := { solver with costType := costType, parallelBranching := parallel }) hp
    lawful.navigable h ok plan

/-- A corridor of three tiles with a bay below the middle one. -/
def bay : Grid := .ofObstacles 2 3 [⟨1, 0⟩, ⟨1, 2⟩]

/-- An agent that goes through the corridor, and one that comes from its end and goes into the bay. -/
def bayAgents : List Agent := [⟨0, ⟨0, 0⟩, ⟨0, 2⟩⟩, ⟨1, ⟨0, 2⟩, ⟨1, 1⟩⟩]

set_option maxRecDepth 100000 in
theorem cost_bay : ((prepare 100 bay.environment bayAgents).bind fun solver =>
    (search { solver with costType := .sumOfCosts, parallelBranching := true } 100 .still .unlimited).map
      fun report => report.result.toOption.map Solution.cost) = some (some 5) := by
  cbv

theorem search_bay : ∃ solver report solution, prepare 100 bay.environment bayAgents = some solver ∧
    search { solver with costType := .sumOfCosts, parallelBranching := true } 100 .still .unlimited = some report ∧
      report.result = .ok solution ∧ solution.cost = 5 := by
  obtain ⟨solver, hprep, h⟩ := Option.bind_eq_some_iff.mp cost_bay
  obtain ⟨report, hsearch, hcost⟩ := Option.map_eq_some_iff.mp h
  cases hr : report.result with
  | error e =>
    rw [hr] at hcost
    cases hcost
  | ok solution =>
    rw [hr] at hcost
    exact ⟨solver, report, solution, hprep, hsearch, hr, Option.some.inj hcost⟩

/-! ### Failure -/

/-- A search reports that there is no solution only if there is no joint plan. -/
theorem no_plan_of_search {env : Environment} {agents : List Agent} (lawful : env.Lawful) {solver : Solver}
    (prepared : prepare rounds env agents = some solver) (costType : CostType) (parallel : Bool) {rounds' : Nat}
    (h : search { solver with costType := costType, parallelBranching := parallel } rounds' clock budget =
      some report) (no : report.result = .error .noSolutionFound) : IsEmpty (JointPlan env agents) := by
  obtain ⟨rfl, rfl, hp⟩ := prepared_of_prepare prepared
  exact no_plan_of_covers (s := { solver with costType := costType, parallelBranching := parallel }) hp
    lawful.navigable h no

/-- A corridor of three tiles that is blocked in the middle. -/
def cut : Grid := .ofObstacles 1 3 [⟨0, 1⟩]

theorem search_of_launch (h : s.launch rounds clock budget = some (.done report)) :
    s.search rounds clock budget = some (conclude (clock.atRound report.stats.high.expanded) report) := by
  unfold search
  rw [h]
  rfl

set_option maxRecDepth 100000 in
theorem launch_cut : ((prepare 100 cut.environment [⟨0, ⟨0, 0⟩, ⟨0, 2⟩⟩]).bind fun solver =>
    (launch { solver with costType := .makespan, parallelBranching := false } 100 .still .unlimited).map
      fun r => match r with
        | .done report => some report.result
        | .next _ => none) = some (some (.error .noSolutionFound)) := by
  cbv

/-- No joint plan gets through the blocked corridor. -/
theorem isEmpty_of_cut : IsEmpty (JointPlan cut.environment [⟨0, ⟨0, 0⟩, ⟨0, 2⟩⟩]) := by
  obtain ⟨solver, hprep, h⟩ := Option.bind_eq_some_iff.mp launch_cut
  obtain ⟨r, hlaunch, hr⟩ := Option.map_eq_some_iff.mp h
  have lawful : cut.environment.Lawful := Grid.lawful_ofRows (by decide) (by decide)
  cases r with
  | next t => cases hr
  | done report =>
    exact no_plan_of_search lawful hprep .makespan false (search_of_launch hlaunch) (Option.some.inj hr)

end Solver

end Mapf
