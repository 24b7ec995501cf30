import Mapf.Proofs.Plans.Antitone
import Mapf.Proofs.Strict.Search
import Mapf.Proofs.Words.Distances

/-! # Plans in words

A planner adds costs and times, after the distances to its goal have been added up. As long as all these sums are words,
it comes to the same as with numbers (`Plan.Strict.fromScratch_eq_of_inWords`): it finds a cheapest route if there is
one, keeps to the constraints, and is not helped by more of them. -/

namespace Mapf

open Mapf.Strict

namespace Plan

variable {env : Environment} {agent : Agent} {table : DistanceTable} {constraints : List Constraint}
  {rounds owner : Nat} {set : ConstraintSet} {deadline : Deadline} {sums : Sums} {report : SearchReport Plan}
  {plan : Plan}

namespace Strict

/-- Measures the distances to the goal of an agent and then plans it. -/
def fromScratch (sums : Sums) (rounds : Nat) (env : Environment) (agent : Agent) (constraints : ConstraintSet)
    (deadline : Deadline) : Except Fault (Option (SearchReport Plan)) := do
  let some table ← DistanceTable.Strict.build sums rounds env agent.goal | return none
  search sums rounds env agent table constraints deadline

theorem search_eq_of_inWords (fits : InWords (search .checked rounds env agent table set deadline)) (sums : Sums) :
    search sums rounds env agent table set deadline = .ok (Plan.search rounds env agent table set deadline) :=
  InWords.eq_ok (f := fun sums => search sums rounds env agent table set deadline) fits
    (fun sums => search_lags sums rounds env agent table set deadline)
    (search_eq rounds env agent table set deadline) sums

theorem fromScratch_eq_of_inWords (fits : InWords (fromScratch .checked rounds env agent set deadline)) (sums : Sums) :
    fromScratch sums rounds env agent set deadline = .ok ((DistanceTable.build rounds env agent.goal).bind fun table =>
      Plan.search rounds env agent table set deadline) := by
  refine InWords.eq_ok (f := fun sums => fromScratch sums rounds env agent set deadline) fits (fun sums => ?_) ?_ sums
  · refine (DistanceTable.Strict.build_lags sums rounds env agent.goal).bind fun table => ?_
    cases table with
    | none => exact .refl _
    | some table => exact search_lags sums rounds env agent table set deadline
  · rw [fromScratch, DistanceTable.Strict.build_eq, ok_bind]
    cases DistanceTable.build rounds env agent.goal with
    | none => rfl
    | some table => exact search_eq rounds env agent table set deadline

theorem fromScratch_awaits (sums : Sums) (env : Environment) (agent : Agent) (set : ConstraintSet) (deadline : Deadline)
    {n m : Nat} (hnm : n ≤ m) :
    Awaits (fromScratch sums n env agent set deadline) (fromScratch sums m env agent set deadline) :=
  (DistanceTable.Strict.build_awaits sums env agent.goal hnm).bind rfl fun table =>
    search_awaits sums env agent table set deadline hnm

end Strict

/-! ### Exactness -/

/-- In a lawful environment a planner always ends as long as all sums are words, however the machine adds. It says that
    there is no path exactly if no route heeds the constraints, and otherwise the cost of its plan is the least of all
    such routes. -/
theorem search_exact_of_inWords (lawful : env.Lawful) (agent : Agent) (owner : Nat) (constraints : List Constraint)
    (fits : ∀ rounds, InWords (Strict.fromScratch .checked rounds env agent (.ofList owner constraints) .never))
    (sums : Sums) :
    ∃ report, (∃ least, ∀ rounds ≥ least,
        Strict.fromScratch sums rounds env agent (.ofList owner constraints) .never = .ok (some report)) ∧
      (report.result = .error .noPathFound ↔ agent.routeCosts env constraints = ∅) ∧
      ((agent.routeCosts env constraints).Nonempty →
        ∃ plan, report.result = .ok plan ∧ IsLeast (agent.routeCosts env constraints) plan.cost) := by
  obtain ⟨table, report, ⟨least, hends⟩, hexact⟩ := search_exact lawful agent owner constraints
  refine ⟨report, ⟨least, fun rounds hr => ?_⟩, hexact⟩
  obtain ⟨htable, hreport⟩ := hends rounds hr
  rw [Strict.fromScratch_eq_of_inWords (fits rounds) sums, htable, Option.bind_some, hreport]

/-- The sides of a triangle of which one is dearer than the other two together. -/
def triangleSides : List Edge := [⟨⟨0, 0⟩, ⟨0, 1⟩, 2⟩, ⟨⟨0, 1⟩, ⟨1, 1⟩, 1⟩, ⟨⟨0, 0⟩, ⟨1, 1⟩, 6⟩]

def triangle : Graph := (Graph.empty.addEdges triangleSides).toOption.getD .empty

theorem built_triangle : triangle.Built :=
  .addEdges .empty (show Graph.empty.addEdges triangleSides = .ok triangle from rfl)

def crossing : Agent := ⟨0, ⟨0, 0⟩, ⟨1, 1⟩⟩

/-- The goal is forbidden at time 3, and the last edge of the cheap way for an arrival at time 4. -/
def crossingConstraints : List Constraint := [.vertex 0 ⟨1, 1⟩ 3, .edge 0 ⟨1, 1⟩ ⟨0, 1⟩ 4]

set_option maxRecDepth 100000 in
theorem search_crossing : (Strict.fromScratch .checked 100 triangle.environment crossing
    (.ofList 0 crossingConstraints) .never).map (Option.map SearchReport.result) =
    .ok (some (.ok ⟨.ofPositions [⟨0, 0⟩, ⟨0, 1⟩, ⟨1, 1⟩, ⟨0, 1⟩, ⟨0, 1⟩, ⟨1, 1⟩], 6⟩)) := by
  cbv

/-- The agent is at its goal early, makes way for time 3, and cannot come back at once. -/
theorem isLeast_crossing : (∀ rounds, InWords (Strict.fromScratch .checked rounds triangle.environment crossing
    (.ofList 0 crossingConstraints) .never)) ∧
      IsLeast (crossing.routeCosts triangle.environment crossingConstraints) 6 := by
  obtain ⟨report, h, hresult⟩ := ok_some_of_map search_crossing
  have more := @Strict.fromScratch_awaits .checked triangle.environment crossing (.ofList 0 crossingConstraints) .never
  have fits := InWords.of_awaits more h
  obtain ⟨_, ⟨least, hends⟩, hno, hfound⟩ :=
    search_exact_of_inWords built_triangle.lawful crossing 0 crossingConstraints fits .checked
  -- A run of 100 rounds gives the same report.
  cases (hends (max least 100) (le_max_left _ _)).symm.trans ((more (le_max_right _ _)).eq_some h)
  rw [hresult] at hno hfound
  obtain ⟨_, hplan, hleast⟩ := hfound (Set.nonempty_iff_ne_empty.mpr fun hempty => nomatch hno.mpr hempty)
  cases hplan
  exact ⟨fits, hleast⟩

/-! ### More constraints -/

/-- If there is no path under the laxer constraints, there is none under the stricter ones; and if there is a plan under
    the stricter ones, there is one under the laxer ones, at no greater cost. Again all sums have to be words. -/
theorem search_antitone_of_inWords (lawful : env.Lawful) (agent : Agent) {owner owner' : Nat}
    {lax strict : List Constraint} (laxer : (ConstraintSet.ofList owner lax).Laxer (.ofList owner' strict))
    (fits : ∀ rounds, InWords (Strict.fromScratch .checked rounds env agent (.ofList owner lax) .never))
    (fits' : ∀ rounds, InWords (Strict.fromScratch .checked rounds env agent (.ofList owner' strict) .never))
    (sums : Sums) :
    ∃ report report', (∃ least, ∀ rounds ≥ least,
        Strict.fromScratch sums rounds env agent (.ofList owner lax) .never = .ok (some report) ∧
        Strict.fromScratch sums rounds env agent (.ofList owner' strict) .never = .ok (some report')) ∧
      (report.result = .error .noPathFound → report'.result = .error .noPathFound) ∧
      ∀ plan', report'.result = .ok plan' → ∃ plan, report.result = .ok plan ∧ plan.cost ≤ plan'.cost := by
  obtain ⟨table, report, report', ⟨least, hends⟩, hantitone⟩ := search_antitone lawful agent laxer
  refine ⟨report, report', ⟨least, fun rounds hr => ?_⟩, hantitone⟩
  obtain ⟨htable, hreport, hreport'⟩ := hends rounds hr
  rw [Strict.fromScratch_eq_of_inWords (fits rounds) sums, Strict.fromScratch_eq_of_inWords (fits' rounds) sums, htable,
    Option.bind_some, Option.bind_some, hreport, hreport']
  exact ⟨rfl, rfl⟩

set_option maxRecDepth 100000 in
theorem search_eased : (Strict.fromScratch .checked 100 triangle.environment crossing
    (.ofList 0 [.edge 0 ⟨0, 1⟩ ⟨1, 1⟩ 4]) .never).map (Option.map fun report =>
      report.result.toOption.map Plan.cost) = .ok (some (some 3)) := by
  cbv

/-- Without the constraint on the goal, and with the edge forbidden in the opposite direction, the triangle can be
    crossed at no greater cost. -/
theorem crossing_eased : (ConstraintSet.ofList 0 [.edge 0 ⟨0, 1⟩ ⟨1, 1⟩ 4]).Laxer (.ofList 0 crossingConstraints) ∧
    (∀ rounds, InWords (Strict.fromScratch .checked rounds triangle.environment crossing
      (.ofList 0 [.edge 0 ⟨0, 1⟩ ⟨1, 1⟩ 4]) .never)) ∧
    (∀ rounds, InWords (Strict.fromScratch .checked rounds triangle.environment crossing
      (.ofList 0 crossingConstraints) .never)) ∧
    ∃ rounds report plan, Strict.fromScratch .wrapping rounds triangle.environment crossing
      (.ofList 0 [.edge 0 ⟨0, 1⟩ ⟨1, 1⟩ 4]) .never = .ok (some report) ∧ report.result = .ok plan ∧ plan.cost ≤ 6 := by
  have hlaxer : (ConstraintSet.ofList 0 [.edge 0 ⟨0, 1⟩ ⟨1, 1⟩ 4]).Laxer (.ofList 0 crossingConstraints) :=
    ConstraintSet.laxer_ofList (by decide)
  obtain ⟨_, heased, -⟩ := ok_some_of_map search_eased
  obtain ⟨strict, hstrict, hresult⟩ := ok_some_of_map search_crossing
  have fits := InWords.of_awaits (Strict.fromScratch_awaits .checked _ _ _ _) heased
  have more := @Strict.fromScratch_awaits .checked triangle.environment crossing (.ofList 0 crossingConstraints) .never
  have fits' := InWords.of_awaits more hstrict
  refine ⟨hlaxer, fits, fits', ?_⟩
  obtain ⟨report, _, ⟨least, hends⟩, -, hfound⟩ :=
    search_antitone_of_inWords built_triangle.lawful crossing hlaxer fits fits' .wrapping
  obtain ⟨hreport, hreport'⟩ := hends (max least 100) (le_max_left _ _)
  have hstrict' := (more (le_max_right least 100)).eq_some hstrict
  rw [Strict.fromScratch_eq_of_inWords (fits' _) .checked] at hstrict'
  rw [Strict.fromScratch_eq_of_inWords (fits' _) .wrapping] at hreport'
  cases hreport'.symm.trans hstrict'
  obtain ⟨plan, hok, hle⟩ := hfound _ hresult
  exact ⟨_, report, plan, hreport, hok, hle⟩

/-! ### Soundness without laws -/

/-- In any environment, with any estimates, any deadline and any way of adding, as long as all sums are words: the path
    of a plan leads its agent to the goal and breaks no constraint, and neither does staying at the goal from its end
    on. -/
theorem path_respects_of_inWords (proper : ∀ o p t, .edge o p p t ∉ constraints)
    (fits : InWords (Strict.search .checked rounds env agent table (.ofList owner constraints) deadline))
    (h : Strict.search sums rounds env agent table (.ofList owner constraints) deadline = .ok (some report))
    (ok : report.result = .ok plan) :
    plan.path ≠ [] ∧ plan.path.Guides env agent ∧
      (ConstraintSet.ofList owner constraints).isViolatedBy plan.path = false ∧
      ∀ t, plan.path.length ≤ t + 1 → ∀ o, .vertex o agent.goal t ∉ constraints :=
  path_respects proper (Except.ok.inj ((Strict.search_eq_of_inWords fits sums).symm.trans h)) ok

/-- Moves lead along a row and never back, and one of them is listed without a cost. -/
def oneWay : Environment where
  contains p := p.x = 0 && p.y < 4
  neighbors p := [(⟨p.x, p.y + 2⟩, 1), (⟨p.x, p.y + 1⟩, 2)]
  edgeCost p q := if q = ⟨p.x, p.y + 1⟩ then some 2 else none

/-- Estimates for another goal, and not consistent. -/
def misleading : DistanceTable :=
  ⟨⟨0, 3⟩, (((∅ : Std.HashMap Position Nat).insert ⟨0, 0⟩ 9).insert ⟨0, 1⟩ 0).insert ⟨0, 2⟩ 5⟩

def drifter : Agent := ⟨0, ⟨0, 0⟩, ⟨0, 2⟩⟩

/-- The place before the goal is forbidden at first, then the goal, and then the edge between them. -/
def drifterConstraints : List Constraint := [.vertex 0 ⟨0, 1⟩ 1, .vertex 0 ⟨0, 2⟩ 3, .edge 0 ⟨0, 2⟩ ⟨0, 1⟩ 4]

def drifterPath : Path := .ofPositions [⟨0, 0⟩, ⟨0, 0⟩, ⟨0, 1⟩, ⟨0, 1⟩, ⟨0, 1⟩, ⟨0, 2⟩]

set_option maxRecDepth 100000 in
theorem search_drifter : (Strict.search .checked 100 oneWay drifter misleading (.ofList 0 drifterConstraints)
    ⟨fun k => 20 ≤ k⟩).map (Option.map SearchReport.result) = .ok (some (.ok ⟨drifterPath, 7⟩)) := by
  cbv

/-- The agent waits once at its start and twice before its goal. -/
theorem drifterPath_respects : InWords (Strict.search .checked 100 oneWay drifter misleading
      (.ofList 0 drifterConstraints) ⟨fun k => 20 ≤ k⟩) ∧
    drifterPath ≠ [] ∧ drifterPath.Guides oneWay drifter ∧
    (ConstraintSet.ofList 0 drifterConstraints).isViolatedBy drifterPath = false ∧
    ∀ t, 6 ≤ t + 1 → ∀ o, .vertex o ⟨0, 2⟩ t ∉ drifterConstraints := by
  obtain ⟨report, h, ok⟩ := ok_some_of_map search_drifter
  refine ⟨.of_ok h, path_respects_of_inWords (fun o p t hm => ?_) (.of_ok h) h ok⟩
  obtain ⟨-, rfl, hp, -⟩ : o = 0 ∧ p = ⟨0, 2⟩ ∧ p = ⟨0, 1⟩ ∧ t = 4 := by simpa [drifterConstraints] using hm
  cases hp

end Plan

end Mapf
