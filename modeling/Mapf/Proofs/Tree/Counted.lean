import Mapf.Proofs.Tree.History
import Mapf.Proofs.Tree.Optimal

/-! # What a tree search counts as evaluated

Each round builds two branches. A branch is discarded if its agent has no path left under its constraints, and otherwise
its node joins the queue. The search counts both kinds as evaluated, unless the time is up while a branch is built
(`Solver.evaluated_of_search`), so the count exceeds the number of the children by that of the discarded branches. -/

namespace Mapf

namespace Solver

/-- Whether a branch came to nothing because its agent has no path left. -/
def Child.isBarren (child : Child) : Bool :=
  match child.result with
  | .ok none => true
  | _ => false

/-- The branches of the first `count` rounds that were discarded because their agents have no path left. -/
def discarded (s : Solver) (rounds : Nat) (clock : Clock) (budget : Budget) (count : Nat) : List Child :=
  ((s.states rounds clock budget count).flatMap (s.branches rounds clock budget)).filter Child.isBarren

variable {s : Solver} {rounds : Nat} {clock : Clock} {budget : Budget} {count : Nat}

theorem length_of_built {branches : List Child} (built : ∀ branch ∈ branches, ∃ o, branch.result = .ok o) :
    branches.length = (branches.filterMap Child.node?).length + (branches.filter Child.isBarren).length := by
  induction branches with
  | nil => rfl
  | cons branch rest ih =>
    obtain ⟨⟨o, ho⟩, hrest⟩ := List.forall_mem_cons.mp built
    have hlength := ih hrest
    cases o with
    | none => simp [Child.node?, Child.isBarren, ho, Except.toOption, hlength, Nat.add_assoc]
    | some node =>
      simp only [Child.node?, Child.isBarren, ho, Except.toOption, Option.join_some, List.filterMap_cons,
        List.filter_cons, List.length_cons, Bool.false_eq_true, ↓reduceIte, hlength]
      omega

theorem length_families : (s.families rounds clock budget count).length =
    (((s.states rounds clock budget count).flatMap (s.branches rounds clock budget)).filterMap Child.node?).length := by
  rw [families, ← List.length_map (f := Prod.snd), List.map_flatMap, List.filterMap_flatMap]
  simp only [map_snd_births]

/-- A discarded branch asks of a node that was created what its agent has no path for. -/
theorem barren_of_discarded {branch : Child} (h : branch ∈ s.discarded rounds clock budget count) :
    ∃ node ∈ s.created rounds clock budget count, ∃ c ∈ node.conflicts, ∃ k,
      (k = c.constraints.1 ∨ k = c.constraints.2) ∧ s.Grown node k none := by
  obtain ⟨hmem, hbarren⟩ := List.mem_filter.mp h
  obtain ⟨t, ht, hbranch⟩ := List.mem_flatMap.mp hmem
  obtain ⟨hgrowing, -⟩ := proper_of_states t ht
  obtain ⟨node, hnode, -, c, k, hfirst, hk, ⟨o, ho, hgrown⟩ | ⟨hlate, -⟩⟩ := hgrowing.branched hbranch
  · cases o with
    | none => exact ⟨node, mem_created ht hnode, c, List.mem_of_head? hfirst, k, hk, hgrown⟩
    | some child => simp [Child.isBarren, ho] at hbarren
  · simp [Child.isBarren, hlate] at hbarren

/-- A search that is not cut short while it builds a branch counts as evaluated the children and also the branches that
    it has discarded, each because its agent has no path left. -/
theorem evaluated_of_search {report : SolveReport} (h : s.search rounds clock budget = some report)
    (intime : lateWarning ∉ report.events) : report.stats.high.evaluated =
        (s.families rounds clock budget rounds).length + (s.discarded rounds clock budget rounds).length ∧
      ∀ branch ∈ s.discarded rounds clock budget rounds, ∃ node ∈ s.created rounds clock budget rounds,
        ∃ c ∈ node.conflicts, ∃ k, (k = c.constraints.1 ∨ k = c.constraints.2) ∧ s.Grown node k none := by
  refine ⟨?_, fun branch => barren_of_discarded⟩
  rcases course_of_search h with ⟨ended, hlaunch, rfl⟩ | ⟨root, last, ended, hcourse⟩
  · change ended.stats.high.evaluated = _
    rcases counted_of_launch hlaunch with ⟨_, hended, hhigh⟩ | ⟨root, hroot, -⟩
    · cases hended
      simp only [hhigh, families, discarded, states, hlaunch]
      rfl
    · cases hroot
  obtain ⟨hlaunch, -, hlast, habsorbed, hdone, rfl⟩ := hcourse
  have hroot : root.stats.high.evaluated = 0 := by
    rcases counted_of_launch hlaunch with ⟨ended, hended, -⟩ | ⟨_, hroot, -, hhigh⟩
    · cases hended
    · cases hroot
      rw [hhigh]
      rfl
  rcases hlast.last hdone with ⟨hnone, hstats, -⟩ | ⟨hlate, -⟩
  case inr => exact absurd (List.mem_append_left _ hlate) intime
  obtain ⟨hbuilt, -, hevaluated⟩ := habsorbed hnone
  change ended.stats.high.evaluated = _
  rw [hstats, hevaluated, hroot, Nat.zero_add, length_families, discarded]
  exact length_of_built hbuilt

/-- An agent that goes through the corridor of the bay, and one that stands in its way and goes to its beginning. -/
def bayRivals : List Agent := [⟨0, ⟨0, 0⟩, ⟨0, 2⟩⟩, ⟨1, ⟨0, 1⟩, ⟨0, 0⟩⟩]

set_option maxRecDepth 100000 in
theorem counts_bay : (prepare 100 bay.environment bayRivals).bind (fun solver =>
    (solver.search 100 .still .unlimited).map fun report =>
      ((report.result.toOption.map Solution.cost, report.events.all (·.level = .info)),
        (report.stats.high.evaluated, (solver.families 100 .still .unlimited 100).length))) =
          some ((some 5, true), (6, 5)) := by
  cbv

theorem search_rivals : ∃ solver report, prepare 100 bay.environment bayRivals = some solver ∧
    solver.search 100 .still .unlimited = some report ∧ (∃ solution, report.result = .ok solution) ∧
    lateWarning ∉ report.events ∧ report.stats.high.evaluated = 6 ∧
    (solver.families 100 .still .unlimited 100).length = 5 := by
  obtain ⟨solver, hprep, hrun⟩ := Option.bind_eq_some_iff.mp counts_bay
  obtain ⟨report, hsearch, hcounts⟩ := Option.map_eq_some_iff.mp hrun
  obtain ⟨hfirst, hsecond⟩ := Prod.mk.inj hcounts
  obtain ⟨hcost, hinfo⟩ := Prod.mk.inj hfirst
  obtain ⟨hevaluated, hfamilies⟩ := Prod.mk.inj hsecond
  refine ⟨solver, report, hprep, hsearch, ?_, fun hlate => ?_, hevaluated, hfamilies⟩
  · cases hres : report.result with
    | error e =>
      rw [hres] at hcost
      cases hcost
    | ok solution => exact ⟨solution, rfl⟩
  · have hlevel := List.all_eq_true.mp hinfo lateWarning hlate
    exact absurd hlevel (by decide)

/-- One branch is discarded on the way to the solution. -/
theorem evaluated_rivals : ∃ solver report, prepare 100 bay.environment bayRivals = some solver ∧
    solver.search 100 .still .unlimited = some report ∧ lateWarning ∉ report.events ∧
    (solver.families 100 .still .unlimited 100).length = 5 ∧
    (solver.discarded 100 .still .unlimited 100).length = 1 := by
  obtain ⟨solver, report, hprep, hsearch, -, hintime, hevaluated, hfamilies⟩ := search_rivals
  obtain ⟨hsum, -⟩ := evaluated_of_search hsearch hintime
  exact ⟨solver, report, hprep, hsearch, hintime, hfamilies, by omega⟩

/-- A search without any limit may count more nodes as evaluated than it has put into the queue. -/
theorem evaluated_exceeds_families : ∃ solver report, prepare 100 bay.environment bayRivals = some solver ∧
    solver.search 100 .still .unlimited = some report ∧ (∃ solution, report.result = .ok solution) ∧
    report.stats.high.evaluated ≠ (solver.families 100 .still .unlimited 100).length := by
  obtain ⟨solver, report, hprep, hsearch, hok, -, hevaluated, hfamilies⟩ := search_rivals
  exact ⟨solver, report, hprep, hsearch, hok, by omega⟩

end Solver

end Mapf
