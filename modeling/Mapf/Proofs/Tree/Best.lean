import Mapf.Proofs.Solutions.Exact
import Mapf.Proofs.Tree.Truncated

/-! # The best node of a search that is cut off

A search that is cut off by its number of expansions hands out the best of the nodes that it has created: the first
with the fewest conflicts and, among these, the lowest cost. Its paths lead all agents to their goals, and the conflicts
that remain are those that are found among them (`Solver.best_of_cutOff`).

The search compares each child with the best node so far when it takes the child in, and never looks at the queue for
this. The proof follows the branches in the order in which they are built, which is the order of creation. -/

namespace Mapf

/-- How far a node is from a solution: its conflicts, and then its cost. -/
def TreeNode.merit (node : TreeNode) : ℕ ×ₗ ℕ := toLex (node.conflicts.length, node.cost)

/-- What a report hands out instead of a solution. -/
def SolveReport.best? (report : SolveReport) : Option BestEffort :=
  match report.result with
  | .error (.budgetExceeded best) => best
  | _ => none

theorem SolveReport.best?_eq_some_iff {report : SolveReport} {best : BestEffort} :
    report.best? = some best ↔ report.result = .error (.budgetExceeded (some best)) := by
  unfold best?
  split
  case h_1 hres => rw [hres, Except.error.injEq, Failure.budgetExceeded.injEq]
  case h_2 hne => exact ⟨nofun, fun hres => absurd hres (hne _)⟩

namespace Solver

variable {s : Solver} {rounds : Nat} {clock : Clock} {budget : Budget} {t root : Progress} {count : Nat}

theorem better_eq (best node : TreeNode) : better best node = if node.merit < best.merit then node else best := by
  simp only [better, TreeNode.merit, Prod.Lex.toLex_lt_toLex]

/-- What is left of nodes that are compared one after the other is the first of the best. -/
theorem foldl_better (root : TreeNode) (nodes : List TreeNode) : ∃ before after,
    root :: nodes = before ++ nodes.foldl better root :: after ∧
      (∀ other ∈ before, (nodes.foldl better root).merit < other.merit) ∧
      ∀ other ∈ after, (nodes.foldl better root).merit ≤ other.merit := by
  induction nodes using List.reverseRecOn with
  | nil => exact ⟨[], [], rfl, nofun, nofun⟩
  | append_singleton nodes node ih =>
    obtain ⟨before, after, hnodes, hbefore, hafter⟩ := ih
    rw [List.foldl_concat, better_eq]
    generalize nodes.foldl better root = best at hnodes hbefore hafter ⊢
    rw [← List.cons_append, hnodes]
    split
    case isTrue hlt =>
      refine ⟨before ++ best :: after, [], rfl, fun other hother => ?_, nofun⟩
      have hle : best.merit ≤ other.merit := by
        rcases List.mem_append.mp hother with h | h
        · exact (hbefore other h).le
        · rcases List.mem_cons.mp h with rfl | h
          · exact le_refl _
          · exact hafter other h
      exact hlt.trans_le hle
    case isFalse hnot =>
      refine ⟨before, after ++ [node], by simp, hbefore, fun other hother => ?_⟩
      rcases List.mem_append.mp hother with h | h
      · exact hafter other h
      · rw [List.mem_singleton.mp h]
        exact not_lt.mp hnot

/-! ### The nodes in the order of their creation -/

theorem created_of_launch (h : s.launch rounds clock budget = some (.next root)) :
    s.created rounds clock budget count = root.best ::
      ((s.states rounds clock budget count).flatMap (s.branches rounds clock budget)).filterMap Child.node? := by
  have hroot : root.nodes = [root.best] := by
    rcases counted_of_launch h with ⟨report, hr, -⟩ | ⟨t, ht, hnodes, -⟩
    · cases hr
    · cases ht
      exact hnodes
  have hfirst : s.states rounds clock budget 1 = [root] := (states_of_launch h).trans Loop.states_one
  rw [created, families, hfirst, List.flatMap_singleton, hroot, List.singleton_append, List.map_flatMap,
    List.filterMap_flatMap]
  congr 2
  funext t
  exact map_snd_births

theorem on_time_of_untimed {m : Option Nat} (ht : s.Growing t) {branch : Child}
    (h : branch ∈ s.branches rounds clock (.untimed m) t) : branch.result ≠ .error .budgetExceeded := by
  intro hlate
  obtain ⟨node, -, -, c, k, -, -, ⟨o, ho, -⟩ | ⟨-, n, i, hexpired⟩⟩ := ht.branched h
  · cases hlate.symm.trans ho
  · cases hexpired

/-! ### What is handed out -/

/-- A search without a limit of time that is cut off gives out the first of the best nodes that it has created, with the
    conflicts that are found among its paths. But for these the paths pass the check. -/
theorem best_of_cutOff {m : Option Nat} {report : SolveReport} {best : BestEffort}
    (h : s.search rounds clock (.untimed m) = some report)
    (cut : report.result = .error (.budgetExceeded (some best))) :
    (∃ node before after, s.created rounds clock (.untimed m) rounds = before ++ node :: after ∧
        (∀ other ∈ before, node.merit < other.merit) ∧ (∀ other ∈ after, node.merit ≤ other.merit) ∧
        best.solution = s.toSolution node) ∧
      best.remainingConflicts = Conflict.count (best.solution.inOrder s.agents) ∧
      best.solution.Guided s.env s.agents ∧
      (best.solution.verify s.env s.agents = true ↔ best.remainingConflicts = 0) := by
  rcases course_of_search h with ⟨ended, hlaunch, rfl⟩ | ⟨root, last, ended, hcourse⟩
  · change ended.result = _ at cut
    cases launched_of_launch hlaunch with
    | unfit hres | barren hres | outOfBudget hres | untabled hres => cases hres.symm.trans cut
  obtain ⟨hlaunch, -, hlast, habsorbed, hdone, rfl⟩ := hcourse
  change ended.result = _ at cut
  rcases hlast.last hdone with ⟨hnone, -, hbest⟩ | ⟨-, branch, hmem, hlate⟩
  case inr => exact absurd hlate (on_time_of_untimed hlast hmem)
  cases hbest (some best) cut
  obtain ⟨before, after, hnodes, hbefore, hafter⟩ := foldl_better root.best
    (((s.states rounds clock (.untimed m) rounds).flatMap (s.branches rounds clock (.untimed m))).filterMap Child.node?)
  rw [← (habsorbed hnone).best, ← created_of_launch hlaunch] at hnodes
  rw [← (habsorbed hnone).best] at hbefore hafter
  have hfits : s.Fits last.best := fits_of_created (hnodes ▸ List.mem_append_right _ List.mem_cons_self)
  have hvalid := (launched_of_launch hlaunch).valid.1
  have hguided := hfits.guided hvalid
  have hcount : last.best.conflicts.length = Conflict.count ((s.toSolution last.best).inOrder s.agents) := by
    rw [hfits.inOrder_toSolution hvalid, hfits.conflicts, Conflict.count]
  refine ⟨⟨last.best, before, after, hnodes, hbefore, hafter, rfl⟩, hcount, hguided, ?_⟩
  rw [Solution.verify_iff_guided, ← hcount]
  exact and_iff_right hguided

set_option maxRecDepth 100000 in
theorem run_capped_bay : (prepare 100 bay.environment bayAgents).bind (fun solver =>
    (solver.launch 100 .still (.untimed (some 1))).bind fun first => match first with
      | .next root => (Loop.run (solver.round 100 .still (.untimed (some 1))) 100 root).bind fun report =>
        report.best?.map fun best => (best.remainingConflicts, best.solution.cost)
      | .done _ => none) = some (0, 5) := by
  cbv

/-- After one expansion the first of the two children is handed out: it has no conflicts, and so it would have been the
    answer of the next round. -/
theorem best_bay : ∃ solver report best, prepare 100 bay.environment bayAgents = some solver ∧
    solver.search 100 .still (.untimed (some 1)) = some report ∧
    report.result = .error (.budgetExceeded (some best)) ∧ best.remainingConflicts = 0 ∧
    best.solution.cost = 5 ∧ best.solution.verify solver.env solver.agents = true ∧
    ∃ node before after, solver.created 100 .still (.untimed (some 1)) 100 = before ++ node :: after ∧
      (∀ other ∈ before, node.merit < other.merit) ∧ (∀ other ∈ after, node.merit ≤ other.merit) ∧
      best.solution = solver.toSolution node := by
  obtain ⟨solver, hprep, hfirst⟩ := Option.bind_eq_some_iff.mp run_capped_bay
  obtain ⟨first, hlaunch, hrun⟩ := Option.bind_eq_some_iff.mp hfirst
  cases first with
  | done => cases hrun
  | next root =>
    obtain ⟨report, hreport, hrun⟩ := Option.bind_eq_some_iff.mp hrun
    obtain ⟨best, hbest, hcounts⟩ := Option.map_eq_some_iff.mp hrun
    obtain ⟨hremaining, hcost⟩ := Prod.mk.inj hcounts
    have hcut := SolveReport.best?_eq_some_iff.mp hbest
    have hsearch := search_of_root hlaunch
    rw [hreport, Option.map_some] at hsearch
    obtain ⟨hnode, -, -, hverify⟩ := best_of_cutOff hsearch hcut
    exact ⟨solver, _, best, hprep, hsearch, hcut, hremaining, hcost, hverify.mpr hremaining, hnode⟩

end Solver

end Mapf
