import Mapf.Proofs.Queue.Contents
import Mapf.Proofs.Tree.Node

/-! # Rounds of the tree search

A round ends the search because the budget is spent, because no node waits any more, or because the
cheapest node has no conflict; or it takes the cheapest node out and puts in the children that were grown
from it. What it does with each part of its state is said once (`Solver.Ran`, `Solver.Absorbed`), and what this
means for the nodes that wait follows from it (`Solver.Turn`). Whatever a solver's clock shows and however its
children are built, every round that comes to an end is of this kind (`turn_of_round`). -/

namespace Mapf

theorem TreeRank.lt_iff {a b : TreeRank} : a < b ↔ a.cost < b.cost ∨ a.cost = b.cost ∧ a.conflicts < b.conflicts :=
  Iff.rfl

instance : IsStrictTotalOrder TreeRank (· < ·) where
  irrefl a h := by
    rw [TreeRank.lt_iff] at h
    omega
  trans a b c h₁ h₂ := by
    rw [TreeRank.lt_iff] at *
    omega
  trichotomous a b h₁ h₂ := by
    rw [TreeRank.lt_iff] at h₁ h₂
    have hcost : a.cost = b.cost := by omega
    have hconf : a.conflicts = b.conflicts := by omega
    cases a
    cases b
    simp_all

/-- Some limit of a budget was reached: after `expanded` expansions, or at some look at the clock. -/
inductive Budget.Spent (budget : Budget) (clock : Clock) (expanded : Nat) : Prop
  | expansions : budget.expansionsExhausted expanded = true → Spent budget clock expanded
  | round : (budget.roundDeadline clock).expired expanded = true → Spent budget clock expanded
  | search {n k : Nat} : (budget.searchDeadline clock n).expired k = true → Spent budget clock expanded

/-- Whether no round may follow after so many expansions. -/
def Budget.closes (budget : Budget) (clock : Clock) (expanded : Nat) : Bool :=
  (budget.roundDeadline clock).expired expanded || budget.expansionsExhausted expanded

namespace Solver

/-- The nodes that wait. -/
def Progress.nodes (t : Progress) : List TreeNode := t.waiting.toList.map Queue.Entry.payload

/-- What holds between rounds. -/
structure Growing (s : Solver) (t : Progress) : Prop where
  valid : t.waiting.Valid
  numbered : ∀ e ∈ t.waiting.toList, e.key ≤ t.created
  fits : ∀ node ∈ t.nodes, s.Fits node

/-- What a round does: it ends the search because the budget is spent, because no node waits or because the node that
    it takes out has no conflict, or it splits this node at its first conflict and takes in the children. -/
inductive Ran (s : Solver) (rounds : Nat) (clock : Clock) (budget : Budget) (t : Progress) :
    Round Progress SolveReport → Prop
  | stopped {events : List Event} :
      budget.closes clock t.stats.high.expanded = true →
      Ran s rounds clock budget t (.done ⟨.error (s.budgetExceeded (some t.best)), t.stats, t.stopwatch, events⟩)
  | exhausted {e : QueueError} :
      budget.closes clock t.stats.high.expanded = false →
      t.waiting.popMin = .error e →
      Ran s rounds clock budget t (.done ⟨.error .noSolutionFound, t.stats, t.stopwatch, []⟩)
  | solved {key : Nat} {node : TreeNode} {waiting : Queue Nat TreeNode} :
      budget.closes clock t.stats.high.expanded = false →
      t.waiting.popMin = .ok ((key, node), waiting) → node.firstConflict? = none →
      Ran s rounds clock budget t (.done ⟨.ok (s.toSolution node), t.stats, t.stopwatch, []⟩)
  | branched {key : Nat} {node : TreeNode} {waiting : Queue Nat TreeNode} {c : Conflict} {children : List Child}
      {stopwatch : Stopwatch} {r : Round Progress SolveReport} :
      budget.closes clock t.stats.high.expanded = false →
      t.waiting.popMin = .ok ((key, node), waiting) → node.firstConflict? = some c →
      s.buildChildren rounds clock budget t.stats.searches node c = some children →
      s.absorbAll { t with waiting := waiting, stats := t.stats.recordExpansion, stopwatch := stopwatch } children = r →
      Ran s rounds clock budget t r

/-- What a round comes to. -/
inductive Turn (s : Solver) (clock : Clock) (budget : Budget) (t : Progress) : Round Progress SolveReport → Prop
  | outOfBudget {report : SolveReport} {best : Option BestEffort} :
      report.result = .error (.budgetExceeded best) → budget.Spent clock t.stats.high.expanded →
      Turn s clock budget t (.done report)
  | exhausted {report : SolveReport} : report.result = .error .noSolutionFound → t.nodes = [] →
      Turn s clock budget t (.done report)
  | solved {node : TreeNode} {others : List TreeNode} {report : SolveReport} :
      report.result = .ok (s.toSolution node) → t.nodes.Perm (node :: others) →
      (∀ n ∈ t.nodes, node.cost ≤ n.cost) → node.conflicts = [] → Turn s clock budget t (.done report)
  | split {node : TreeNode} {others : List TreeNode} {c : Conflict} {first second : Option TreeNode}
      {u : Progress} : t.nodes.Perm (node :: others) → (∀ n ∈ t.nodes, node.cost ≤ n.cost) →
      c ∈ node.conflicts → s.Grown node c.constraints.1 first → s.Grown node c.constraints.2 second →
      s.Growing u → u.nodes.Perm (first.toList ++ second.toList ++ others) →
      u.stats.high.expanded = t.stats.high.expanded + 1 → Turn s clock budget t (.next u)

variable {s : Solver} {rounds : Nat} {clock : Clock} {budget : Budget}

theorem ran_of_round {t : Progress} {r : Round Progress SolveReport} (h : s.round rounds clock budget t = some r) :
    Ran s rounds clock budget t r := by
  unfold round at h
  dsimp only at h
  split at h
  case isTrue hspent =>
    cases h
    exact .stopped hspent
  case isFalse hgoing =>
    rw [Bool.not_eq_true] at hgoing
    split at h
    case h_1 hpop =>
      cases h
      exact .exhausted hgoing hpop
    case h_2 hpop =>
      split at h
      case h_1 hnone =>
        cases h
        exact .solved hgoing hpop hnone
      case h_2 hfirst =>
        obtain ⟨children, hchildren, h⟩ := Option.bind_eq_some_iff.mp h
        exact .branched hgoing hpop hfirst hchildren (Option.some.inj h)

theorem Turn.growing {t u : Progress} (h : Turn s clock budget t (.next u)) : s.Growing u := by
  cases h with
  | split _ _ _ _ _ hu _ _ => exact hu

/-- A node behind a turn has waited in front of it, or has grown from one that has. -/
theorem Turn.mem_nodes {t u : Progress} (h : Turn s clock budget t (.next u)) {n : TreeNode} (hn : n ∈ u.nodes) :
    n ∈ t.nodes ∨ ∃ parent ∈ t.nodes, ∃ c ∈ parent.conflicts, ∃ k,
      (k = c.constraints.1 ∨ k = c.constraints.2) ∧ s.Grown parent k (some n) := by
  cases h with
  | @split parent others c first second _ hperm _ hc hfirst hsecond _ hu _ =>
    have hmem : parent ∈ t.nodes := hperm.mem_iff.mpr List.mem_cons_self
    rw [hu.mem_iff, List.mem_append, List.mem_append, Option.mem_toList, Option.mem_toList] at hn
    rcases hn with (rfl | rfl) | hn
    · exact .inr ⟨parent, hmem, c, hc, _, .inl rfl, hfirst⟩
    · exact .inr ⟨parent, hmem, c, hc, _, .inr rfl, hsecond⟩
    · exact .inl (hperm.mem_iff.mpr (List.mem_cons_of_mem _ hn))

/-- A turn that ends with a solution has found a cheapest waiting node without conflicts. -/
theorem Turn.solved_of_ok {t : Progress} {report : SolveReport} (h : Turn s clock budget t (.done report))
    {solution : Solution} (ok : report.result = .ok solution) :
    ∃ node ∈ t.nodes, (∀ n ∈ t.nodes, node.cost ≤ n.cost) ∧ node.conflicts = [] ∧ solution = s.toSolution node := by
  cases h with
  | outOfBudget hres _ => cases hres.symm.trans ok
  | exhausted hres _ => cases hres.symm.trans ok
  | @solved node _ _ hres hperm hleast hnone =>
    cases hres.symm.trans ok
    exact ⟨node, hperm.mem_iff.mpr List.mem_cons_self, hleast, hnone, rfl⟩

/-! ### Children -/

theorem grown_of_buildChild {node : TreeNode} (hf : s.Fits node) {c : Conflict} (hc : c ∈ node.conflicts)
    {k : Constraint} (hk : k = c.constraints.1 ∨ k = c.constraints.2) {search : Nat} {child : Child}
    (h : s.buildChild rounds clock budget search node k = some child) :
    (∃ o, child.result = .ok o ∧ s.Grown node k o) ∨
      child.result = .error .budgetExceeded ∧ ∃ n i, (budget.searchDeadline clock n).expired i = true := by
  obtain ⟨agent, table, set, old, hh, -⟩ := hf.fresh hc hk
  rw [hh.buildChild_eq] at h
  obtain ⟨report, hplan, rfl⟩ := Option.map_eq_some_iff.mp h
  have hp := planned_of_plan (hh.indexed.insert k) hplan
  show (∃ o, node.adopt k.agent (set.insert k) report.result = .ok o ∧ _) ∨
    node.adopt k.agent (set.insert k) report.result = _ ∧ _
  generalize report.result = result at hp
  cases hp with
  | missing hno =>
    rcases hno with hno | hno
    · rw [hh.agent_eq] at hno
      cases hno
    · rw [hh.table_eq] at hno
      cases hno
  | answered ha ht hans =>
    cases hans with
    | found hbest => exact .inl ⟨_, rfl, .child ha ht hh.set_eq hbest⟩
    | noPath hno => exact .inl ⟨_, rfl, .barren ha ht hh.set_eq hno⟩
    | outOfTime hexp => exact .inr ⟨rfl, _, _, hexp⟩

/-- Both children are built alike, one after the other or at the same time. -/
theorem buildChildren_eq {search : Nat} {node : TreeNode} {c : Conflict} :
    s.buildChildren rounds clock budget search node c =
      [s.buildChild rounds clock budget search node c.constraints.1,
        s.buildChild rounds clock budget (search + 1) node c.constraints.2].mapM id := by
  unfold buildChildren
  cases s.parallelBranching <;> rfl

theorem buildChildren_eq_some_iff {search : Nat} {node : TreeNode} {c : Conflict} {children : List Child} :
    s.buildChildren rounds clock budget search node c = some children ↔
      ∃ first second, children = [first, second] ∧
        s.buildChild rounds clock budget search node c.constraints.1 = some first ∧
        s.buildChild rounds clock budget (search + 1) node c.constraints.2 = some second := by
  rw [buildChildren_eq]
  cases s.buildChild rounds clock budget search node c.constraints.1 <;>
    cases s.buildChild rounds clock budget (search + 1) node c.constraints.2 <;> simp [eq_comm]

/-- Taking in a child adds its node, if there is one. -/
theorem absorb_ok {t : Progress} (hv : t.waiting.Valid) (hn : ∀ e ∈ t.waiting.toList, e.key ≤ t.created)
    {child : Child} {o : Option TreeNode} (ho : child.result = .ok o) :
    ∃ u, s.absorb t child = .next u ∧ u.waiting.Valid ∧ (∀ e ∈ u.waiting.toList, e.key ≤ u.created) ∧
      u.nodes.Perm (o.toList ++ t.nodes) ∧ u.stats.high.expanded = t.stats.high.expanded := by
  unfold absorb
  rw [ho]
  cases o with
  | none => exact ⟨_, rfl, hv, hn, .rfl, rfl⟩
  | some node =>
    have hfresh : t.waiting.find? (t.created + 1) = none := by
      rw [Option.eq_none_iff_forall_ne_some]
      intro e he
      obtain ⟨hmem, hkey⟩ := hv.indexed.find?_eq_some_iff.mp he
      have := hn e hmem
      omega
    obtain ⟨q, hins, hq, -, hperm⟩ := hv.insert hfresh node
    dsimp only
    rw [hins]
    refine ⟨_, rfl, hq, fun e he => ?_, ?_, rfl⟩
    · rcases List.mem_cons.mp (hperm.mem_iff.mp he) with rfl | he
      · exact Nat.le_refl _
      · exact Nat.le_succ_of_le (hn e he)
    · exact hperm.map Queue.Entry.payload

theorem absorb_budgetExceeded {t : Progress} {child : Child} (h : child.result = .error .budgetExceeded) :
    ∃ report best, s.absorb t child = .done report ∧ report.result = .error (.budgetExceeded best) := by
  unfold absorb
  rw [h]
  exact ⟨_, _, rfl, rfl⟩

/-- The node of a child, unless its agent has no path left. -/
def Child.node? (child : Child) : Option TreeNode := child.result.toOption.join

/-- What a search logs when the time is up while it builds a child. -/
def lateWarning : Event := .warn "budget exceeded during low-level search"

/-- What becomes of a search that has taken in children: each of them could be built and was counted, and the best node
    so far is compared with their nodes one after the other. -/
structure Absorbed (t : Progress) (children : List Child) (u : Progress) : Prop where
  built : ∀ child ∈ children, ∃ o, child.result = .ok o
  best : u.best = (children.filterMap Child.node?).foldl better t.best
  evaluated : u.stats.high.evaluated = t.stats.high.evaluated + children.length

theorem Absorbed.append {t u v : Progress} {children more : List Child} (h : Absorbed t children u)
    (h' : Absorbed u more v) : Absorbed t (children ++ more) v where
  built := List.forall_mem_append.mpr ⟨h.built, h'.built⟩
  best := by rw [h'.best, h.best, ← List.foldl_append, ← List.filterMap_append]
  evaluated := by rw [h'.evaluated, h.evaluated, List.length_append, Nat.add_assoc]

theorem absorbed_of_absorb {t u : Progress} {child : Child} (h : s.absorb t child = .next u) :
    Absorbed t [child] u := by
  unfold absorb at h
  dsimp only at h
  split at h
  case h_1 hres =>
    cases h
    exact ⟨by simp [hres], by simp [Child.node?, hres, Except.toOption], rfl⟩
  case h_2 node hres =>
    split at h
    · cases h
      exact ⟨by simp [hres], by simp [Child.node?, hres, Except.toOption], rfl⟩
    · cases h
  · cases h
  · cases h

theorem absorbed_of_absorbAll {t u : Progress} {children : List Child} (h : s.absorbAll t children = .next u) :
    Absorbed t children u := by
  induction children generalizing t with
  | nil =>
    cases h
    exact ⟨by simp, rfl, rfl⟩
  | cons child rest ih =>
    unfold absorbAll at h
    split at h
    case h_1 v habsorb =>
      rw [← List.singleton_append]
      exact (absorbed_of_absorb habsorb).append (ih h)
    · cases h

/-- A search ends while it takes in children because the time is up for one of them, or with an error. -/
theorem ended_of_absorbAll {t : Progress} {children : List Child} {report : SolveReport}
    (h : s.absorbAll t children = .done report) :
    (∃ best, report.result = .error (.budgetExceeded best)) ∧ lateWarning ∈ report.events ∧
        (∃ child ∈ children, child.result = .error .budgetExceeded) ∨
      ∃ e, report.result = .error (.search e) := by
  induction children generalizing t with
  | nil => cases h
  | cons child rest ih =>
    unfold absorbAll at h
    split at h
    · exact (ih h).imp_left fun ⟨hres, hlate, late, hmem, hlast⟩ =>
        ⟨hres, hlate, late, List.mem_cons_of_mem _ hmem, hlast⟩
    case h_2 habsorb =>
      cases h
      unfold absorb at habsorb
      dsimp only at habsorb
      split at habsorb
      · cases habsorb
      · split at habsorb
        · cases habsorb
        · cases habsorb
          exact .inr ⟨_, rfl⟩
      case h_3 hres =>
        cases habsorb
        exact .inl ⟨⟨_, rfl⟩, List.mem_cons_self, child, List.mem_cons_self, hres⟩
      · cases habsorb
        exact .inr ⟨_, rfl⟩

/-! ### The round -/

theorem turn_of_children {t u : Progress} {node : TreeNode} {others : List TreeNode} {c : Conflict}
    {first second : Child} {search : Nat} (ht : s.Growing t) (hperm : t.nodes.Perm (node :: others))
    (hleast : ∀ n ∈ t.nodes, node.cost ≤ n.cost) (hc : c ∈ node.conflicts) (hv : u.waiting.Valid)
    (hn : ∀ e ∈ u.waiting.toList, e.key ≤ u.created) (hothers : u.nodes.Perm others)
    (hexp : u.stats.high.expanded = t.stats.high.expanded + 1)
    (hfirst : s.buildChild rounds clock budget search node c.constraints.1 = some first)
    (hsecond : s.buildChild rounds clock budget (search + 1) node c.constraints.2 = some second) :
    Turn s clock budget t (s.absorbAll u [first, second]) := by
  have hf : s.Fits node := ht.fits node (hperm.mem_iff.mpr List.mem_cons_self)
  have hspent : ∀ {report best}, (∃ n k, (budget.searchDeadline clock n).expired k = true) →
      report.result = .error (.budgetExceeded best) → Turn s clock budget t (.done report) := by
    rintro report best ⟨n, k, h⟩ hr
    exact .outOfBudget hr (.search h)
  rcases grown_of_buildChild hf hc (.inl rfl) hfirst with ⟨o₁, ho₁, hg₁⟩ | ⟨herr, hlate⟩
  · obtain ⟨u₁, hu₁, hv₁, hn₁, hperm₁, hexp₁⟩ := absorb_ok (s := s) hv hn ho₁
    simp only [absorbAll, hu₁]
    rcases grown_of_buildChild hf hc (.inr rfl) hsecond with ⟨o₂, ho₂, hg₂⟩ | ⟨herr, hlate⟩
    · obtain ⟨u₂, hu₂, hv₂, hn₂, hperm₂, hexp₂⟩ := absorb_ok (s := s) hv₁ hn₁ ho₂
      simp only [hu₂]
      have hnodes : u₂.nodes.Perm (o₁.toList ++ o₂.toList ++ others) := by
        refine hperm₂.trans (((hperm₁.trans (hothers.append_left _)).append_left _).trans ?_)
        rw [← List.append_assoc]
        exact List.perm_append_comm.append_right _
      refine .split hperm hleast hc hg₁ hg₂ ⟨hv₂, hn₂, fun n hmem => ?_⟩ hnodes (by omega)
      rw [hnodes.mem_iff, List.mem_append, List.mem_append, Option.mem_toList, Option.mem_toList] at hmem
      rcases hmem with (rfl | rfl) | hmem
      · exact hf.grown hc (.inl rfl) hg₁
      · exact hf.grown hc (.inr rfl) hg₂
      · exact ht.fits n (hperm.mem_iff.mpr (List.mem_cons_of_mem _ hmem))
    · obtain ⟨report, best, hdone, hr⟩ := absorb_budgetExceeded (s := s) (t := u₁) herr
      simp only [hdone]
      exact hspent hlate hr
  · obtain ⟨report, best, hdone, hr⟩ := absorb_budgetExceeded (s := s) (t := u) herr
    simp only [absorbAll, hdone]
    exact hspent hlate hr

/-- The node that is taken out is a cheapest one. -/
theorem Growing.popMin {t : Progress} (ht : s.Growing t) {key : Nat} {node : TreeNode} {waiting : Queue Nat TreeNode}
    (hpop : t.waiting.popMin = .ok ((key, node), waiting)) :
    t.nodes.Perm (node :: waiting.toList.map Queue.Entry.payload) ∧ ∀ n ∈ t.nodes, node.cost ≤ n.cost := by
  obtain ⟨-, -, seq, hperm, hmin⟩ := ht.valid.popMin hpop
  refine ⟨hperm.map Queue.Entry.payload, fun n hn => ?_⟩
  obtain ⟨e, he, rfl⟩ := List.mem_map.mp hn
  have hnot := hmin e he
  rw [← Bool.not_eq_true, Queue.Entry.precedes_iff] at hnot
  exact Nat.le_of_not_lt fun hlt => hnot (.inl (TreeRank.lt_iff.mpr (.inl hlt)))

/-- Every round that comes to an end is a turn. -/
theorem turn_of_round {t : Progress} (ht : s.Growing t) {r : Round Progress SolveReport}
    (h : s.round rounds clock budget t = some r) : Turn s clock budget t r := by
  cases ran_of_round h with
  | stopped hspent =>
    rcases Bool.or_eq_true_iff.mp hspent with hspent | hspent
    · exact .outOfBudget rfl (.round hspent)
    · exact .outOfBudget rfl (.expansions hspent)
  | exhausted _ hpop =>
    refine .exhausted rfl ?_
    rw [Progress.nodes, (ht.valid.popMin_eq_error_iff.mp hpop).1]
    rfl
  | solved _ hpop hnone =>
    obtain ⟨hnodes, hleast⟩ := ht.popMin hpop
    exact .solved rfl hnodes hleast (List.head?_eq_none_iff.mp hnone)
  | branched _ hpop hfirst hchildren habsorb =>
    obtain ⟨hv, -, seq, hperm, -⟩ := ht.valid.popMin hpop
    obtain ⟨hnodes, hleast⟩ := ht.popMin hpop
    obtain ⟨first, second, rfl, h₁, h₂⟩ := buildChildren_eq_some_iff.mp hchildren
    rw [← habsorb]
    exact turn_of_children ht hnodes hleast (List.mem_of_head? hfirst) hv
      (fun e he => ht.numbered e (hperm.mem_iff.mpr (List.mem_cons_of_mem _ he))) .rfl rfl h₁ h₂

end Solver

end Mapf
