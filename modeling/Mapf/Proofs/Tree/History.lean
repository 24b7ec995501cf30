import Mapf.Proofs.Grids
import Mapf.Proofs.Loops
import Mapf.Proofs.Tree.Launch
import Mathlib

/-! # What a tree search creates

The nodes that a tree search takes out one after the other, and the children that it builds out of them, also
those that it does not come to take in because its budget is spent. Every node that is ever created is coherent:
its cost and conflicts are those of its paths, its paths break none of their constraints, and it has as many
constraints as it is deep. A child differs from its parent for one agent alone, by a constraint that the parent
did not have, and by the path and the cost of that agent (`created_coherent`).

What a search counts, and the best node that it keeps, follow from the branches that its rounds build in the order in
which they build them (`Absorbed`, `course_of_search`). -/

namespace Mapf

namespace TreeNode

/-- All constraints of a node are proper ones. -/
def Proper (node : TreeNode) : Prop := ∀ set ∈ node.constraints, ∀ c ∈ set.toList, c.Proper

/-- `child` has the constraint `c` for the agent of `c`, another path and another cost of that agent, and
    everything else for every agent from `parent`; nothing that `parent` has for that agent forbids what `c` does. -/
structure Descends (parent child : TreeNode) (c : Constraint) : Prop where
  gained : ∃ set, parent.constraints[c.agent]? = some set ∧ c.forbids ∉ set.forbidden ∧
    child.constraints[c.agent]? = some (set.insert c) ∧ (set.insert c).toList = set.toList ++ [c]
  others : ∀ i ≠ c.agent, child.constraints[i]? = parent.constraints[i]? ∧ child.paths[i]? = parent.paths[i]? ∧
    child.costs[i]? = parent.costs[i]?
  costType : child.costType = parent.costType
  depth : child.depth = parent.depth + 1

end TreeNode

namespace Solver

/-- What holds of a node in itself: an entry for each agent, the cost and the conflicts that follow from these, no
    path that ever breaks a constraint of its agent, and as many constraints as the node is deep. -/
structure Coherent (s : Solver) (node : TreeNode) : Prop where
  constraints_length : node.constraints.length = s.agents.length
  paths_length : node.paths.length = s.agents.length
  costs_length : node.costs.length = s.agents.length
  cost : node.cost = s.costType.combine node.costs
  conflicts : node.conflicts = Conflict.detect node.paths
  unbroken : ∀ {i : Nat} {set : ConstraintSet} {path : Path}, node.constraints[i]? = some set →
    node.paths[i]? = some path → ∀ c ∈ set.toList, ¬path.Breaks c
  total : (node.constraints.map ConstraintSet.size).sum = node.depth

/-! ### The course of a search -/

/-- The states of a search in front of its first `count` rounds, or of all rounds if it ends before. -/
def states (s : Solver) (rounds : Nat) (clock : Clock) (budget : Budget) (count : Nat) : List Progress :=
  match s.launch rounds clock budget with
  | some (.next t) => Loop.states (s.round rounds clock budget) count t
  | _ => []

/-- The node that the next round takes out, unless the budget is spent or no node waits. -/
def Progress.taken? (t : Progress) (clock : Clock) (budget : Budget) : Option TreeNode :=
  let k := t.stats.high.expanded
  if (budget.roundDeadline clock).expired k || budget.expansionsExhausted k then none
  else t.waiting.popMin.toOption.map fun popped => popped.1.2

/-- The branches that the next round builds, also those whose agent has no path left. -/
def branches (s : Solver) (rounds : Nat) (clock : Clock) (budget : Budget) (t : Progress) : List Child :=
  let built := do
    let parent ← t.taken? clock budget
    let conflict ← parent.firstConflict?
    s.buildChildren rounds clock budget t.stats.searches parent conflict
  built.getD []

/-- The children that the next round builds, each with its parent. -/
def births (s : Solver) (rounds : Nat) (clock : Clock) (budget : Budget) (t : Progress) :
    List (TreeNode × TreeNode) :=
  let built := do
    let parent ← t.taken? clock budget
    let conflict ← parent.firstConflict?
    let children ← s.buildChildren rounds clock budget t.stats.searches parent conflict
    return children.filterMap fun (child : Child) => child.result.toOption.join.map (parent, ·)
  built.getD []

/-- The children that are built in the first `count` rounds, each with its parent. -/
def families (s : Solver) (rounds : Nat) (clock : Clock) (budget : Budget) (count : Nat) :
    List (TreeNode × TreeNode) :=
  (s.states rounds clock budget count).flatMap (s.births rounds clock budget)

/-- The nodes that a search creates up to the end of its first `count` rounds: the root, which waits in front of
    the first of them, and the children. -/
def created (s : Solver) (rounds : Nat) (clock : Clock) (budget : Budget) (count : Nat) : List TreeNode :=
  (s.states rounds clock budget 1).flatMap Progress.nodes ++ (s.families rounds clock budget count).map Prod.snd

variable {s : Solver} {rounds : Nat} {clock : Clock} {budget : Budget} {t : Progress} {node parent child : TreeNode}
  {count : Nat}

theorem states_of_launch (h : s.launch rounds clock budget = some (.next t)) :
    s.states rounds clock budget count = Loop.states (s.round rounds clock budget) count t := by
  simp only [states, h]

/-- What holds at the root and is kept by every turn holds in front of every round. -/
theorem forall_states {I : Progress → Prop} (root : ∀ {t : Progress}, Launched s clock budget (.next t) → I t)
    (keep : ∀ {t u : Progress}, s.Growing t → I t → Turn s clock budget t (.next u) → I u) :
    ∀ t ∈ s.states rounds clock budget count, s.Growing t ∧ I t := by
  unfold states
  split
  case h_1 t hlaunch =>
    have hl := launched_of_launch hlaunch
    refine Loop.forall_mem_states (fun t u ht hround => ?_) ⟨hl.growing, root hl⟩
    have hturn := turn_of_round ht.1 hround
    exact ⟨hturn.growing, keep ht.1 ht.2 hturn⟩
  case h_2 => simp

theorem taken?_eq : t.taken? clock budget = if budget.closes clock t.stats.high.expanded then none else
    t.waiting.popMin.toOption.map fun popped => popped.1.2 :=
  rfl

theorem taken?_of_popMin {key : Nat} {waiting : Queue Nat TreeNode}
    (hgoing : budget.closes clock t.stats.high.expanded = false)
    (hpop : t.waiting.popMin = .ok ((key, node), waiting)) : t.taken? clock budget = some node := by
  simp only [taken?_eq, hgoing, Bool.false_eq_true, ↓reduceIte, hpop, Except.toOption, Option.map_some]

/-- The node that is taken out waits, and none that waits is cheaper. -/
theorem Growing.taken (ht : s.Growing t) (h : t.taken? clock budget = some node) :
    node ∈ t.nodes ∧ ∀ n ∈ t.nodes, node.cost ≤ n.cost := by
  rw [taken?_eq] at h
  split at h
  · cases h
  · cases hpop : t.waiting.popMin with
    | error e =>
      rw [hpop] at h
      cases h
    | ok popped =>
      rw [hpop] at h
      cases h
      obtain ⟨hperm, hleast⟩ := ht.popMin hpop
      exact ⟨hperm.mem_iff.mpr List.mem_cons_self, hleast⟩

theorem branches_of_taken {c : Conflict} {children : List Child} (htaken : t.taken? clock budget = some parent)
    (hfirst : parent.firstConflict? = some c)
    (hchildren : s.buildChildren rounds clock budget t.stats.searches parent c = some children) :
    s.branches rounds clock budget t = children := by
  simp only [branches, htaken, hfirst, hchildren, Option.bind_eq_bind, Option.bind_some, Option.getD_some]

theorem mem_branches_iff {report : Child} : report ∈ s.branches rounds clock budget t ↔ ∃ parent c children,
    t.taken? clock budget = some parent ∧ parent.firstConflict? = some c ∧
      s.buildChildren rounds clock budget t.stats.searches parent c = some children ∧ report ∈ children := by
  constructor
  · unfold branches
    intro h
    cases htaken : t.taken? clock budget with
    | none => simp [htaken] at h
    | some parent =>
      cases hfirst : parent.firstConflict? with
      | none => simp [htaken, hfirst] at h
      | some c =>
        cases hchildren : s.buildChildren rounds clock budget t.stats.searches parent c with
        | none => simp [htaken, hfirst, hchildren] at h
        | some children =>
          refine ⟨parent, c, children, rfl, hfirst, hchildren, ?_⟩
          simpa [htaken, hfirst, hchildren] using h
  · rintro ⟨parent, c, children, htaken, hfirst, hchildren, hmem⟩
    rwa [branches_of_taken htaken hfirst hchildren]

/-- The children that are born are the nodes of the branches. -/
theorem births_of_taken (htaken : t.taken? clock budget = some parent) : s.births rounds clock budget t =
    (s.branches rounds clock budget t).filterMap fun report => report.node?.map (parent, ·) := by
  unfold births branches
  rw [htaken]
  simp only [Option.bind_eq_bind, Option.bind_some]
  cases parent.firstConflict? with
  | none => rfl
  | some c =>
    simp only [Option.bind_some]
    cases s.buildChildren rounds clock budget t.stats.searches parent c <;> rfl

theorem births_of_taken_none (htaken : t.taken? clock budget = none) : s.births rounds clock budget t = [] := by
  unfold births
  rw [htaken]
  rfl

theorem map_snd_births : (s.births rounds clock budget t).map Prod.snd =
    (s.branches rounds clock budget t).filterMap Child.node? := by
  cases htaken : t.taken? clock budget with
  | none =>
    rw [births_of_taken_none htaken, branches, htaken]
    rfl
  | some parent =>
    rw [births_of_taken htaken, List.map_filterMap]
    congr 1
    funext report
    cases report.node? <;> rfl

theorem node?_eq_some_iff {report : Child} : report.node? = some node ↔ report.result = .ok (some node) := by
  unfold Child.node?
  rcases report.result with e | _ | _ <;> simp [Except.toOption]

theorem mem_births_iff : (parent, child) ∈ s.births rounds clock budget t ↔ t.taken? clock budget = some parent ∧
    ∃ report ∈ s.branches rounds clock budget t, report.result = .ok (some child) := by
  cases htaken : t.taken? clock budget with
  | none => simp [births_of_taken_none htaken]
  | some node =>
    rw [births_of_taken htaken]
    simp only [List.mem_filterMap, Option.map_eq_some_iff, Prod.mk.injEq, node?_eq_some_iff, Option.some.injEq]
    constructor
    · rintro ⟨report, hreport, _, hok, rfl, rfl⟩
      exact ⟨rfl, report, hreport, hok⟩
    · rintro ⟨rfl, report, hreport, hok⟩
      exact ⟨report, hreport, child, hok, rfl, rfl⟩

/-- A branch comes from one side of the first conflict of a node that waits, unless the time is up. -/
theorem Growing.branched (ht : s.Growing t) {report : Child} (h : report ∈ s.branches rounds clock budget t) :
    ∃ node ∈ t.nodes, t.taken? clock budget = some node ∧ ∃ c k, node.firstConflict? = some c ∧
      (k = c.constraints.1 ∨ k = c.constraints.2) ∧ ((∃ o, report.result = .ok o ∧ s.Grown node k o) ∨
        report.result = .error .budgetExceeded ∧ ∃ n i, (budget.searchDeadline clock n).expired i = true) := by
  obtain ⟨node, c, children, htaken, hfirst, hchildren, hmem⟩ := mem_branches_iff.mp h
  obtain ⟨hnode, -⟩ := ht.taken htaken
  have hc : c ∈ node.conflicts := List.mem_of_head? hfirst
  obtain ⟨first, second, rfl, h₁, h₂⟩ := buildChildren_eq_some_iff.mp hchildren
  rcases List.mem_pair.mp hmem with rfl | rfl
  · exact ⟨node, hnode, htaken, c, _, hfirst, .inl rfl, grown_of_buildChild (ht.fits node hnode) hc (.inl rfl) h₁⟩
  · exact ⟨node, hnode, htaken, c, _, hfirst, .inr rfl, grown_of_buildChild (ht.fits node hnode) hc (.inr rfl) h₂⟩

/-- The parent of a child that is built waits, and the child comes from one side of its first conflict. -/
theorem Growing.grown (ht : s.Growing t) (h : (parent, child) ∈ s.births rounds clock budget t) :
    parent ∈ t.nodes ∧ ∃ c k, parent.firstConflict? = some c ∧ (k = c.constraints.1 ∨ k = c.constraints.2) ∧
      s.Grown parent k (some child) := by
  obtain ⟨htaken, report, hreport, hok⟩ := mem_births_iff.mp h
  obtain ⟨node, hmem, htaken', c, k, hfirst, hk, ⟨o, ho, hg⟩ | ⟨herr, -⟩⟩ := ht.branched hreport
  · cases htaken.symm.trans htaken'
    cases ho.symm.trans hok
    exact ⟨hmem, c, k, hfirst, hk, hg⟩
  · cases herr.symm.trans hok

/-! ### What the rounds take in -/

/-- A round that goes on has taken in all the branches that it has built. -/
theorem absorbed_of_round {u : Progress} (h : s.round rounds clock budget t = some (.next u)) :
    Absorbed t (s.branches rounds clock budget t) u := by
  cases ran_of_round h with
  | branched hgoing hpop hfirst hchildren habsorb =>
    rw [branches_of_taken (taken?_of_popMin hgoing hpop) hfirst hchildren]
    obtain ⟨hbuilt, hbest, hevaluated⟩ := absorbed_of_absorbAll habsorb
    exact ⟨hbuilt, hbest, hevaluated⟩

/-- No round ends with an error of a single-agent search. -/
theorem Growing.result_ne (ht : s.Growing t) {report : SolveReport}
    (h : s.round rounds clock budget t = some (.done report)) (e : SearchError) :
    report.result ≠ .error (.search e) := by
  intro herr
  cases turn_of_round ht h with
  | outOfBudget hres _ => cases herr.symm.trans hres
  | exhausted hres _ => cases herr.symm.trans hres
  | solved hres _ _ _ => cases herr.symm.trans hres

/-- The last round builds no branches and leaves all counts and the best node as they are, unless the time is up for one
    of its branches. -/
theorem Growing.last (ht : s.Growing t) {report : SolveReport}
    (h : s.round rounds clock budget t = some (.done report)) :
    (s.branches rounds clock budget t = [] ∧ report.stats = t.stats ∧
        ∀ best, report.result = .error (.budgetExceeded best) → s.budgetExceeded (some t.best) = .budgetExceeded best) ∨
      lateWarning ∈ report.events ∧
        ∃ branch ∈ s.branches rounds clock budget t, branch.result = .error .budgetExceeded := by
  have hnone : (∀ parent c, t.taken? clock budget = some parent → parent.firstConflict? ≠ some c) →
      s.branches rounds clock budget t = [] := by
    refine fun hno => List.eq_nil_iff_forall_not_mem.mpr fun branch hmem => ?_
    obtain ⟨parent, c, -, htaken, hfirst, -⟩ := mem_branches_iff.mp hmem
    exact hno parent c htaken hfirst
  cases ran_of_round h with
  | stopped hspent =>
    refine .inl ⟨hnone fun parent c htaken => ?_, rfl, fun best hbest => Except.error.inj hbest⟩
    simp [taken?_eq, hspent] at htaken
  | exhausted hgoing hpop =>
    refine .inl ⟨hnone fun parent c htaken => ?_, rfl, fun best hbest => ?_⟩
    · simp [taken?_eq, hgoing, hpop, Except.toOption] at htaken
    · cases hbest
  | solved hgoing hpop hsolved =>
    refine .inl ⟨hnone fun parent c htaken hfirst => ?_, rfl, fun best hbest => ?_⟩
    · cases htaken.symm.trans (taken?_of_popMin hgoing hpop)
      cases hsolved.symm.trans hfirst
    · cases hbest
  | branched hgoing hpop hfirst hchildren habsorb =>
    rw [branches_of_taken (taken?_of_popMin hgoing hpop) hfirst hchildren]
    rcases ended_of_absorbAll habsorb with ⟨-, hlate⟩ | ⟨e, herr⟩
    · exact .inr hlate
    · exact absurd herr (ht.result_ne h e)

/-- In front of its last round a search has taken in all the branches that the rounds before have built. -/
theorem absorbed_of_run {root : Progress} (hroot : s.Growing root) {report : SolveReport}
    (h : Loop.run (s.round rounds clock budget) count root = some report) : ∃ before last,
      Loop.states (s.round rounds clock budget) count root = before ++ [last] ∧ s.Growing last ∧
        Absorbed root (before.flatMap (s.branches rounds clock budget)) last ∧
        s.round rounds clock budget last = some (.done report) := by
  have keep : ∀ all t u, s.Growing t ∧ Absorbed root all t → s.round rounds clock budget t = some (.next u) →
      s.Growing u ∧ Absorbed root (all ++ s.branches rounds clock budget t) u := fun all t u ⟨ht, habsorbed⟩ hround =>
    ⟨(turn_of_round ht hround).growing, habsorbed.append (absorbed_of_round hround)⟩
  have start : s.Growing root ∧ Absorbed root [] root := ⟨hroot, ⟨nofun, rfl, rfl⟩⟩
  obtain ⟨before, last, hstates, ⟨hlast, habsorbed⟩, hdone⟩ := Loop.exists_last_of_run keep start h
  exact ⟨before, last, hstates, hlast, habsorbed, hdone⟩

/-- The course of a search from its root: the report completes that of the last round, and in front of this round all
    the branches have been taken in, except those that it builds itself. -/
structure Course (s : Solver) (rounds : Nat) (clock : Clock) (budget : Budget) (report : SolveReport)
    (root last : Progress) (ended : SolveReport) : Prop where
  launched : s.launch rounds clock budget = some (.next root)
  mem : last ∈ s.states rounds clock budget rounds
  growing : s.Growing last
  absorbed : s.branches rounds clock budget last = [] →
    Absorbed root ((s.states rounds clock budget rounds).flatMap (s.branches rounds clock budget)) last
  round : s.round rounds clock budget last = some (.done ended)
  report_eq : report = conclude (clock.atRound ended.stats.high.expanded) ended

/-- A search ends as soon as it starts, or it takes its course. -/
theorem course_of_search {report : SolveReport} (h : s.search rounds clock budget = some report) :
    (∃ ended, s.launch rounds clock budget = some (.done ended) ∧
        report = conclude (clock.atRound ended.stats.high.expanded) ended) ∨
      ∃ root last ended, s.Course rounds clock budget report root last ended := by
  obtain ⟨first, hlaunch, h⟩ := Option.bind_eq_some_iff.mp h
  cases first with
  | done ended =>
    cases h
    exact .inl ⟨ended, hlaunch, rfl⟩
  | next root =>
    obtain ⟨ended, hrun, h⟩ := Option.bind_eq_some_iff.mp h
    cases h
    obtain ⟨before, last, hstates, hlast, habsorbed, hdone⟩ := absorbed_of_run (launched_of_launch hlaunch).growing hrun
    rw [← states_of_launch hlaunch] at hstates
    have hmem : last ∈ s.states rounds clock budget rounds :=
      hstates ▸ List.mem_append_right _ (List.mem_singleton_self _)
    refine .inr ⟨root, last, ended, hlaunch, hmem, hlast, fun hnone => ?_, hdone, rfl⟩
    rwa [hstates, List.flatMap_append, List.flatMap_singleton, hnone, List.append_nil]

/-! ### Nodes that wait, and nodes that solve, have been created -/

theorem mem_nodes_of_absorbAll {children : List Child} {u : Progress} (h : s.absorbAll t children = .next u)
    (hv : t.waiting.Valid) (hn : ∀ e ∈ t.waiting.toList, e.key ≤ t.created) :
    ∀ n ∈ u.nodes, n ∈ t.nodes ∨ ∃ report ∈ children, report.result = .ok (some n) := by
  induction children generalizing t with
  | nil =>
    cases h
    exact fun n hn => .inl hn
  | cons report rest ih =>
    unfold absorbAll at h
    split at h
    case h_1 t' habsorb =>
      obtain ⟨o, hr⟩ := (absorbed_of_absorb habsorb).built report List.mem_cons_self
      obtain ⟨_, habsorb', hv', hn', hperm, -⟩ := absorb_ok (s := s) hv hn hr
      cases habsorb.symm.trans habsorb'
      intro n hmem
      rcases ih h hv' hn' n hmem with hmem | ⟨r, hr', hok⟩
      · rcases List.mem_append.mp (hperm.mem_iff.mp hmem) with hmem | hmem
        · obtain rfl := Option.mem_toList.mp hmem
          exact .inr ⟨report, List.mem_cons_self, hr⟩
        · exact .inl hmem
      · exact .inr ⟨r, List.mem_cons_of_mem _ hr', hok⟩
    · cases h

/-- A node that waits behind a round has waited in front of it or is one of the children. -/
theorem Growing.mem_births (ht : s.Growing t) {u : Progress} (h : s.round rounds clock budget t = some (.next u)) :
    ∀ n ∈ u.nodes, n ∈ t.nodes ∨ n ∈ (s.births rounds clock budget t).map Prod.snd := by
  cases ran_of_round h with
  | @branched key node waiting c children _ _ hgoing hpop hfirst hchildren habsorb =>
    obtain ⟨hv, -, seq, hperm, -⟩ := ht.valid.popMin hpop
    intro n hn
    rcases mem_nodes_of_absorbAll habsorb hv
      (fun e he => ht.numbered e (hperm.mem_iff.mpr (List.mem_cons_of_mem _ he))) n hn with hn | ⟨report, hreport, hok⟩
    · exact .inl ((ht.popMin hpop).1.mem_iff.mpr (List.mem_cons_of_mem _ hn))
    · rw [map_snd_births, branches_of_taken (taken?_of_popMin hgoing hpop) hfirst hchildren]
      exact .inr (List.mem_filterMap.mpr ⟨report, hreport, node?_eq_some_iff.mpr hok⟩)

/-- A node that waits in front of a round has been created. -/
theorem mem_created (ht : t ∈ s.states rounds clock budget count) (hn : node ∈ t.nodes) :
    node ∈ s.created rounds clock budget count := by
  unfold created families
  unfold states at ht ⊢
  split at ht
  case h_1 root hlaunch =>
    rw [Loop.states_one, List.flatMap_singleton, List.mem_append, List.map_flatMap]
    exact Loop.mem_of_mem_states (fun t u ht hround => (turn_of_round ht hround).growing)
      (fun t u ht hround => ht.mem_births hround) (launched_of_launch hlaunch).growing t ht node hn
  case h_2 => cases ht

/-- A solution is that of a node that has been created. -/
theorem created_of_search {report : SolveReport} (h : s.search rounds clock budget = some report)
    {solution : Solution} (ok : report.result = .ok solution) :
    ∃ node ∈ s.created rounds clock budget rounds, node.conflicts = [] ∧ solution = s.toSolution node := by
  rcases course_of_search h with ⟨ended, hlaunch, rfl⟩ | ⟨root, last, ended, hcourse⟩
  · exact absurd ok (launched_of_launch hlaunch).not_ok
  · obtain ⟨-, hlast, hgrowing, -, hround, rfl⟩ := hcourse
    obtain ⟨node, hmem, -, hnone, hsolution⟩ := (turn_of_round hgrowing hround).solved_of_ok ok
    exact ⟨node, mem_created hlast hmem, hnone, hsolution⟩

/-! ### Coherence -/

/-- The constraints that a child has more than its parent are proper ones if those of the parent are. -/
theorem Grown.proper {k : Constraint} (h : s.Grown parent k (some child)) (hparent : parent.Proper) (hk : k.Proper) :
    child.Proper := by
  cases h with
  | @child _ _ set _ _ _ hset _ =>
    intro u hu c hc
    rcases List.mem_or_eq_of_mem_set hu with hu | rfl
    · exact hparent u hu c hc
    · have hold := hparent set (List.mem_of_getElem? hset)
      unfold ConstraintSet.insert at hc
      split at hc
      · exact hold c hc
      · rw [ConstraintSet.toList_record, List.mem_append, List.mem_singleton] at hc
        rcases hc with hc | rfl
        · exact hold c hc
        · exact hk

/-- Both sides of a conflict of a node ask for proper constraints. -/
theorem Fits.proper_side (h : s.Fits node) {c : Conflict} (hc : c ∈ node.conflicts) :
    ∀ k, (k = c.constraints.1 ∨ k = c.constraints.2) → k.Proper := by
  rw [h.conflicts] at hc
  obtain ⟨-, -, a, b, -, -, hkind⟩ := Conflict.mem_detect.mp hc
  obtain ⟨h₁, h₂⟩ := Conflict.proper_constraints hkind
  rintro k (rfl | rfl)
  · exact h₁
  · exact h₂

theorem Turn.proper {u : Progress} (h : Turn s clock budget t (.next u)) (ht : s.Growing t)
    (hp : ∀ n ∈ t.nodes, n.Proper) : ∀ n ∈ u.nodes, n.Proper := by
  intro n hn
  rcases h.mem_nodes hn with hn | ⟨parent, hmem, c, hc, k, hk, hg⟩
  · exact hp n hn
  · exact hg.proper (hp parent hmem) ((ht.fits parent hmem).proper_side hc k hk)

theorem proper_root (costType : CostType) (plans : List Plan) : (TreeNode.root costType plans).Proper := by
  intro set hset c hc
  obtain ⟨i, -, rfl⟩ := List.mem_map.mp hset
  cases hc

/-- In front of every round all waiting nodes have proper constraints. -/
theorem proper_of_states : ∀ t ∈ s.states rounds clock budget count, s.Growing t ∧ ∀ n ∈ t.nodes, n.Proper :=
  forall_states (fun hl => by
    cases hl with
    | rooted _ _ hnodes _ =>
      rw [hnodes, List.forall_mem_singleton]
      exact proper_root _ _) fun ht hp hturn => hturn.proper ht hp

theorem Fits.coherent (h : s.Fits node) (hp : node.Proper) : s.Coherent node where
  constraints_length := h.constraints_length
  paths_length := h.paths_length
  costs_length := h.costs_length
  cost := h.cost
  conflicts := h.conflicts
  unbroken {i set path} hset hpath c hc := by
    obtain ⟨_, _, _, plan, hh⟩ := h.holds (h.constraints_length ▸ (List.getElem?_eq_some_iff.mp hset).1)
    cases hset.symm.trans hh.set_eq
    cases hpath.symm.trans hh.path_eq
    obtain ⟨ps, hserves⟩ := hh.best.serves
    exact (hserves.keeps _ (List.mem_map_of_mem hc)).not_breaks (hp set (List.mem_of_getElem? hset) c hc)
  total := h.depth.symm

/-- A child has one constraint more than its parent, and it is new. -/
theorem Fits.descends (h : s.Fits parent) {c : Conflict} (hc : c ∈ parent.conflicts) {k : Constraint}
    (hk : k = c.constraints.1 ∨ k = c.constraints.2) (hg : s.Grown parent k (some child)) :
    parent.Descends child k := by
  obtain ⟨_, _, set, _, hh, hnew⟩ := h.fresh hc hk
  cases hg with
  | child _ _ hset _ =>
    cases hset.symm.trans hh.set_eq
    have hlt := (List.getElem?_eq_some_iff.mp hset).1
    refine ⟨⟨set, hset, ?_, ?_, ?_⟩, fun i hi => ?_, rfl, rfl⟩
    · rw [← hh.indexed.covers_iff, hnew]
      exact Bool.false_ne_true
    · exact List.getElem?_set_self hlt
    · rw [ConstraintSet.insert_of_not_covers hnew, ConstraintSet.toList_record]
    · exact ⟨List.getElem?_set_ne hi.symm, List.getElem?_set_ne hi.symm, List.getElem?_set_ne hi.symm⟩

theorem grown_of_families (h : (parent, child) ∈ s.families rounds clock budget count) :
    parent ∈ s.created rounds clock budget count ∧ s.Fits parent ∧ parent.Proper ∧
      ∃ c k, c ∈ parent.conflicts ∧ (k = c.constraints.1 ∨ k = c.constraints.2) ∧ s.Grown parent k (some child) := by
  obtain ⟨t, ht, hbirth⟩ := List.mem_flatMap.mp h
  obtain ⟨hgrowing, hproper⟩ := proper_of_states t ht
  obtain ⟨hmem, c, k, hfirst, hk, hg⟩ := hgrowing.grown hbirth
  exact ⟨mem_created ht hmem, hgrowing.fits parent hmem, hproper parent hmem, c, k, List.mem_of_head? hfirst, hk, hg⟩

theorem fits_of_created (h : node ∈ s.created rounds clock budget count) : s.Fits node := by
  rcases List.mem_append.mp h with hroot | hborn
  · obtain ⟨t, ht, hmem⟩ := List.mem_flatMap.mp hroot
    exact (proper_of_states t ht).1.fits node hmem
  · obtain ⟨⟨parent, child⟩, hfamily, rfl⟩ := List.mem_map.mp hborn
    obtain ⟨-, hfits, -, c, k, hc, hk, hg⟩ := grown_of_families hfamily
    exact hfits.grown hc hk hg

/-- Every node that a search creates is coherent, and every child comes from a node that was created before by one
    new constraint, which changes the path and the cost of one agent alone. -/
theorem created_coherent (s : Solver) (rounds : Nat) (clock : Clock) (budget : Budget) (count : Nat) :
    (∀ node ∈ s.created rounds clock budget count, s.Coherent node) ∧
      ∀ parent child, (parent, child) ∈ s.families rounds clock budget count →
        parent ∈ s.created rounds clock budget count ∧ ∃ c, parent.Descends child c := by
  constructor
  · intro node hnode
    rcases List.mem_append.mp hnode with hroot | hborn
    · obtain ⟨t, ht, hmem⟩ := List.mem_flatMap.mp hroot
      obtain ⟨hgrowing, hproper⟩ := proper_of_states t ht
      exact (hgrowing.fits node hmem).coherent (hproper node hmem)
    · obtain ⟨⟨parent, child⟩, hfamily, rfl⟩ := List.mem_map.mp hborn
      obtain ⟨-, hfits, hproper, c, k, hc, hk, hg⟩ := grown_of_families hfamily
      exact (hfits.grown hc hk hg).coherent (hg.proper hproper (hfits.proper_side hc k hk))
  · intro parent child hfamily
    obtain ⟨hcreated, hfits, -, c, k, hc, hk, hg⟩ := grown_of_families hfamily
    exact ⟨hcreated, k, hfits.descends hc hk hg⟩

/-- Four tiles in a square. -/
def square : Grid := .ofObstacles 2 2 []

/-- Two agents that exchange their places. -/
def swappers : List Agent := [⟨0, ⟨0, 0⟩, ⟨0, 1⟩⟩, ⟨1, ⟨0, 1⟩, ⟨0, 0⟩⟩]

set_option maxRecDepth 100000 in
theorem families_square : (prepare 100 square.environment swappers).map (fun solver =>
    (solver.families 100 .still .unlimited 2).map fun family => (family.1.depth, family.2.depth)) =
      some [(0, 1), (0, 1), (1, 2), (1, 2)] := by
  cbv

/-- While the places are exchanged there is a node with two constraints, one more than its parent has. -/
theorem coherent_square : ∃ solver parent child, prepare 100 square.environment swappers = some solver ∧
    (parent, child) ∈ solver.families 100 .still .unlimited 2 ∧ (child.constraints.map ConstraintSet.size).sum = 2 ∧
      solver.Coherent child ∧ ∃ c, parent.Descends child c := by
  obtain ⟨solver, hprep, hdepths⟩ := Option.map_eq_some_iff.mp families_square
  have hmem : (1, 2) ∈ (solver.families 100 .still .unlimited 2).map
      fun family => (family.1.depth, family.2.depth) := by
    rw [hdepths]
    decide
  obtain ⟨⟨parent, child⟩, hfamily, hdepth⟩ := List.mem_map.mp hmem
  obtain ⟨hnodes, hfamilies⟩ := created_coherent solver 100 .still .unlimited 2
  have hchild := hnodes child (List.mem_append_right _ (List.mem_map_of_mem hfamily))
  refine ⟨solver, parent, child, hprep, hfamily, ?_, hchild, (hfamilies parent child hfamily).2⟩
  rw [hchild.total]
  exact (Prod.mk.inj hdepth).2

end Solver

end Mapf
