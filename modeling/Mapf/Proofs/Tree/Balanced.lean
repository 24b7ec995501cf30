import Mapf.Proofs.Search.Balanced
import Mapf.Proofs.Tree.Counted

/-! # How the counters of a solve balance

A solve counts a search for each agent and then two nodes and two searches for each node that it expands
(`Solver.InPairs`). Its low-level counters are the sums of what these searches have counted (`Solver.Summed`), so they
balance as those of a single search do. The time may be up while the first of two branches is built, and only then is
one of a pair missing (`counters_balance`). -/

namespace Mapf

/-! ### Sums of counters -/

namespace Counters

/-- What several searches have counted together. -/
def total (counters : List Counters) : Counters := counters.foldl merge zero

theorem total_concat (counters : List Counters) (c : Counters) :
    total (counters ++ [c]) = (total counters).merge c := by
  simp [total]

theorem balanced_zero {known found : Prop} (h : ¬found) : zero.Balanced known found :=
  ⟨Nat.le_refl _, fun _ => rfl, Nat.le_refl _, fun hfound => absurd hfound h⟩

theorem Balanced.merge {c d : Counters} {known found known' found' : Prop} (hc : c.Balanced known found)
    (hd : d.Balanced known' found') : (c.merge d).Balanced (known ∧ known') (found ∨ found') where
  bounded := by
    have h₁ := hc.bounded
    have h₂ := hd.bounded
    show c.pruned + d.pruned + (c.evaluated + d.evaluated) ≤ c.generated + d.generated
    omega
  exact h := by
    have h₁ := hc.exact h.1
    have h₂ := hd.exact h.2
    show c.pruned + d.pruned + (c.evaluated + d.evaluated) = c.generated + d.generated
    omega
  expanded := Nat.add_le_add hc.expanded hd.expanded
  strict h := by
    rcases h with h | h
    · exact Nat.add_lt_add_of_lt_of_le (hc.strict h) hd.expanded
    · exact Nat.add_lt_add_of_le_of_lt hc.expanded (hd.strict h)

theorem balanced_total {ι : Type} {counters : ι → Counters} {known found : ι → Prop} {runs : List ι}
    (h : ∀ run ∈ runs, (counters run).Balanced (known run) (found run)) :
    (total (runs.map counters)).Balanced (∀ run ∈ runs, known run) (∃ run ∈ runs, found run) := by
  induction runs using List.reverseRecOn with
  | nil => exact balanced_zero (by simp)
  | append_singleton runs run ih =>
    obtain ⟨hruns, hrun⟩ := List.forall_mem_append.mp h
    rw [List.map_append, List.map_singleton, total_concat]
    have hmerge := (ih hruns).merge (hrun run (List.mem_singleton_self run))
    simpa only [List.mem_append, List.mem_singleton, or_imp, forall_and, forall_eq, or_and_right, exists_or,
      exists_eq_left] using hmerge

end Counters

namespace Solver

/-- A single-agent search of a solve: its number, the place of the agent, the constraints, and what came of it. -/
structure Run where
  number : Nat
  agent : Nat
  constraints : ConstraintSet
  report : SearchReport Plan

/-- The estimates that a search of a solve asks for. -/
def Run.estimates (run : Run) (s : Solver) (rounds : Nat) (clock : Clock) (budget : Budget) : List (Option Nat) :=
  match s.agents[run.agent]?, s.tables[run.agent]? with
  | some agent, some table =>
    let problem := SpaceTime.problem s.env agent table run.constraints
    let prune := SpaceTime.pruning s.env run.constraints
    (BestFirst.asked rounds problem prune (budget.searchDeadline clock run.number)).map problem.heuristic
  | _, _ => []

/-- A search that has come to a plan. -/
def Run.Succeeds (run : Run) : Prop := ∃ plan, run.report.result = .ok plan

/-- The searches that statistics are about: they were made under the numbers from 0 on, and their counters add up. -/
structure Summed (s : Solver) (rounds : Nat) (clock : Clock) (budget : Budget) (runs : List Run) (stats : Stats) :
    Prop where
  ran : ∀ run ∈ runs, s.plan rounds clock budget run.number run.agent run.constraints = some run.report
  numbers : runs.map Run.number = List.range stats.searches
  low : stats.low = .total (runs.map fun run => run.report.counters)

/-- After the root and a search for each agent, nodes and searches come in pairs, one for each expanded node. -/
structure InPairs (s : Solver) (stats : Stats) : Prop where
  generated : stats.high.generated = 1 + 2 * stats.high.expanded
  searches : stats.searches = s.agents.length + 2 * stats.high.expanded

variable {s : Solver} {rounds : Nat} {clock : Clock} {budget : Budget} {runs : List Run} {stats : Stats}

/-! ### Single searches -/

theorem summed_zero : s.Summed rounds clock budget [] .zero := ⟨nofun, rfl, rfl⟩

theorem Summed.of_eq (h : s.Summed rounds clock budget runs stats) {other : Stats}
    (hsearches : other.searches = stats.searches) (hlow : other.low = stats.low) :
    s.Summed rounds clock budget runs other :=
  ⟨h.ran, hsearches ▸ h.numbers, hlow.trans h.low⟩

/-- A search that takes the next number adds its counters. -/
theorem Summed.record (h : s.Summed rounds clock budget runs stats) {agent : Nat} {set : ConstraintSet}
    {report : SearchReport Plan} (hplan : s.plan rounds clock budget stats.searches agent set = some report) :
    s.Summed rounds clock budget (runs ++ [⟨stats.searches, agent, set, report⟩])
      (stats.recordLowLevel report.counters) where
  ran := by
    rw [List.forall_mem_append, List.forall_mem_singleton]
    exact ⟨h.ran, hplan⟩
  numbers := by
    rw [List.map_append, h.numbers, List.map_singleton]
    exact List.range_succ.symm
  low := by
    rw [List.map_append, List.map_singleton, Counters.total_concat, ← h.low]
    rfl

theorem balanced_of_plan {run : Run}
    (h : s.plan rounds clock budget run.number run.agent run.constraints = some run.report) :
    run.report.counters.Balanced (none ∉ run.estimates s rounds clock budget) run.Succeeds := by
  unfold Run.Succeeds
  unfold plan at h
  split at h
  case h_1 agent table hagent htable =>
    obtain ⟨found, hfound, h⟩ := Option.bind_eq_some_iff.mp h
    have hbalanced := BestFirst.balanced_of_search hfound
    rw [← Option.some.inj h]
    refine ⟨hbalanced.bounded, fun hknown => hbalanced.exact fun a ha => ?_, hbalanced.expanded, fun ⟨plan, ok⟩ => ?_⟩
    · rw [Option.isSome_iff_ne_none]
      intro hnone
      refine hknown ?_
      simp only [Run.estimates, hagent, htable]
      exact List.mem_map.mpr ⟨a, ha, hnone⟩
    · cases hresult : found.result with
      | error e =>
        rw [hresult] at ok
        cases ok
      | ok outcome => exact hbalanced.strict ⟨outcome, hresult⟩
  case h_2 =>
    rw [← Option.some.inj h]
    exact Counters.balanced_zero nofun

/-- The sums balance, whichever searches there were. -/
theorem Summed.balanced (h : s.Summed rounds clock budget runs stats) :
    stats.low.Balanced (∀ run ∈ runs, none ∉ run.estimates s rounds clock budget) (∃ run ∈ runs, run.Succeeds) := by
  rw [h.low]
  exact Counters.balanced_total fun run hrun => balanced_of_plan (h.ran run hrun)

/-! ### The root -/

theorem summed_of_planAll {is : List Nat} {stats' : Stats} {result : Except SearchError (List Plan)}
    (h : s.Summed rounds clock budget runs stats)
    (hall : s.planAll rounds clock budget is stats = some (result, stats')) :
    ∃ more, s.Summed rounds clock budget (runs ++ more) stats' ∧
      ∀ plans, result = .ok plans → more.length = is.length ∧ ∀ run ∈ more, run.Succeeds := by
  induction is generalizing runs stats result with
  | nil =>
    cases hall
    exact ⟨[], by rwa [List.append_nil], fun _ _ => ⟨rfl, nofun⟩⟩
  | cons i rest ih =>
    obtain ⟨report, hplan, hall⟩ := Option.bind_eq_some_iff.mp hall
    have hfirst := h.record hplan
    dsimp only at hall
    split at hall
    case h_1 e he =>
      cases hall
      exact ⟨_, hfirst, nofun⟩
    case h_2 plan hok =>
      obtain ⟨⟨rest', stats''⟩, hrest, hall⟩ := Option.bind_eq_some_iff.mp hall
      cases hall
      obtain ⟨more, hmore, hsucceeds⟩ := ih hfirst hrest
      rw [List.append_assoc] at hmore
      refine ⟨_, hmore, fun plans hplans => ?_⟩
      cases rest' with
      | error e => cases hplans
      | ok plans' =>
        obtain ⟨hlength, hmem⟩ := hsucceeds plans' rfl
        refine ⟨by rw [List.length_append, hlength, List.length_cons, Nat.add_comm]; rfl, ?_⟩
        rw [List.forall_mem_append, List.forall_mem_singleton]
        exact ⟨⟨plan, hok⟩, hmem⟩

/-- At the root there has been a search for each agent, and all of them have succeeded. -/
theorem summed_of_launch {r : Round Progress SolveReport} (h : s.launch rounds clock budget = some r) :
    (∃ report runs, r = .done report ∧ s.Summed rounds clock budget runs report.stats) ∨
      ∃ root runs, r = .next root ∧ s.Summed rounds clock budget runs root.stats ∧ (∃ run ∈ runs, run.Succeeds) ∧
        s.InPairs root.stats := by
  have hroot := counted_of_launch h
  unfold launch at h
  dsimp only at h
  split at h
  case h_1 =>
    cases h
    exact .inl ⟨_, [], rfl, summed_zero⟩
  case h_2 hvalid =>
    obtain ⟨⟨result, stats⟩, hall, h⟩ := Option.bind_eq_some_iff.mp h
    obtain ⟨runs, hsummed, hsucceeds⟩ := summed_of_planAll summed_zero hall
    rw [List.nil_append] at hsummed
    dsimp only at h
    split at h
    · cases h
      exact .inl ⟨_, runs, rfl, hsummed⟩
    · cases h
      exact .inl ⟨_, runs, rfl, hsummed⟩
    · cases h
      exact .inl ⟨_, runs, rfl, hsummed⟩
    case h_4 plans =>
      obtain ⟨waiting, hins, -, -⟩ := insert_root (.root s.costType plans)
      rw [hins] at h
      cases h
      obtain ⟨hlength, hmem⟩ := hsucceeds plans rfl
      rw [List.length_range] at hlength
      have hpos : 0 < runs.length :=
        hlength ▸ List.length_pos_iff.mpr (validate_eq_ok_iff.mp hvalid).nonempty
      obtain ⟨run, hrun⟩ := List.exists_mem_of_length_pos hpos
      refine .inr ⟨_, runs, rfl, hsummed.of_eq rfl rfl, ⟨run, hrun, hmem run hrun⟩, ?_⟩
      rcases hroot with ⟨_, hdone, -⟩ | ⟨_, hnext, -, hhigh⟩
      · cases hdone
      · cases hnext
        constructor
        · rw [hhigh]
          rfl
        · have hsearches := congrArg List.length hsummed.numbers
          rw [List.length_map, List.length_range, hlength] at hsearches
          rw [hhigh]
          exact hsearches.symm

/-! ### Branches -/

/-- The statistics that a round leaves behind. -/
def statsOf : Round Progress SolveReport → Stats
  | .next t => t.stats
  | .done report => report.stats

/-- A branch whose search took the number `search`. -/
def Searched (s : Solver) (rounds : Nat) (clock : Clock) (budget : Budget) (search : Nat) (branch : Child) : Prop :=
  ∃ agent set report, s.plan rounds clock budget search agent set = some report ∧ branch.counters = report.counters

theorem searched_of_buildChild {node : TreeNode} (hf : s.Fits node) {c : Conflict} (hc : c ∈ node.conflicts)
    {k : Constraint} (hk : k = c.constraints.1 ∨ k = c.constraints.2) {search : Nat} {branch : Child}
    (h : s.buildChild rounds clock budget search node k = some branch) :
    s.Searched rounds clock budget search branch := by
  obtain ⟨_, _, set, _, hh, -⟩ := hf.fresh hc hk
  rw [hh.buildChild_eq] at h
  obtain ⟨report, hplan, rfl⟩ := Option.map_eq_some_iff.mp h
  exact ⟨_, _, report, hplan, rfl⟩

/-- Taking in a branch counts a generated node and a search, whatever comes of it. -/
theorem statsOf_absorb (t : Progress) (branch : Child) : (statsOf (s.absorb t branch)).searches = t.stats.searches + 1 ∧
    (statsOf (s.absorb t branch)).low = t.stats.low.merge branch.counters ∧
    (statsOf (s.absorb t branch)).high.generated = t.stats.high.generated + 1 ∧
    (statsOf (s.absorb t branch)).high.expanded = t.stats.high.expanded := by
  unfold absorb
  dsimp only
  split
  case h_2 => split <;> exact ⟨rfl, rfl, rfl, rfl⟩
  all_goals exact ⟨rfl, rfl, rfl, rfl⟩

theorem summed_of_absorb {t : Progress} (h : s.Summed rounds clock budget runs t.stats) {branch : Child}
    (hbranch : s.Searched rounds clock budget t.stats.searches branch) :
    ∃ run, s.Summed rounds clock budget (runs ++ [run]) (statsOf (s.absorb t branch)) := by
  obtain ⟨agent, set, report, hplan, hcounters⟩ := hbranch
  obtain ⟨hsearches, hlow, -⟩ := statsOf_absorb (s := s) t branch
  rw [hcounters] at hlow
  exact ⟨_, (h.record hplan).of_eq hsearches hlow⟩

/-- Branches that are taken in have been searched for under the next numbers. -/
theorem summed_of_absorbAll {t : Progress} (h : s.Summed rounds clock budget runs t.stats) {branches : List Child}
    (hbranches : ∀ i branch, branches[i]? = some branch →
      s.Searched rounds clock budget (t.stats.searches + i) branch) :
    (∃ more, s.Summed rounds clock budget (runs ++ more) (statsOf (s.absorbAll t branches))) ∧
      ∀ u, s.absorbAll t branches = .next u → u.stats.searches = t.stats.searches + branches.length ∧
        u.stats.high.generated = t.stats.high.generated + branches.length ∧
        u.stats.high.expanded = t.stats.high.expanded := by
  induction branches generalizing t runs with
  | nil =>
    refine ⟨⟨[], by rwa [List.append_nil]⟩, fun u hu => ?_⟩
    cases hu
    exact ⟨rfl, rfl, rfl⟩
  | cons branch rest ih =>
    obtain ⟨run, hrun⟩ := summed_of_absorb h (hbranches 0 branch rfl)
    obtain ⟨hsearches, -, hgenerated, hexpanded⟩ := statsOf_absorb (s := s) t branch
    unfold absorbAll
    cases habsorb : s.absorb t branch with
    | done report =>
      rw [habsorb] at hrun
      exact ⟨⟨[run], hrun⟩, fun u hu => by cases hu⟩
    | next v =>
      rw [habsorb] at hrun hsearches hgenerated hexpanded
      simp only [statsOf] at hsearches hgenerated hexpanded
      obtain ⟨⟨more, hmore⟩, hnext⟩ := ih hrun fun i other hother => by
        rw [hsearches, Nat.add_assoc, Nat.add_comm 1 i]
        exact hbranches (i + 1) other hother
      rw [List.append_assoc] at hmore
      refine ⟨⟨_, hmore⟩, fun u hu => ?_⟩
      obtain ⟨hsearches', hgenerated', hexpanded'⟩ := hnext u hu
      rw [List.length_cons]
      omega

/-! ### Rounds -/

/-- A round adds the searches that it makes, and goes on only with two of them. -/
theorem summed_of_round {t : Progress} (ht : s.Growing t) (h : s.Summed rounds clock budget runs t.stats)
    {r : Round Progress SolveReport} (hround : s.round rounds clock budget t = some r) :
    (∃ more, s.Summed rounds clock budget (runs ++ more) (statsOf r)) ∧
      ∀ u, r = .next u → s.InPairs t.stats → s.InPairs u.stats := by
  have hsame : ∃ more, s.Summed rounds clock budget (runs ++ more) t.stats := ⟨[], by rwa [List.append_nil]⟩
  cases ran_of_round hround with
  | stopped _ => exact ⟨hsame, nofun⟩
  | exhausted _ _ => exact ⟨hsame, nofun⟩
  | solved _ _ _ => exact ⟨hsame, nofun⟩
  | @branched key node waiting c children stopwatch _ hgoing hpop hfirst hchildren habsorb =>
    obtain ⟨hnodes, -⟩ := ht.popMin hpop
    have hf : s.Fits node := ht.fits node (hnodes.mem_iff.mpr List.mem_cons_self)
    have hc : c ∈ node.conflicts := List.mem_of_head? hfirst
    obtain ⟨first, second, rfl, h₁, h₂⟩ := buildChildren_eq_some_iff.mp hchildren
    let v : Progress := { t with waiting := waiting, stats := t.stats.recordExpansion, stopwatch := stopwatch }
    have hv : s.Summed rounds clock budget runs v.stats := h.of_eq rfl rfl
    have hbranches : ∀ i branch, [first, second][i]? = some branch →
        s.Searched rounds clock budget (v.stats.searches + i) branch := by
      intro i branch hbranch
      match i, hbranch with
      | 0, rfl => exact searched_of_buildChild hf hc (.inl rfl) h₁
      | 1, rfl => exact searched_of_buildChild hf hc (.inr rfl) h₂
    obtain ⟨hmore, hnext⟩ := summed_of_absorbAll hv hbranches
    rw [habsorb] at hmore hnext
    refine ⟨hmore, fun u hu hpairs => ?_⟩
    obtain ⟨hsearches, hgenerated, hexpanded⟩ := hnext u hu
    have hv₁ : v.stats.high.expanded = t.stats.high.expanded + 1 := rfl
    have hv₂ : v.stats.searches = t.stats.searches := rfl
    have hv₃ : v.stats.high.generated = t.stats.high.generated := rfl
    have hgenerated₀ := hpairs.generated
    have hsearches₀ := hpairs.searches
    simp only [List.length_cons, List.length_nil] at hsearches hgenerated
    constructor <;> omega

/-- The last round leaves the statistics as they are, unless the time is up for one of its branches. -/
theorem Growing.late {t : Progress} (ht : s.Growing t) {report : SolveReport}
    (h : s.round rounds clock budget t = some (.done report)) : report.stats = t.stats ∨
      lateWarning ∈ report.events ∧ (∃ best, report.result = .error (.budgetExceeded best)) ∧
        ∃ n k, (budget.searchDeadline clock n).expired k = true := by
  cases ran_of_round h with
  | stopped _ => exact .inl rfl
  | exhausted _ _ => exact .inl rfl
  | solved _ _ _ => exact .inl rfl
  | branched hgoing hpop hfirst hchildren habsorb =>
    rcases ended_of_absorbAll habsorb with ⟨hbest, hlate, branch, hbranch, hlast⟩ | ⟨e, herr⟩
    · rw [← branches_of_taken (taken?_of_popMin hgoing hpop) hfirst hchildren] at hbranch
      obtain ⟨_, -, -, _, _, -, -, ⟨o, ho, -⟩ | ⟨-, hexpired⟩⟩ := ht.branched hbranch
      · cases ho.symm.trans hlast
      · exact .inr ⟨hlate, hbest, hexpired⟩
    · exact absurd herr (ht.result_ne h e)

/-! ### The whole solve -/

/-- The searches of a solve, whatever comes of it. If it has a root, its nodes and searches come in pairs, unless the
    time is up while a branch is built. -/
theorem summed_of_search {report : SolveReport} (h : s.search rounds clock budget = some report) :
    ∃ runs, s.Summed rounds clock budget runs report.stats ∧
      ∀ root, s.launch rounds clock budget = some (.next root) → (∃ run ∈ runs, run.Succeeds) ∧
        (s.InPairs report.stats ∨ lateWarning ∈ report.events ∧
          (∃ best, report.result = .error (.budgetExceeded best)) ∧
          ∃ n k, (budget.searchDeadline clock n).expired k = true) := by
  obtain ⟨first, hlaunch, h⟩ := Option.bind_eq_some_iff.mp h
  rcases summed_of_launch hlaunch with ⟨ended, runs, rfl, hruns⟩ | ⟨root, runs, rfl, hruns, hsucceeds, hpairs⟩
  · cases h
    exact ⟨runs, hruns.of_eq rfl rfl, fun root hroot => nomatch hlaunch.symm.trans hroot⟩
  obtain ⟨ended, hrun, h⟩ := Option.bind_eq_some_iff.mp h
  cases h
  obtain ⟨last, ⟨hlast, ⟨runs, hruns, hsucceeds⟩, hpairs⟩, hround⟩ := Loop.run_invariant
    (I := fun t => s.Growing t ∧ (∃ runs, s.Summed rounds clock budget runs t.stats ∧ ∃ run ∈ runs, run.Succeeds) ∧
      s.InPairs t.stats)
    (fun t u ⟨ht, ⟨runs, hruns, run, hmem, hrun⟩, hpairs⟩ hround => by
      obtain ⟨⟨more, hmore⟩, hnext⟩ := summed_of_round ht hruns hround
      exact ⟨(turn_of_round ht hround).growing, ⟨_, hmore, run, List.mem_append_left _ hmem, hrun⟩,
        hnext u rfl hpairs⟩)
    ⟨(launched_of_launch hlaunch).growing, ⟨runs, hruns, hsucceeds⟩, hpairs⟩ hrun
  obtain ⟨⟨more, hmore⟩, -⟩ := summed_of_round hlast hruns hround
  obtain ⟨run, hmem, hrun⟩ := hsucceeds
  refine ⟨runs ++ more, hmore.of_eq rfl rfl, fun _ _ => ⟨⟨run, List.mem_append_left _ hmem, hrun⟩, ?_⟩⟩
  rcases hlast.late hround with hstats | ⟨hlate, hbest, hexpired⟩
  · rw [← hstats] at hpairs
    exact .inl ⟨hpairs.generated, hpairs.searches⟩
  · exact .inr ⟨List.mem_append_left _ hlate, hbest, hexpired⟩

end Solver

/-- The counters of every best-first search balance, whatever comes of it: fewer states are expanded than evaluated if
    it finds a goal, and all states are pruned or evaluated if no estimate is missing. So do the sums that a solve makes
    of them; and unless the time is up while a branch is built, a solve that has a root generates two more nodes and
    makes two more searches for each node that it expands. -/
theorem counters_balance :
    (∀ {σ : Type} [BEq σ] [Hashable σ] [LawfulBEq σ] (P : Problem σ) (prune : Pruning σ) (rounds : Nat)
      (deadline : Deadline) (report : SearchReport (Outcome σ)),
      BestFirst.search rounds P prune deadline = some report →
        report.counters.Balanced (∀ a ∈ BestFirst.asked rounds P prune deadline, (P.heuristic a).isSome)
          (∃ outcome, report.result = .ok outcome)) ∧
    ∀ (s : Solver) (rounds : Nat) (clock : Clock) (budget : Budget) (report : SolveReport),
      s.search rounds clock budget = some report → ∃ runs, s.Summed rounds clock budget runs report.stats ∧
        report.stats.low.Balanced (∀ run ∈ runs, none ∉ run.estimates s rounds clock budget)
          (∃ run ∈ runs, run.Succeeds) ∧
        ∀ root, s.launch rounds clock budget = some (.next root) →
          report.stats.low.expanded < report.stats.low.evaluated ∧
          (s.InPairs report.stats ∨ Solver.lateWarning ∈ report.events ∧
            (∃ best, report.result = .error (.budgetExceeded best)) ∧
            ∃ n k, (budget.searchDeadline clock n).expired k = true) := by
  refine ⟨fun P prune rounds deadline report h => BestFirst.balanced_of_search h,
    fun s rounds clock budget report h => ?_⟩
  obtain ⟨runs, hruns, hroot⟩ := Solver.summed_of_search h
  refine ⟨runs, hruns, hruns.balanced, fun root hlaunch => ?_⟩
  obtain ⟨hsucceeds, hpairs⟩ := hroot root hlaunch
  exact ⟨hruns.balanced.strict hsucceeds, hpairs⟩

/-- A search that evaluates one state twice and misses the estimate of another one, and the solve of two agents of which
    one goes where the other one comes from. -/
theorem balance_rivals : (∃ report, BestFirst.search 10 BestFirst.detour BestFirst.detourPruning ⟨fun k => 0 < k⟩ =
      some report ∧ report.counters.expanded < report.counters.evaluated) ∧
    ∃ solver report, Solver.prepare 100 Solver.bay.environment Solver.bayRivals = some solver ∧
      solver.search 100 .still .unlimited = some report ∧ solver.InPairs report.stats ∧
      report.stats.low.expanded < report.stats.low.evaluated := by
  obtain ⟨hsearches, hsolves⟩ := counters_balance
  constructor
  · obtain ⟨report, hreport, ok⟩ := Option.map_eq_some_iff.mp BestFirst.search_detour
    exact ⟨report, hreport, (hsearches _ _ _ _ report hreport).strict ⟨_, ok⟩⟩
  · obtain ⟨solver, report, hprep, hsearch, ⟨solution, ok⟩, hintime, -⟩ := Solver.search_rivals
    obtain ⟨runs, -, -, hroot⟩ := hsolves _ _ _ _ report hsearch
    rcases Solver.course_of_search hsearch with ⟨ended, hlaunch, rfl⟩ | ⟨root, last, ended, hcourse⟩
    · exact absurd ok (Solver.launched_of_launch hlaunch).not_ok
    · obtain ⟨hexpanded, hpairs | ⟨hlate, -⟩⟩ := hroot root hcourse.launched
      · exact ⟨solver, report, hprep, hsearch, hpairs, hexpanded⟩
      · exact absurd hlate hintime

end Mapf
