import Mapf.Proofs.Tree.Rounds

/-! # The start and the end of a tree search

A search starts from the root if the agents are fit to be planned and each has a plan of its own
(`Solver.Launched`). What its turns keep holds where it ends (`Solver.search_cases`). -/

namespace Mapf

/-- Agents fit to be planned: there are some, they start and end inside, and no two share an id, a start or a
    goal. -/
structure ValidAgents (env : Environment) (agents : List Agent) : Prop where
  nonempty : agents ≠ []
  inside : ∀ a ∈ agents, a.verify env = true
  ids : (agents.map Agent.id).Nodup
  starts : (agents.map Agent.start).Nodup
  goals : (agents.map Agent.goal).Nodup

namespace Solver

variable {s : Solver} {rounds : Nat} {clock : Clock} {budget : Budget}

theorem validateAfter_eq_ok_iff {env : Environment} {earlier agents : List Agent} :
    validateAfter env earlier agents = .ok () ↔ (∀ a ∈ agents, a.verify env = true) ∧
      (∀ a ∈ agents, ∀ b ∈ earlier, b.id ≠ a.id ∧ b.start ≠ a.start ∧ b.goal ≠ a.goal) ∧
      agents.Pairwise fun a b => a.id ≠ b.id ∧ a.start ≠ b.start ∧ a.goal ≠ b.goal := by
  induction agents generalizing earlier with
  | nil => simp [validateAfter]
  | cons a rest ih =>
    simp only [validateAfter, List.any_eq_true, decide_eq_true_eq, List.forall_mem_cons, List.pairwise_cons]
    constructor
    · intro h
      split at h
      · cases h
      case isFalse hin =>
        split at h
        · cases h
        case isFalse hid =>
          split at h
          · cases h
          case isFalse hstart =>
            split at h
            · cases h
            case isFalse hgoal =>
              obtain ⟨hrest, hne, hpair⟩ := ih.mp h
              refine ⟨⟨not_not.mp hin, hrest⟩, ⟨fun b hb => ⟨fun e => hid ⟨b, hb, e⟩, fun e => hstart ⟨b, hb, e⟩,
                fun e => hgoal ⟨b, hb, e⟩⟩, fun b hb c hc => hne b hb c (List.mem_cons_of_mem _ hc)⟩,
                fun b hb => hne b hb a List.mem_cons_self, hpair⟩
    · rintro ⟨⟨hin, hrest⟩, ⟨hne, hne'⟩, hfirst, hpair⟩
      rw [if_neg (not_not.mpr hin), if_neg (fun ⟨b, hb, e⟩ => (hne b hb).1 e),
        if_neg (fun ⟨b, hb, e⟩ => (hne b hb).2.1 e), if_neg (fun ⟨b, hb, e⟩ => (hne b hb).2.2 e)]
      refine ih.mpr ⟨hrest, fun b hb c hc => ?_, hpair⟩
      rcases List.mem_cons.mp hc with rfl | hc
      · exact hfirst b hb
      · exact hne' b hb c hc

/-- A solver accepts exactly the agents that are fit to be planned. -/
theorem validate_eq_ok_iff : s.validate = .ok () ↔ ValidAgents s.env s.agents := by
  have hpair : s.agents.Pairwise (fun a b => a.id ≠ b.id ∧ a.start ≠ b.start ∧ a.goal ≠ b.goal) ↔
      (s.agents.map Agent.id).Nodup ∧ (s.agents.map Agent.start).Nodup ∧ (s.agents.map Agent.goal).Nodup := by
    simp only [List.Nodup, List.pairwise_map, List.pairwise_and_iff]
  unfold validate
  split
  case isTrue hempty =>
    exact ⟨nofun, fun h => absurd (List.isEmpty_iff.mp hempty) h.nonempty⟩
  case isFalse hne =>
    rw [validateAfter_eq_ok_iff, hpair]
    constructor
    · rintro ⟨hin, -, hid, hstart, hgoal⟩
      exact ⟨fun h => hne (List.isEmpty_iff.mpr h), hin, hid, hstart, hgoal⟩
    · exact fun h => ⟨h.inside, fun _ _ _ hb => absurd hb List.not_mem_nil, h.ids, h.starts, h.goals⟩

/-- What becomes of the start of a search. -/
inductive Launched (s : Solver) (clock : Clock) (budget : Budget) : Round Progress SolveReport → Prop
  | unfit {report : SolveReport} {invalid : InvalidInput} :
      report.result = .error (.invalidInput invalid.message) → s.validate = .error invalid →
      Launched s clock budget (.done report)
  | barren {report : SolveReport} {i : Nat} {agent : Agent} {table : DistanceTable} :
      report.result = .error .noSolutionFound → s.validate = .ok () → s.agents[i]? = some agent →
      s.tables[i]? = some table → Plan.Barren s.env agent table (.empty i) → Launched s clock budget (.done report)
  | outOfBudget {report : SolveReport} : report.result = .error (.budgetExceeded none) → budget.Spent clock 0 →
      Launched s clock budget (.done report)
  | untabled {report : SolveReport} {i : Nat} : report.result = .error (.search .indexOutOfRange) →
      i < s.agents.length → s.tables[i]? = none → Launched s clock budget (.done report)
  | rooted {t : Progress} {plans : List Plan} : s.validate = .ok () → s.Growing t →
      t.nodes = [.root s.costType plans] → t.stats.high.expanded = 0 → Launched s clock budget (.next t)

theorem Launched.growing {t : Progress} (h : Launched s clock budget (.next t)) : s.Growing t := by
  cases h with
  | rooted _ hg _ _ => exact hg

theorem Launched.not_ok {report : SolveReport} (h : Launched s clock budget (.done report)) {solution : Solution} :
    report.result ≠ .ok solution := by
  intro ok
  cases h with
  | unfit hres _ => cases hres.symm.trans ok
  | barren hres _ _ _ _ => cases hres.symm.trans ok
  | outOfBudget hres _ => cases hres.symm.trans ok
  | untabled hres _ _ => cases hres.symm.trans ok

theorem expanded_of_planAll {is : List Nat} {stats stats' : Stats} {result : Except SearchError (List Plan)}
    (h : s.planAll rounds clock budget is stats = some (result, stats')) :
    stats'.high = stats.high := by
  induction is generalizing stats result with
  | nil =>
    cases h
    rfl
  | cons i rest ih =>
    obtain ⟨report, -, h⟩ := Option.bind_eq_some_iff.mp h
    dsimp only at h
    split at h
    · cases h
      rfl
    · obtain ⟨⟨rest', stats''⟩, hrest, h⟩ := Option.bind_eq_some_iff.mp h
      cases h
      exact (ih hrest).trans rfl

theorem insert_root (node : TreeNode) : ∃ waiting : Queue Nat TreeNode, Queue.empty.insert 0 node = .ok waiting ∧
    waiting.Valid ∧ waiting.toList = [⟨0, node, 0⟩] := by
  obtain ⟨waiting, hins, hvalid, -, hperm⟩ :=
    (Queue.valid_empty (κ := Nat) (π := TreeNode)).insert (Queue.find?_empty 0) node
  exact ⟨waiting, hins, hvalid, List.perm_singleton.mp hperm⟩

theorem launched_of_plant (hvalid : s.validate = .ok ()) {stopwatch : Stopwatch} {r : Round Progress SolveReport}
    (h : s.plant rounds clock budget stopwatch = some r) : Launched s clock budget r := by
  obtain ⟨⟨result, stats⟩, hall, h⟩ := Option.bind_eq_some_iff.mp h
  have hexp := expanded_of_planAll hall
  rcases planned_of_planAll hall with ⟨plans, rfl, hplans⟩ | ⟨i, hi, e, rfl, hp⟩
  · have hfits := fits_root hplans
    obtain ⟨q, hins, hq, hlist⟩ := insert_root (.root s.costType plans)
    dsimp only at h
    rw [hins] at h
    cases h
    refine .rooted hvalid ⟨hq, fun e he => ?_, fun node hnode => ?_⟩
      (?_ : _ = [TreeNode.root s.costType plans]) ?_
    · rw [show _ = q.toList from rfl, hlist, List.mem_singleton] at he
      rw [he]
    · rw [Progress.nodes, hlist] at hnode
      rw [List.mem_singleton.mp hnode]
      exact hfits
    · rw [Progress.nodes, hlist]
      rfl
    · show stats.high.expanded = 0
      rw [hexp]
      rfl
  · have hlt : i < s.agents.length := List.mem_range.mp hi
    cases hp with
    | missing hno =>
      cases h
      rcases hno with hno | hno
      · rw [List.getElem?_eq_none_iff] at hno
        omega
      · exact .untabled rfl hlt hno
    | answered ha ht hans =>
      cases hans with
      | noPath hno =>
        cases h
        exact .barren rfl hvalid ha ht hno
      | outOfTime hexp =>
        cases h
        exact .outOfBudget rfl (.search hexp)

theorem launched_of_launch {r : Round Progress SolveReport} (h : s.launch rounds clock budget = some r) :
    Launched s clock budget r := by
  unfold launch at h
  dsimp only at h
  split at h
  case h_1 invalid hinv =>
    cases h
    exact .unfit rfl hinv
  case h_2 hvalid => exact launched_of_plant hvalid h

/-- At the root, which is the best node so far, nothing of the tree search has been counted but its generation. -/
theorem counted_of_launch {r : Round Progress SolveReport} (h : s.launch rounds clock budget = some r) :
    (∃ report, r = .done report ∧ report.stats.high = .zero) ∨
      ∃ t, r = .next t ∧ t.nodes = [t.best] ∧ t.stats.high = Counters.zero.recordGeneration := by
  unfold launch at h
  dsimp only at h
  split at h
  · cases h
    exact .inl ⟨_, rfl, rfl⟩
  obtain ⟨⟨result, stats⟩, hall, h⟩ := Option.bind_eq_some_iff.mp h
  have hhigh : stats.high = .zero := expanded_of_planAll hall
  dsimp only at h
  split at h
  · cases h
    exact .inl ⟨_, rfl, hhigh⟩
  · cases h
    exact .inl ⟨_, rfl, hhigh⟩
  · cases h
    exact .inl ⟨_, rfl, hhigh⟩
  case h_4 plans =>
    obtain ⟨waiting, hins, -, hlist⟩ := insert_root (.root s.costType plans)
    rw [hins] at h
    cases h
    refine .inr ⟨_, rfl, ?_, congrArg Counters.recordGeneration hhigh⟩
    rw [Progress.nodes, hlist]
    rfl

/-- A search ends with its start, or with a turn; what holds at the root and is kept by every turn holds there. -/
theorem search_cases {I : Progress → Prop}
    (root : ∀ {t : Progress}, Launched s clock budget (.next t) → I t)
    (keep : ∀ {t u : Progress}, s.Growing t → I t → Turn s clock budget t (.next u) → I u)
    {report : SolveReport} (h : s.search rounds clock budget = some report) :
    ∃ r : SolveReport, report.result = r.result ∧ (Launched s clock budget (.done r) ∨
      ∃ t, s.Growing t ∧ I t ∧ Turn s clock budget t (.done r)) := by
  obtain ⟨first, hlaunch, h⟩ := Option.bind_eq_some_iff.mp h
  have hl := launched_of_launch hlaunch
  cases first with
  | done r =>
    cases h
    exact ⟨r, rfl, .inl hl⟩
  | next t =>
    obtain ⟨r, hr, h⟩ := Option.bind_eq_some_iff.mp h
    cases h
    obtain ⟨u, ⟨hu, hinv⟩, hround⟩ := Loop.run_invariant (I := fun t => s.Growing t ∧ I t)
      (fun t u ⟨ht, hinv⟩ hround => by
        have hturn := turn_of_round ht hround
        exact ⟨hturn.growing, keep ht hinv hturn⟩) ⟨hl.growing, root hl⟩ hr
    exact ⟨r, rfl, .inr ⟨u, hu, hinv, turn_of_round hu hround⟩⟩

end Solver

end Mapf
