import Mapf.Proofs.Graphs
import Mapf.Proofs.Plans
import Mapf.Proofs.Solutions
import Mathlib

/-! # Plans measured against unbounded time

A planner stops time at its horizon and searches among finitely many cells. What it is measured against
knows no horizon: the routes of any length that no constraint forbids at any time, also while the agent
stays at its goal for ever (`Agent.Heeds`). In a lawful environment the planner always answers, says that
there is no plan exactly if there is no such route, and otherwise finds a cheapest one (`Plan.search_exact`).
The path of a plan is sound even where the environment is not lawful and the estimates are wrong
(`Plan.path_respects`). -/

namespace Mapf

/-- A route of an agent that starts inside and that no constraint of a list forbids, neither on its way nor
    from its arrival on. -/
structure Agent.Heeds (agent : Agent) (env : Environment) (constraints : List Constraint) (ps : List Position)
    (cost : Nat) : Prop extends agent.Travels env ps cost where
  inside : env.contains agent.start = true
  vertex : ∀ {t : Nat} {p : Position}, ps[t]? = some p → ∀ owner, .vertex owner p t ∉ constraints
  edge : ∀ {t : Nat} {p q : Position}, ps[t]? = some p → ps[t + 1]? = some q → p ≠ q → ∀ owner,
    .edge owner p q (t + 1) ∉ constraints ∧ .edge owner q p (t + 1) ∉ constraints
  parked : ∀ {t : Nat}, ps.length ≤ t + 1 → ∀ owner, .vertex owner agent.goal t ∉ constraints

/-- What the routes cost that heed the constraints. -/
def Agent.routeCosts (agent : Agent) (env : Environment) (constraints : List Constraint) : Set Nat :=
  {cost | ∃ ps, agent.Heeds env constraints ps cost}

section Heeds

variable {env : Environment} {agent : Agent} {constraints : List Constraint} {ps : List Position} {cost owner : Nat}

/-- A path avoids a cell if it neither passes it nor stays there from its end on. -/
theorem Path.avoids_cell_iff {t : Nat} {p last : Position} (hlast : ps.getLast? = some last) :
    (ofPositions ps).Avoids (.inl (p.atTime t)) ↔ ps[t]? ≠ some p ∧ (ps.length ≤ t + 1 → p ≠ last) := by
  show (ofPositions ps).positionAt t ≠ some p ↔ _
  rw [positionAt_ofPositions, hlast]
  cases ht : ps[t]? with
  | none =>
    have hle := List.getElem?_eq_none_iff.mp ht
    constructor
    · intro h
      exact ⟨nofun, fun _ hp => h (congrArg some hp.symm)⟩
    · rintro ⟨-, h⟩ hp
      exact h (Nat.le_succ_of_le hle) (Option.some.inj hp).symm
  | some q =>
    refine ⟨fun h => ⟨h, fun hle hp => h ?_⟩, And.left⟩
    have hlt := (List.getElem?_eq_some_iff.mp ht).1
    obtain rfl : q = last := by
      rw [List.getLast?_eq_getElem?, Nat.le_antisymm hle hlt, Nat.add_sub_cancel, ht] at hlast
      exact Option.some.inj hlast
    rw [hp]
    rfl

/-- A path avoids an edge at a time if no move that arrives then goes from one of its ends to the other. -/
theorem Path.avoids_edge_iff {t : Nat} {u v : Position} :
    (ofPositions ps).Avoids (.inr (.between t u v)) ↔ ∀ {s p q}, t = s + 1 → ps[s]? = some p →
      ps[s + 1]? = some q → p ≠ q → ¬(p = u ∧ q = v ∨ p = v ∧ q = u) := by
  simp only [Avoids, TimedEdge.timeStep_between, moveAt_ofPositions, ne_eq, TimedEdge.between_eq_iff, true_and]
  constructor
  · rintro h s p q rfl hp hq
    exact h ⟨s, rfl, hp, hq⟩
  · rintro h p q ⟨s, rfl, hp, hq⟩
    exact h rfl hp hq

/-- A route heeds constraints if its path keeps the set that is filled with them. -/
theorem Agent.heeds_iff : agent.Heeds env constraints ps cost ↔ env.contains agent.start = true ∧
    agent.Travels env ps cost ∧ (Path.ofPositions ps).Keeps (.ofList owner constraints) := by
  rw [Path.keeps_ofList_iff]
  constructor
  · intro h
    refine ⟨h.inside, h.toTravels, fun c hc => ?_⟩
    cases c with
    | vertex o p t =>
      refine (Path.avoids_cell_iff h.goal).mpr ⟨fun hp => h.vertex hp o hc, ?_⟩
      rintro hle rfl
      exact h.parked hle o hc
    | edge o u v t =>
      refine Path.avoids_edge_iff.mpr ?_
      rintro s p q rfl hp hq hne (⟨rfl, rfl⟩ | ⟨rfl, rfl⟩)
      · exact (h.edge hp hq hne o).1 hc
      · exact (h.edge hp hq hne o).2 hc
  · rintro ⟨hinside, ht, hk⟩
    have hcell : ∀ {o p t}, .vertex o p t ∈ constraints → ps[t]? ≠ some p ∧ (ps.length ≤ t + 1 → p ≠ agent.goal) :=
      fun hc => (Path.avoids_cell_iff ht.goal).mp (hk _ hc)
    refine ⟨ht, hinside, fun hp o hc => (hcell hc).1 hp, fun hp hq hne o => ⟨fun hc => ?_, fun hc => ?_⟩,
      fun hle o hc => (hcell hc).2 hle rfl⟩
    · exact Path.avoids_edge_iff.mp (hk _ hc) rfl hp hq hne (.inl ⟨rfl, rfl⟩)
    · exact Path.avoids_edge_iff.mp (hk _ hc) rfl hp hq hne (.inr ⟨rfl, rfl⟩)

/-- Where there is a route that heeds constraints, a finished table lets the planner find a cheapest one. -/
theorem Agent.Heeds.informed (h : agent.Heeds env constraints ps cost) (nav : env.Navigable) {table : DistanceTable}
    (relaxed : table.Relaxed env) (goal : table.goal = agent.goal) : Informed env agent table where
  navigable := nav
  relaxed := relaxed
  goal := goal
  start_inside := h.inside
  goal_inside := by
    refine h.route.contains (fun hp => ?_) _ (List.mem_of_getLast? h.goal)
    cases hp.symm.trans h.start
    exact h.inside

end Heeds

namespace Plan

variable {env : Environment} {agent : Agent} {table : DistanceTable} {constraints : List Constraint} {owner : Nat}
  {plan : Plan}

theorem Serves.heeds {ps : List Position} (h : plan.Serves env agent (.ofList owner constraints) ps) :
    agent.Heeds env constraints ps plan.cost :=
  Agent.heeds_iff.mpr ⟨h.inside _ (List.mem_of_mem_head? h.travels.start), h.travels, h.path ▸ h.keeps⟩

/-! ### Exactness -/

/-- With a finished table and without a deadline there are two answers, and each is right. -/
theorem Answers.exact (nav : env.Navigable) (relaxed : table.Relaxed env) (goal : table.goal = agent.goal)
    {result : Except SearchError Plan} (h : Answers env agent table (.ofList owner constraints) .never result) :
    result = .error .noPathFound ∧ agent.routeCosts env constraints = ∅ ∨
      ∃ plan, result = .ok plan ∧ IsLeast (agent.routeCosts env constraints) plan.cost := by
  cases h with
  | @found plan hbest =>
    obtain ⟨ps, hserves⟩ := hbest.serves
    refine .inr ⟨plan, rfl, ⟨ps, hserves.heeds⟩, ?_⟩
    rintro cost ⟨qs, hq⟩
    obtain ⟨-, ht, hk⟩ := Agent.heeds_iff.mp hq
    exact hbest.least (hq.informed nav relaxed goal) ht hk
  | noPath hbarren =>
    refine .inl ⟨rfl, Set.eq_empty_of_forall_notMem ?_⟩
    rintro cost ⟨ps, hp⟩
    obtain ⟨-, ht, hk⟩ := Agent.heeds_iff.mp hp
    exact hbarren (hp.informed nav relaxed goal) ht hk
  | outOfTime hexp => cases hexp

/-- In a lawful environment a planner with a finished table always ends. It says that there is no path exactly
    if no route heeds the constraints, and otherwise the cost of its plan is the least of all such routes. -/
theorem search_exact (lawful : env.Lawful) (agent : Agent) (owner : Nat) (constraints : List Constraint) :
    ∃ table report, (∃ least, ∀ rounds ≥ least, DistanceTable.build rounds env agent.goal = some table ∧
        search rounds env agent table (.ofList owner constraints) .never = some report) ∧
      (report.result = .error .noPathFound ↔ agent.routeCosts env constraints = ∅) ∧
      ((agent.routeCosts env constraints).Nonempty →
        ∃ plan, report.result = .ok plan ∧ IsLeast (agent.routeCosts env constraints) plan.cost) := by
  -- In a finite environment both loops end, and more rounds keep what they gave.
  obtain ⟨cells, within⟩ := lawful.finite
  obtain ⟨table, htable⟩ : ∃ table, DistanceTable.build _ env agent.goal = some table :=
    DistanceTable.build_ends within (Nat.lt_succ_self _)
  have hset := ConstraintSet.indexed_ofList owner constraints
  obtain ⟨report, hreport⟩ : ∃ report, search _ env agent table (.ofList owner constraints) .never = some report :=
    search_ends hset within .never (Nat.lt_succ_self _)
  obtain ⟨relaxed, goal⟩ := DistanceTable.relaxed_of_build htable
  refine ⟨table, report, ⟨_, fun rounds hr => ⟨DistanceTable.build_mono (le_of_max_le_left hr) htable,
    search_mono (le_of_max_le_right hr) hreport⟩⟩, ?_⟩
  rcases (answers_of_search hset hreport).exact lawful.navigable relaxed goal with ⟨hno, hempty⟩ | ⟨plan, hok, hleast⟩
  · rw [hempty]
    exact ⟨by simp [hno], fun h => absurd h Set.not_nonempty_empty⟩
  · refine ⟨?_, fun _ => ⟨plan, hok, hleast⟩⟩
    rw [hok]
    exact ⟨nofun, fun hempty => absurd (hempty ▸ hleast.1) (Set.notMem_empty _)⟩

/-! ### Soundness without laws -/

/-- A path that keeps a set is not violated by it: the check looks at the edges of waiting steps too, which
    only a constraint on an edge with equal ends forbids. -/
theorem isViolatedBy_of_keeps {set : ConstraintSet} (h : set.Indexed)
    (proper : ∀ t p, .inr (.between t p p) ∉ set.forbidden) {path : Path} (hk : path.Keeps set)
    (timed : ∀ {t : Nat} {c : Cell}, path[t]? = some c → c.time = t) : set.isViolatedBy path = false := by
  rw [Path.keeps_iff h] at hk
  rw [ConstraintSet.isViolatedBy, Bool.or_eq_false_iff, List.any_eq_false, List.any_eq_false]
  constructor
  · intro c hc
    obtain ⟨t, ht⟩ := List.mem_iff_getElem?.mp hc
    have hfree := hk.1 (t := t) (p := c.position) (by rw [Path.positionAt, ht]; rfl)
    rw [← timed ht, Cell.atTime_position] at hfree
    exact Bool.eq_false_iff.mp hfree
  · rintro ⟨c, d⟩ hm
    obtain ⟨t, hc, hd⟩ := Solution.mem_steps.mp hm
    show ¬set.violatesEdge d.time c.position d.position = true
    by_cases hne : c.position = d.position
    · rw [hne, h.violatesEdge_iff]
      exact proper _ _
    · rw [timed hd, Bool.not_eq_true]
      exact hk.2 (by simp only [Path.moveAt, hc, hd]) hne

theorem mem_forbidden_between_self {t : Nat} {p : Position} :
    .inr (.between t p p) ∈ (ConstraintSet.ofList owner constraints).forbidden ↔ ∃ o, .edge o p p t ∈ constraints := by
  rw [ConstraintSet.mem_forbidden_ofList]
  constructor
  · rintro ⟨c, hc, hx⟩
    cases c with
    | vertex => cases hx
    | edge o u v t' =>
      obtain ⟨rfl, ⟨rfl, rfl⟩ | ⟨rfl, rfl⟩⟩ := TimedEdge.between_eq_iff.mp (Sum.inr.inj hx)
      · exact ⟨o, hc⟩
      · exact ⟨o, hc⟩
  · rintro ⟨o, hc⟩
    exact ⟨_, hc, rfl⟩

/-- In any environment, with any estimates and any deadline, the path of a plan leads its agent to the goal and
    breaks no constraint, and neither does staying at the goal from its end on. -/
theorem path_respects (proper : ∀ o p t, .edge o p p t ∉ constraints) {rounds : Nat} {deadline : Deadline}
    {report : SearchReport Plan}
    (h : search rounds env agent table (.ofList owner constraints) deadline = some report)
    (ok : report.result = .ok plan) :
    plan.path ≠ [] ∧ plan.path.Guides env agent ∧
      (ConstraintSet.ofList owner constraints).isViolatedBy plan.path = false ∧
      ∀ t, plan.path.length ≤ t + 1 → ∀ o, .vertex o agent.goal t ∉ constraints := by
  have hset := ConstraintSet.indexed_ofList owner constraints
  have hans := answers_of_search hset h
  rw [ok] at hans
  cases hans with
  | found hbest =>
    obtain ⟨ps, hserves⟩ := hbest.serves
    have hguides := hserves.guides
    refine ⟨fun hnil => ?_, hguides, isViolatedBy_of_keeps hset (fun t p hx => ?_) hserves.keeps hguides.timed,
      fun t ht => hserves.heeds.parked ?_⟩
    · have hstart := hguides.start
      rw [hnil] at hstart
      cases hstart
    · obtain ⟨o, hc⟩ := mem_forbidden_between_self.mp hx
      exact proper o p t hc
    · rwa [hserves.path, Path.length_ofPositions] at ht

end Plan

end Mapf
