import Mapf.Proofs.SpaceTime

/-! # Stopping time loses nothing

The planner searches the cells up to its horizon, which lies one time after the last constraint. The sequences of
positions that it accepts there are those of the unbounded space, in which every position has its real time and a goal
counts if no constraint ever forbids it from then on (`SpaceTime.frozen_exact`). Nothing is asked of the environment,
of the estimates or of the constraints. -/

namespace Mapf

/-- A search may go through these states, one after the other, and end with the last of them. -/
structure Problem.Accepts {σ : Type} (P : Problem σ) (prune : Pruning σ) (states : List σ) : Prop where
  trail : ∃ cost, P.Trail prune states.reverse cost
  goal : ∃ last, states.getLast? = some last ∧ P.isGoal last = true

namespace SpaceTime

variable {env : Environment} {agent : Agent} {table : DistanceTable} {set : ConstraintSet} {ps : List Position}
  {owner : Nat} {constraints : List Constraint}

/-- The sequences of positions that count as plans where time does not stop: the position at each place is entered at
    that time, by waiting or by a listed move and unpruned, and no constraint forbids the goal from the arrival on. -/
structure Timed (env : Environment) (agent : Agent) (owner : Nat) (constraints : List Constraint)
    (ps : List Position) : Prop where
  start : ps.head? = some agent.start
  entered : pruning env (.ofList owner constraints) (agent.start.atTime 0) none = false
  step : ∀ {t : Nat} {p q : Position}, ps[t]? = some p → ps[t + 1]? = some q →
    (q = p ∨ ∃ c, (q, c) ∈ env.neighbors p) ∧
      pruning env (.ofList owner constraints) (q.atTime (t + 1)) (some (p.atTime t)) = false
  goal : ps.getLast? = some agent.goal
  parked : ∀ {t : Nat}, ps.length ≤ t + 1 → ∀ o, .vertex o agent.goal t ∉ constraints

theorem horizon_ofList (owner : Nat) (constraints : List Constraint) :
    horizon (.ofList owner constraints) = ((constraints.map Constraint.timeStep).max?.map (· + 1)).getD 0 := by
  have hset := ConstraintSet.indexed_ofList owner constraints
  cases hm : (constraints.map Constraint.timeStep).max? with
  | none =>
    rw [List.max?_eq_none_iff, List.map_eq_nil_iff] at hm
    rw [hm]
    rfl
  | some m =>
    obtain ⟨hmem, hle⟩ := List.max?_eq_some_iff.mp hm
    refine Nat.le_antisymm (horizon_le hset fun x hx => ?_) ?_
    · obtain ⟨c, hc, rfl⟩ := ConstraintSet.mem_forbidden_ofList.mp hx
      rw [Constraint.timeStep_of_forbids]
      exact Nat.lt_succ_of_le (hle _ (List.mem_map_of_mem hc))
    · obtain ⟨c, hc, rfl⟩ := List.mem_map.mp hmem
      have := lt_horizon hset (ConstraintSet.mem_forbidden_ofList.mpr ⟨c, hc, rfl⟩)
      rwa [Constraint.timeStep_of_forbids] at this

/-- Frozen cells are a trail exactly if their positions are an allowed route from the start. -/
theorem trail_frozen_iff (h : set.Indexed) :
    (∃ cost, (problem env agent table set).Trail (pruning env set) (frozen set ps).reverse cost) ↔
      ps.head? = some agent.start ∧ (∃ cost, env.Route ps cost) ∧ Allowed env set ps := by
  simp only [trail_iff h]
  constructor
  · rintro ⟨cost, qs, hcells, hhead, hroute, hall⟩
    obtain rfl : ps = qs := calc
      ps = (frozen set ps).map Cell.position := (map_position_frozen ps).symm
      _ = qs := by rw [List.reverse_inj.mp hcells, map_position_frozen]
    exact ⟨hhead, ⟨cost, hroute⟩, hall⟩
  · rintro ⟨hhead, ⟨cost, hroute⟩, hall⟩
    exact ⟨cost, ps, rfl, hhead, hroute, hall⟩

/-- The last frozen cell counts as a goal exactly if it is at the goal and may be there from its real time on. -/
theorem goal_frozen_iff (h : set.Indexed) :
    (∃ last, (frozen set ps).getLast? = some last ∧ (problem env agent table set).isGoal last = true) ↔
      ps.getLast? = some agent.goal ∧ ∀ t, ps.length ≤ t + 1 → set.violatesVertex (agent.goal.atTime t) = false := by
  rcases List.eq_nil_or_concat ps with rfl | ⟨ps, p, rfl⟩
  · simp [frozen]
  · rw [List.concat_eq_append, frozen_snoc, List.getLast?_append_of_ne_nil _ (List.cons_ne_nil _ _),
      List.getLast?_append_of_ne_nil _ (List.cons_ne_nil _ _), List.length_append, List.length_singleton]
    simp only [List.getLast?_singleton, Option.some.injEq, exists_eq_left', isGoal_iff h, Nat.add_le_add_iff_right]
    constructor
    · rintro ⟨rfl, hfree⟩
      exact ⟨rfl, hfree⟩
    · rintro ⟨rfl, hfree⟩
      exact ⟨rfl, hfree⟩

/-- Time stops one after the last constraint, or at once without any; a sequence of positions is accepted with its
    times frozen there exactly if it is a plan with its real times. -/
theorem frozen_exact (env : Environment) (agent : Agent) (table : DistanceTable) (owner : Nat)
    (constraints : List Constraint) :
    horizon (.ofList owner constraints) = ((constraints.map Constraint.timeStep).max?.map (· + 1)).getD 0 ∧
      ∀ ps, (problem env agent table (.ofList owner constraints)).Accepts (pruning env (.ofList owner constraints))
        (frozen (.ofList owner constraints) ps) ↔ Timed env agent owner constraints ps := by
  have hset := ConstraintSet.indexed_ofList owner constraints
  refine ⟨horizon_ofList owner constraints, fun ps => ?_⟩
  constructor
  · rintro ⟨htrail, hlast⟩
    obtain ⟨hhead, hroute, hall⟩ := (trail_frozen_iff hset).mp htrail
    obtain ⟨hgoal, hfree⟩ := (goal_frozen_iff hset).mp hlast
    obtain ⟨-, hstep⟩ := Environment.exists_route_iff.mp hroute
    refine ⟨hhead, pruning_none_eq_false_iff.mpr (hall.first (List.head?_eq_getElem? ▸ hhead)), fun hp hq => ⟨?_,
      pruning_eq_false_iff.mpr (hall.next hp hq)⟩, hgoal, fun ht => ConstraintSet.violatesVertex_ofList.mp (hfree _ ht)⟩
    obtain ⟨c, hs⟩ := hstep hp hq
    cases hs with
    | wait => exact .inl rfl
    | move hm _ => exact .inr ⟨c, hm⟩
  · intro h
    have hnext : ∀ {t p q}, ps[t]? = some p → ps[t + 1]? = some q → Allows env _ p q (t + 1) :=
      fun hp hq => pruning_eq_false_iff.mp (h.step hp hq).2
    refine ⟨(trail_frozen_iff hset).mpr ⟨h.start, Environment.exists_route_iff.mpr ⟨?_, fun hp hq => ?_⟩, ?_⟩,
      (goal_frozen_iff hset).mpr ⟨h.goal, fun t ht => ConstraintSet.violatesVertex_ofList.mpr (h.parked ht)⟩⟩
    · rintro rfl
      cases h.start
    · rcases (h.step hp hq).1 with rfl | ⟨c, hm⟩
      · exact ⟨_, .wait⟩
      · exact ⟨c, .move hm (hnext hp hq).inside⟩
    · refine ⟨fun hp => ?_, hnext⟩
      cases (List.head?_eq_getElem? ▸ h.start).symm.trans hp
      exact pruning_none_eq_false_iff.mp h.entered

end SpaceTime

end Mapf
