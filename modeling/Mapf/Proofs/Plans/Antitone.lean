import Mapf.Proofs.Plans.Exact

/-! # More constraints never help

A set of constraints that forbids less leaves an agent all routes that a stricter one leaves it. So in a lawful
environment the planner finds a route under the laxer set if it finds one under the stricter set, and one that costs no
more (`Plan.search_antitone`).

The two searches stop time at different horizons, leave out different cells and accept the goal at different times, so
they are not compared step by step: each of them is measured against the routes in unbounded time. -/

namespace Mapf

/-- A set is laxer than another one if it forbids nothing that the other one does not forbid: no cell, and no move
    between two positions. -/
structure ConstraintSet.Laxer (lax strict : ConstraintSet) : Prop where
  vertex : ∀ {cell : Cell}, lax.violatesVertex cell = true → strict.violatesVertex cell = true
  edge : ∀ {t : Nat} {p q : Position}, p ≠ q → lax.violatesEdge t p q = true → strict.violatesEdge t p q = true

theorem ConstraintSet.laxer_ofList {owner owner' : Nat} {lax strict : List Constraint}
    (h : ∀ c ∈ lax, ∃ d ∈ strict, c.forbids = d.forbids) : (ofList owner lax).Laxer (ofList owner' strict) := by
  have hforbidden : ∀ {x}, x ∈ (ofList owner lax).forbidden → x ∈ (ofList owner' strict).forbidden := by
    intro x hx
    rw [mem_forbidden_ofList] at hx ⊢
    obtain ⟨c, hc, rfl⟩ := hx
    exact h c hc
  have hlax := indexed_ofList owner lax
  have hstrict := indexed_ofList owner' strict
  exact ⟨fun hv => hstrict.violatesVertex_iff.mpr (hforbidden (hlax.violatesVertex_iff.mp hv)),
    fun _ hv => hstrict.violatesEdge_iff.mpr (hforbidden (hlax.violatesEdge_iff.mp hv))⟩

/-- A path that keeps a set keeps every laxer one. -/
theorem Path.Keeps.laxer {path : Path} {lax strict : ConstraintSet} (hk : path.Keeps strict) (hlax : lax.Indexed)
    (hstrict : strict.Indexed) (h : lax.Laxer strict) : path.Keeps lax := by
  obtain ⟨hcells, hmoves⟩ := (keeps_iff hstrict).mp hk
  refine (keeps_iff hlax).mpr ⟨fun {t p} hp => ?_, fun {t p q} hm hne => ?_⟩
  · rw [← Bool.not_eq_true]
    intro hv
    cases (hcells hp).symm.trans (h.vertex hv)
  · rw [← Bool.not_eq_true]
    intro hv
    cases (hmoves hm hne).symm.trans (h.edge hne hv)

variable {env : Environment} {agent : Agent} {owner owner' : Nat} {lax strict : List Constraint}

/-- A route that heeds the stricter constraints heeds the laxer ones at the same cost. -/
theorem Agent.routeCosts_subset (h : (ConstraintSet.ofList owner lax).Laxer (.ofList owner' strict)) :
    agent.routeCosts env strict ⊆ agent.routeCosts env lax := by
  rintro cost ⟨ps, hp⟩
  obtain ⟨hinside, htravels, hkeeps⟩ := Agent.heeds_iff.mp hp
  exact ⟨ps, Agent.heeds_iff.mpr ⟨hinside, htravels,
    hkeeps.laxer (ConstraintSet.indexed_ofList owner lax) (ConstraintSet.indexed_ofList owner' strict) h⟩⟩

namespace Plan

/-- In a lawful environment a table is finished, and with it a search under any constraints ends: either there is no
    route that heeds them, or it finds a cheapest one. -/
theorem decided_of_lawful (lawful : env.Lawful) (agent : Agent) : ∃ table least,
    (∀ rounds ≥ least, DistanceTable.build rounds env agent.goal = some table) ∧
      ∀ (owner : Nat) (constraints : List Constraint), ∃ report least,
        (∀ rounds ≥ least, search rounds env agent table (.ofList owner constraints) .never = some report) ∧
          (report.result = .error .noPathFound ∧ agent.routeCosts env constraints = ∅ ∨
            ∃ plan, report.result = .ok plan ∧ IsLeast (agent.routeCosts env constraints) plan.cost) := by
  obtain ⟨cells, within⟩ := lawful.finite
  obtain ⟨table, htable⟩ : ∃ table, DistanceTable.build _ env agent.goal = some table :=
    DistanceTable.build_ends within (Nat.lt_succ_self _)
  obtain ⟨relaxed, goal⟩ := DistanceTable.relaxed_of_build htable
  refine ⟨table, _, fun rounds hr => DistanceTable.build_mono hr htable, fun owner constraints => ?_⟩
  have hset := ConstraintSet.indexed_ofList owner constraints
  obtain ⟨report, hreport⟩ : ∃ report, search _ env agent table (.ofList owner constraints) .never = some report :=
    search_ends hset within .never (Nat.lt_succ_self _)
  exact ⟨report, _, fun rounds hr => search_mono hr hreport,
    (answers_of_search hset hreport).exact lawful.navigable relaxed goal⟩

/-- If there is no path under the laxer constraints, there is none under the stricter ones; and if there is a plan under
    the stricter ones, there is one under the laxer ones, at no greater cost. -/
theorem search_antitone (lawful : env.Lawful) (agent : Agent)
    (laxer : (ConstraintSet.ofList owner lax).Laxer (.ofList owner' strict)) :
    ∃ table report report', (∃ least, ∀ rounds ≥ least, DistanceTable.build rounds env agent.goal = some table ∧
        search rounds env agent table (.ofList owner lax) .never = some report ∧
        search rounds env agent table (.ofList owner' strict) .never = some report') ∧
      (report.result = .error .noPathFound → report'.result = .error .noPathFound) ∧
      ∀ plan', report'.result = .ok plan' → ∃ plan, report.result = .ok plan ∧ plan.cost ≤ plan'.cost := by
  obtain ⟨table, least₀, htable, hdecided⟩ := decided_of_lawful lawful agent
  obtain ⟨report, least₁, hreport, hresult⟩ := hdecided owner lax
  obtain ⟨report', least₂, hreport', hresult'⟩ := hdecided owner' strict
  have hsubset : agent.routeCosts env strict ⊆ agent.routeCosts env lax := Agent.routeCosts_subset laxer
  refine ⟨table, report, report', ⟨max least₀ (max least₁ least₂), fun rounds hr => ⟨htable rounds (by omega),
    hreport rounds (by omega), hreport' rounds (by omega)⟩⟩, ?_⟩
  rcases hresult with ⟨hno, hempty⟩ | ⟨plan, hok, -, hlower⟩
  case inl =>
    rcases hresult' with ⟨hno', -⟩ | ⟨plan', -, hmem, -⟩
    · refine ⟨fun _ => hno', fun plan' hok' => ?_⟩
      cases hno'.symm.trans hok'
    · exact absurd (hempty ▸ hsubset hmem) (Set.notMem_empty _)
  case inr =>
    refine ⟨fun hno => ?_, fun plan' hok' => ⟨plan, hok, ?_⟩⟩
    · cases hno.symm.trans hok
    · rcases hresult' with ⟨hno', -⟩ | ⟨plan'', hok'', hmem, -⟩
      · cases hno'.symm.trans hok'
      · cases hok''.symm.trans hok'
        exact hlower (hsubset hmem)

end Plan

end Mapf
