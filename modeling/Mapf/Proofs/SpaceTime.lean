import Mapf.Proofs.Routes
import Mapf.Proofs.Search.Trail

/-! # Space and time

The planner stops time at its horizon. As nothing is forbidden from there on, its trails are the routes
that are allowed at every real time (`trail_iff`), and a last cell counts as a goal exactly if the agent
may stay there for all time (`isGoal_iff`). -/

namespace Mapf

namespace SpaceTime

variable {env : Environment} {agent : Agent} {table : DistanceTable} {set : ConstraintSet}

/-- Nothing is forbidden from the horizon on. -/
theorem lt_horizon (h : set.Indexed) {x : Cell ⊕ TimedEdge} (hx : x ∈ set.forbidden) :
    x.elim Cell.time TimedEdge.timeStep < horizon set := by
  obtain ⟨m, hm, hle⟩ := h.le_maxTimeStep hx
  rw [horizon, hm]
  exact Nat.lt_succ_of_le hle

theorem horizon_le (h : set.Indexed) {n : Nat}
    (hn : ∀ x ∈ set.forbidden, x.elim Cell.time TimedEdge.timeStep < n) : horizon set ≤ n := by
  rw [horizon]
  cases hm : set.maxTimeStep with
  | none => exact Nat.zero_le n
  | some m =>
    obtain ⟨x, hx, rfl⟩ := h.maxTimeStep_attained hm
    exact hn x hx

/-- Freezing a time at the horizon forbids neither more nor less. -/
theorem violatesVertex_frozen (h : set.Indexed) (p : Position) (t : Nat) :
    set.violatesVertex (p.atTime (min t (horizon set))) = set.violatesVertex (p.atTime t) := by
  rcases Nat.lt_or_ge t (horizon set) with ht | ht
  · rw [Nat.min_eq_left (Nat.le_of_lt ht)]
  · have hfree : ∀ {u}, horizon set ≤ u → set.violatesVertex (p.atTime u) = false := fun {u} hu => by
      rw [← Bool.not_eq_true, h.violatesVertex_iff]
      intro hx
      exact Nat.not_lt.mpr hu (lt_horizon h hx)
    rw [Nat.min_eq_right ht, hfree (Nat.le_refl _), hfree ht]

theorem violatesEdge_frozen (h : set.Indexed) (p q : Position) (t : Nat) :
    set.violatesEdge (min t (horizon set)) p q = set.violatesEdge t p q := by
  rcases Nat.lt_or_ge t (horizon set) with ht | ht
  · rw [Nat.min_eq_left (Nat.le_of_lt ht)]
  · have hfree : ∀ {u}, horizon set ≤ u → set.violatesEdge u p q = false := fun {u} hu => by
      rw [← Bool.not_eq_true, h.violatesEdge_iff]
      intro hx
      have := lt_horizon h hx
      simp only [Sum.elim_inr, TimedEdge.timeStep_between] at this
      omega
    rw [Nat.min_eq_right ht, hfree (Nat.le_refl _), hfree ht]

/-! ### Moves -/

/-- What a set and an environment allow when an agent arrives at `q` at time `t`, coming from `p`. -/
structure Allows (env : Environment) (set : ConstraintSet) (p q : Position) (t : Nat) : Prop where
  inside : env.contains q = true
  vertex : set.violatesVertex (q.atTime t) = false
  edge : p ≠ q → set.violatesEdge t p q = false
  passable : p ≠ q → (env.edgeCost p q).isSome

theorem pruning_none_eq_false_iff {b : Cell} :
    pruning env set b none = false ↔ env.contains b.position = true ∧ set.violatesVertex b = false := by
  simp only [pruning, Pruning.or, pruneConstraints, pruneInvalidMoves, Option.any_none, Bool.or_false,
    Bool.or_eq_false_iff, Bool.not_eq_false']
  exact and_comm

theorem pruning_eq_false_iff {a b : Cell} :
    pruning env set b (some a) = false ↔ Allows env set a.position b.position b.time := by
  simp only [pruning, Pruning.or, pruneConstraints, pruneInvalidMoves, Option.any_some, Bool.or_eq_false_iff,
    Bool.and_eq_false_iff, decide_eq_false_iff_not, Bool.not_eq_false', Option.isNone_eq_false_iff, ne_eq]
  constructor
  · rintro ⟨⟨hv, he⟩, hi, hp⟩
    exact ⟨hi, hv, fun hne => he.resolve_left fun h => h hne, fun hne => hp.resolve_left fun h => h hne⟩
  · rintro ⟨hi, hv, he, hp⟩
    refine ⟨⟨hv, ?_⟩, hi, ?_⟩
    · exact or_iff_not_imp_left.mpr fun h => he (not_not.mp h)
    · exact or_iff_not_imp_left.mpr fun h => hp (not_not.mp h)

theorem allows_frozen (h : set.Indexed) {p q : Position} {t : Nat} :
    Allows env set p q (min t (horizon set)) ↔ Allows env set p q t := by
  constructor <;> intro ha
  · exact ⟨ha.inside, violatesVertex_frozen h q t ▸ ha.vertex, fun hne => violatesEdge_frozen h p q t ▸ ha.edge hne,
      ha.passable⟩
  · exact ⟨ha.inside, by rw [violatesVertex_frozen h, ha.vertex],
      fun hne => by rw [violatesEdge_frozen h, ha.edge hne], ha.passable⟩

theorem mem_successors_iff {a b : Cell} {c : Nat} : (b, c) ∈ (problem env agent table set).successors a ↔
    b.time = min (a.time + 1) (horizon set) ∧
      ((b.position, c) ∈ env.neighbors a.position ∨ b.position = a.position ∧ c = waitCost) := by
  have hcell : ∀ {q : Position} {t : Nat}, b = q.atTime t ↔ b.time = t ∧ b.position = q := by
    intro q t
    constructor
    · rintro rfl
      exact ⟨rfl, rfl⟩
    · rintro ⟨rfl, rfl⟩
      rfl
  simp only [problem, List.mem_append, List.mem_map, List.mem_singleton, Prod.mk.injEq, hcell]
  constructor
  · rintro (⟨m, hm, h, rfl⟩ | ⟨⟨ht, hp⟩, hc⟩)
    · obtain ⟨ht, hp⟩ := hcell.mp h.symm
      exact ⟨ht, .inl (hp ▸ hm)⟩
    · exact ⟨ht, .inr ⟨hp, hc⟩⟩
  · rintro ⟨ht, hm | ⟨hp, hc⟩⟩
    · exact .inl ⟨_, hm, (hcell.mpr ⟨ht, rfl⟩).symm, rfl⟩
    · exact .inr ⟨⟨ht, hp⟩, hc⟩

/-- A move of the search from a cell reached at time `t` is a step that is allowed at time `t + 1`. -/
theorem leads_iff (h : set.Indexed) {a b : Cell} {c t : Nat} (ha : a.time = min t (horizon set)) :
    (problem env agent table set).Leads (pruning env set) a b c ↔
      b.time = min (t + 1) (horizon set) ∧ env.Step a.position b.position c ∧
        Allows env set a.position b.position (t + 1) := by
  have htime : min (a.time + 1) (horizon set) = min (t + 1) (horizon set) := by omega
  rw [Problem.Leads, pruning_eq_false_iff, mem_successors_iff, htime]
  constructor
  · rintro ⟨⟨hb, hm⟩, hall⟩
    rw [hb, allows_frozen h] at hall
    refine ⟨hb, ?_, hall⟩
    rcases hm with hm | ⟨hp, rfl⟩
    · exact .move hm hall.inside
    · rw [hp]
      exact .wait
  · rintro ⟨hb, hs, hall⟩
    rw [hb, allows_frozen h]
    refine ⟨⟨rfl, ?_⟩, hall⟩
    generalize b.position = q at hs
    cases hs with
    | wait => exact .inr ⟨rfl, rfl⟩
    | move hm => exact .inl hm

/-! ### Trails and routes -/

/-- A sequence of positions, one for each time, of which each is allowed where it stands. -/
structure Allowed (env : Environment) (set : ConstraintSet) (ps : List Position) : Prop where
  first : ∀ {p : Position}, ps[0]? = some p → env.contains p = true ∧ set.violatesVertex (p.atTime 0) = false
  next : ∀ {p q : Position} {t : Nat}, ps[t]? = some p → ps[t + 1]? = some q → Allows env set p q (t + 1)

theorem allowed_snoc_iff {ps : List Position} {p q : Position} : Allowed env set (ps ++ [p, q]) ↔
    Allowed env set (ps ++ [p]) ∧ Allows env set p q (ps.length + 1) := by
  have hsame : ∀ {t}, t ≤ ps.length → (ps ++ [p, q])[t]? = (ps ++ [p])[t]? := fun {t} ht => by
    rcases Nat.lt_or_eq_of_le ht with ht | rfl
    · rw [List.getElem?_append_left ht, List.getElem?_append_left ht]
    · simp
  constructor
  · refine fun h => ⟨⟨fun h₀ => h.first ((hsame (Nat.zero_le _)).trans h₀), fun {r s t} hr hs => ?_⟩,
      h.next (by simp) (by simp)⟩
    have ht := (List.getElem?_eq_some_iff.mp hs).1
    simp only [List.length_append, List.length_singleton] at ht
    exact h.next ((hsame (by omega)).trans hr) ((hsame (by omega)).trans hs)
  · rintro ⟨h, hq⟩
    refine ⟨fun h₀ => h.first ((hsame (Nat.zero_le _)).symm.trans h₀), fun {r s t} hr hs => ?_⟩
    have ht := (List.getElem?_eq_some_iff.mp hs).1
    simp only [List.length_append, List.length_cons, List.length_nil] at ht
    rcases Nat.lt_or_ge t ps.length with hlt | hge
    · exact h.next ((hsame (by omega)).symm.trans hr) ((hsame (by omega)).symm.trans hs)
    · obtain rfl : t = ps.length := by omega
      simp only [List.getElem?_append_right, Nat.le_refl, Nat.sub_self, Nat.le_add_right, Nat.add_sub_cancel_left,
        List.getElem?_cons_zero, List.getElem?_cons_succ, Option.some.injEq] at hr hs
      rwa [← hr, ← hs]

/-- The cells of a sequence of positions, where time stops at the horizon. -/
def frozen (set : ConstraintSet) (ps : List Position) : List Cell :=
  ps.mapIdx fun t p => p.atTime (min t (horizon set))

theorem frozen_snoc (ps : List Position) (p : Position) :
    frozen set (ps ++ [p]) = frozen set ps ++ [p.atTime (min ps.length (horizon set))] :=
  List.mapIdx_concat

theorem map_position_frozen (ps : List Position) : (frozen set ps).map Cell.position = ps :=
  List.ext_getElem (by simp [frozen]) fun t _ _ => by simp [frozen]

/-- The trails of the planner are the allowed routes with frozen times. -/
theorem trail_iff (h : set.Indexed) {l : List Cell} {cost : Nat} :
    (problem env agent table set).Trail (pruning env set) l cost ↔
      ∃ ps, l = (frozen set ps).reverse ∧ ps.head? = some agent.start ∧ env.Route ps cost ∧ Allowed env set ps := by
  constructor
  · intro ht
    induction ht with
    | root hp =>
      refine ⟨[agent.start], ?_, rfl, .single _, fun h₀ => ?_, fun _ hq => ?_⟩
      · simp [frozen, problem]
      · cases h₀
        exact pruning_none_eq_false_iff.mp hp
      · cases hq
    | @step a b rest g c _ hl ih =>
      obtain ⟨ps, hps, hhead, hroute, hall⟩ := ih
      rcases List.eq_nil_or_concat ps with rfl | ⟨ps, p, rfl⟩
      · cases hhead
      rw [List.concat_eq_append] at *
      rw [frozen_snoc, List.reverse_append, List.reverse_singleton, List.singleton_append, List.cons.injEq] at hps
      obtain ⟨rfl, rfl⟩ := hps
      obtain ⟨hb, hs, hallows⟩ := (leads_iff h rfl).mp hl
      refine ⟨ps ++ [p, b.position], ?_, ?_, Environment.route_snoc_iff.mpr ⟨_, _, hroute, hs, rfl⟩,
        allowed_snoc_iff.mpr ⟨hall, hallows⟩⟩
      · rw [show ps ++ [p, b.position] = (ps ++ [p]) ++ [b.position] by simp, frozen_snoc, frozen_snoc,
          List.length_append, List.length_singleton, ← hb]
        simp
      · cases ps <;> exact hhead
  · rintro ⟨ps, rfl, hhead, hroute, hall⟩
    induction ps using List.reverseRecOn generalizing cost with
    | nil => cases hhead
    | append_singleton ps q ih =>
      rcases List.eq_nil_or_concat ps with rfl | ⟨ps, p, rfl⟩
      · cases hroute
        cases hhead
        have hp : pruning env set (problem env agent table set).initial none = false :=
          pruning_none_eq_false_iff.mpr (hall.first rfl)
        simpa [frozen, problem] using Problem.Trail.root hp
      · rw [List.concat_eq_append] at *
        rw [List.append_assoc, List.singleton_append] at hroute hall
        obtain ⟨m, c, hroute', hs, rfl⟩ := Environment.route_snoc_iff.mp hroute
        obtain ⟨hall', hallows⟩ := allowed_snoc_iff.mp hall
        have hhead' : (ps ++ [p]).head? = some agent.start := by cases ps <;> exact hhead
        have := ih hhead' hroute' hall'
        rw [frozen_snoc, List.reverse_append, List.reverse_singleton, List.singleton_append] at this
        rw [frozen_snoc, frozen_snoc]
        simp only [List.reverse_append, List.reverse_singleton, List.singleton_append, List.length_append,
          List.length_singleton]
        exact .step this ((leads_iff h rfl).mpr ⟨rfl, hs, hallows⟩)

theorem Allowed.vertex {ps : List Position} (h : Allowed env set ps) {t : Nat} {p : Position}
    (hp : ps[t]? = some p) : env.contains p = true ∧ set.violatesVertex (p.atTime t) = false := by
  cases t with
  | zero => exact h.first hp
  | succ t =>
    have ht := (List.getElem?_eq_some_iff.mp hp).1
    have := h.next (List.getElem?_eq_getElem (by omega : t < ps.length)) hp
    exact ⟨this.inside, this.vertex⟩

/-- A last cell counts as a goal if the agent may stay there for all time. -/
theorem isGoal_iff (h : set.Indexed) {p : Position} {t : Nat} :
    (problem env agent table set).isGoal (p.atTime (min t (horizon set))) = true ↔
      p = agent.goal ∧ ∀ u, t ≤ u → set.violatesVertex (p.atTime u) = false := by
  show (decide (p = agent.goal) &&
    (set.latestVertexTime agent.goal).all fun blockedUntil => blockedUntil < min t (horizon set)) = true ↔ _
  rw [Bool.and_eq_true, decide_eq_true_iff, h.latest_lt_iff]
  constructor
  · rintro ⟨rfl, hfree⟩
    exact ⟨rfl, fun u hu => hfree u (Nat.le_trans (Nat.min_le_left _ _) hu)⟩
  · rintro ⟨rfl, hfree⟩
    refine ⟨rfl, fun u hu => ?_⟩
    rcases Nat.lt_or_ge u (horizon set) with hlt | hge
    · exact hfree u (by omega)
    · rw [← violatesVertex_frozen h, Nat.min_eq_right hge, ← Nat.min_eq_right (Nat.le_max_right t (horizon set)),
        violatesVertex_frozen h]
      exact hfree _ (Nat.le_max_left _ _)

end SpaceTime

end Mapf
