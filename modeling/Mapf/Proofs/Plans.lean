import Mapf.Proofs.Distances
import Mapf.Proofs.Search.Outcome
import Mapf.Proofs.SpaceTime
import Mathlib.Data.Finset.Prod

/-! # Plans of one agent

A plan is a route of its agent that keeps the constraints for all time (`Plan.Serves`). With a finished
table of distances and symmetric edges it is a cheapest one, and a search that gives up leaves no such
route (`Plan.answers_of_search`). In a finite environment every search for a plan ends. -/

namespace Mapf

open SpaceTime

/-- A plan is a route of its agent inside the environment that keeps the constraints for all time. -/
structure Plan.Serves (plan : Plan) (env : Environment) (agent : Agent) (set : ConstraintSet)
    (ps : List Position) : Prop where
  path : plan.path = Path.ofPositions ps
  travels : agent.Travels env ps plan.cost
  inside : ∀ p ∈ ps, env.contains p = true
  passable : ∀ {p q : Position} {t : Nat}, ps[t]? = some p → ps[t + 1]? = some q → p ≠ q → (env.edgeCost p q).isSome
  keeps : plan.path.Keeps set

/-- What the lower bound of a plan rests on: symmetric edges with a cost, and a finished table for the goal
    of an agent that starts and ends inside. -/
structure Informed (env : Environment) (agent : Agent) (table : DistanceTable) : Prop where
  navigable : env.Navigable
  relaxed : table.Relaxed env
  goal : table.goal = agent.goal
  start_inside : env.contains agent.start = true
  goal_inside : env.contains agent.goal = true

namespace SpaceTime

variable {env : Environment} {agent : Agent} {table : DistanceTable} {set : ConstraintSet} {ps : List Position}
  {cost : Nat}

theorem keeps_of_allowed (h : set.Indexed) (hall : Allowed env set ps) {p : Position} (hlast : ps.getLast? = some p)
    (hfree : ∀ u, ps.length ≤ u + 1 → set.violatesVertex (p.atTime u) = false) :
    (Path.ofPositions ps).Keeps set := by
  rw [Path.keeps_iff h]
  constructor
  · intro t q hq
    rw [Path.positionAt_ofPositions] at hq
    cases ht : ps[t]? with
    | some r =>
      rw [ht] at hq
      cases hq
      exact (hall.vertex ht).2
    | none =>
      rw [ht, hlast] at hq
      cases hq
      have := List.getElem?_eq_none_iff.mp ht
      exact hfree t (by omega)
  · intro t q r hm hne
    obtain ⟨u, rfl, hq, hr⟩ := Path.moveAt_ofPositions.mp hm
    exact (hall.next hq hr).edge hne

theorem allowed_of_keeps (h : set.Indexed) (hi : Informed env agent table) (ht : agent.Travels env ps cost)
    (hk : (Path.ofPositions ps).Keeps set) : Allowed env set ps := by
  rw [Path.keeps_iff h] at hk
  have hinside : ∀ p ∈ ps, env.contains p = true := ht.route.contains fun hp => by
    cases hp.symm.trans ht.start
    exact hi.start_inside
  have hvertex : ∀ {t : Nat} {p : Position}, ps[t]? = some p → set.violatesVertex (p.atTime t) = false := by
    intro t p hp
    exact hk.1 (by rw [Path.positionAt_ofPositions, hp]; rfl)
  refine ⟨fun hp => ⟨hinside _ (List.mem_of_getElem? hp), hvertex hp⟩, fun {p q t} hp hq =>
    ⟨hinside _ (List.mem_of_getElem? hq), hvertex hq, fun hne => ?_, fun hne => ?_⟩⟩
  · exact hk.2 (Path.moveAt_ofPositions.mpr ⟨t, rfl, hp, hq⟩) hne
  · obtain ⟨c, hs⟩ := ht.route.next hp hq
    cases hs with
    | wait => exact absurd rfl hne
    | move hm => exact hi.navigable.passable hm

theorem free_of_keeps (h : set.Indexed) (hlast : ps.getLast? = some agent.goal)
    (hk : (Path.ofPositions ps).Keeps set) : ∀ u, ps.length ≤ u + 1 →
      set.violatesVertex (agent.goal.atTime u) = false := by
  rw [Path.keeps_iff h] at hk
  intro u hu
  refine hk.1 ?_
  rw [Path.positionAt_parked (by rwa [Path.length_ofPositions]), Path.positionAt_ofPositions,
    Path.length_ofPositions, ← List.getLast?_eq_getElem?, hlast]
  rfl

/-! ### The estimate -/

theorem consistent_problem (hi : Informed env agent table) :
    (problem env agent table set).Consistent (pruning env set) := by
  intro a b c h k hl ha hb
  change table.get? a.position = some h at ha
  change table.get? b.position = some k at hb
  rcases (mem_successors_iff.mp hl.1).2 with hm | ⟨hp, -⟩
  · obtain ⟨d, hd, hle⟩ := hi.relaxed.consistent hi.navigable hm hb
    rw [ha] at hd
    cases hd
    exact hle
  · rw [hp, ha] at hb
    cases hb
    exact Nat.le_add_left _ _

/-- From every position of a route to the goal there is an estimate. -/
theorem isSome_of_route (hi : Informed env agent table) (h : env.Route ps cost)
    (hlast : ps.getLast? = some agent.goal) : ∀ p ∈ ps, (table.get? p).isSome := by
  induction h with
  | single p =>
    obtain rfl : p = agent.goal := Option.some.inj hlast
    intro q hq
    rw [List.mem_singleton.mp hq, ← hi.goal, hi.relaxed.goal (by rw [hi.goal]; exact hi.goal_inside)]
    rfl
  | @cons p q rest c n hs _ ih =>
    have hrest := ih (by rwa [List.getLast?_cons_cons] at hlast)
    intro r hr
    rcases List.mem_cons.mp hr with rfl | hr
    · cases hs with
      | wait => exact hrest _ List.mem_cons_self
      | move hm =>
        obtain ⟨d, hd⟩ := Option.isSome_iff_exists.mp (hrest q List.mem_cons_self)
        obtain ⟨d', hd', -⟩ := hi.relaxed.consistent hi.navigable hm hd
        rw [hd']
        rfl
    · exact hrest r hr

/-- A route that keeps the constraints is a promising trail to a goal. -/
theorem trail_of_travels (h : set.Indexed) (hi : Informed env agent table) (ht : agent.Travels env ps cost)
    (hk : (Path.ofPositions ps).Keeps set) :
    ∃ a l, (problem env agent table set).Trail (pruning env set) (a :: l) cost ∧
      (problem env agent table set).Promising (a :: l) ∧ (problem env agent table set).isGoal a = true ∧
      (problem env agent table set).heuristic a = some 0 := by
  have htrail : (problem env agent table set).Trail (pruning env set) _ cost := (trail_iff h).mpr
    ⟨ps, rfl, ht.start, ht.route, allowed_of_keeps h hi ht hk⟩
  have hsome := isSome_of_route hi ht.route ht.goal
  obtain ⟨qs, rfl⟩ : ∃ qs, ps = qs ++ [agent.goal] := by
    have := List.dropLast_append_getLast? _ ht.goal
    exact ⟨_, this.symm⟩
  rw [frozen_snoc, List.reverse_append, List.reverse_singleton, List.singleton_append] at htrail
  refine ⟨_, _, htrail, fun a ha => ?_, (isGoal_iff h).mpr ⟨rfl, ?_⟩, ?_⟩
  · rw [← List.singleton_append, ← List.reverse_singleton, ← List.reverse_append, ← frozen_snoc, List.mem_reverse,
      frozen, List.mem_mapIdx] at ha
    obtain ⟨t, ht, rfl⟩ := ha
    exact hsome _ (List.getElem_mem ht)
  · intro u hu
    exact free_of_keeps h (by simp) hk u (by simpa using hu)
  · show table.get? agent.goal = some 0
    rw [← hi.goal, hi.relaxed.goal (by rw [hi.goal]; exact hi.goal_inside)]

end SpaceTime

/-! ### The answer of a search -/

namespace Plan

variable {env : Environment} {agent : Agent} {table : DistanceTable} {set : ConstraintSet}

/-- A plan serves its agent, and no route that keeps the constraints costs less. -/
structure Best (plan : Plan) (env : Environment) (agent : Agent) (table : DistanceTable) (set : ConstraintSet) :
    Prop where
  serves : ∃ ps, plan.Serves env agent set ps
  least : Informed env agent table → ∀ {ps : List Position} {cost : Nat}, agent.Travels env ps cost →
    (Path.ofPositions ps).Keeps set → plan.cost ≤ cost

/-- No route of an agent keeps the constraints. -/
def Barren (env : Environment) (agent : Agent) (table : DistanceTable) (set : ConstraintSet) : Prop :=
  Informed env agent table → ∀ {ps : List Position} {cost : Nat}, agent.Travels env ps cost →
    ¬(Path.ofPositions ps).Keeps set

/-- What the result of a search for a plan says about the routes that keep the constraints. -/
inductive Answers (env : Environment) (agent : Agent) (table : DistanceTable) (set : ConstraintSet)
    (deadline : Deadline) : Except SearchError Plan → Prop
  | found {plan : Plan} : plan.Best env agent table set → Answers env agent table set deadline (.ok plan)
  | noPath : Barren env agent table set → Answers env agent table set deadline (.error .noPathFound)
  | outOfTime {k : Nat} : deadline.expired k = true → Answers env agent table set deadline (.error .budgetExceeded)

/-- A trail to a goal is a plan once its times are the real ones. -/
theorem serves_of_trail (h : set.Indexed) {a : Cell} {l : List Cell} {cost : Nat}
    (ht : (problem env agent table set).Trail (pruning env set) (a :: l) cost)
    (hgoal : (problem env agent table set).isGoal a = true) :
    ∃ ps, (ofOutcome ⟨(a :: l).reverse, cost⟩).Serves env agent set ps := by
  obtain ⟨ps, hps, hstart, hroute, hall⟩ := (trail_iff h).mp ht
  rcases List.eq_nil_or_concat ps with rfl | ⟨ps, p, rfl⟩
  · cases hstart
  rw [List.concat_eq_append] at *
  have hpath : ((a :: l).reverse.map Cell.position) = ps ++ [p] := by
    rw [hps, List.reverse_reverse, map_position_frozen]
  rw [frozen_snoc, List.reverse_append, List.reverse_singleton, List.singleton_append, List.cons.injEq] at hps
  obtain ⟨rfl, -⟩ := hps
  obtain ⟨rfl, hfree⟩ := (isGoal_iff h).mp hgoal
  have hpath' : (ofOutcome ⟨((agent.goal.atTime (min ps.length (horizon set))) :: l).reverse, cost⟩).path =
      Path.ofPositions (ps ++ [agent.goal]) := by rw [ofOutcome, hpath]
  refine ⟨ps ++ [agent.goal], hpath', ⟨hstart, by simp, hroute⟩, fun q hq => ?_,
    fun hp hq hne => (hall.next hp hq).passable hne, ?_⟩
  · obtain ⟨t, ht⟩ := List.mem_iff_getElem?.mp hq
    exact (hall.vertex ht).1
  · rw [hpath']
    exact keeps_of_allowed h hall (by simp) fun u hu => hfree u (by simpa using hu)

/-- The answer of a search for a plan that ended. -/
theorem answers_of_search (h : set.Indexed) {rounds : Nat} {deadline : Deadline} {report : SearchReport Plan}
    (hs : search rounds env agent table set deadline = some report) :
    Answers env agent table set deadline report.result := by
  obtain ⟨found, hfound, hr⟩ := Option.bind_eq_some_iff.mp hs
  cases hr
  have hans := BestFirst.answers_of_search hfound
  show Answers env agent table set deadline (found.result.map ofOutcome)
  generalize found.result = result at hans
  cases hans with
  | found hgoal ht _ _ hopt =>
    refine .found ⟨serves_of_trail h ht hgoal, fun hi qs cost hq hk => ?_⟩
    obtain ⟨b, l, ht', hprom, hgoal', hzero⟩ := trail_of_travels h hi hq hk
    exact hopt (consistent_problem hi) ht' hprom hgoal' hzero
  | noPath hno =>
    refine .noPath fun hi qs cost hq hk => ?_
    obtain ⟨b, l, ht', hprom, hgoal', -⟩ := trail_of_travels h hi hq hk
    rw [hno ht' hprom] at hgoal'
    cases hgoal'
  | outOfTime hexp => exact .outOfTime hexp

/-- More rounds keep a report. -/
theorem search_mono {rounds rounds' : Nat} (hle : rounds ≤ rounds') {deadline : Deadline}
    {report : SearchReport Plan} (h : search rounds env agent table set deadline = some report) :
    search rounds' env agent table set deadline = some report := by
  obtain ⟨found, hfound, hr⟩ := Option.bind_eq_some_iff.mp h
  exact Option.bind_eq_some_iff.mpr ⟨found, BestFirst.search_mono hle hfound, hr⟩

/-- In a finite environment a search for a plan ends within one round for each position and time up to the
    horizon, and one more. -/
theorem search_ends (h : set.Indexed) {cells : Finset Position} (hfin : env.Within cells) (deadline : Deadline)
    {rounds : Nat} (hr : cells.card * (horizon set + 1) < rounds) :
    ∃ report, search rounds env agent table set deadline = some report := by
  let states : Finset Cell := (cells ×ˢ Finset.range (horizon set + 1)).image fun x => x.1.atTime x.2
  have hcard : states.card ≤ cells.card * (horizon set + 1) := by
    refine Finset.card_image_le.trans ?_
    rw [Finset.card_product, Finset.card_range]
  have hmem : ∀ {a l cost}, (problem env agent table set).Trail (pruning env set) (a :: l) cost → a ∈ states := by
    intro a l cost ht
    obtain ⟨ps, hps, -, -, hall⟩ := (trail_iff h).mp ht
    have ha : a ∈ frozen set ps := by
      rw [← List.mem_reverse, ← hps]
      exact List.mem_cons_self
    obtain ⟨t, hlt, rfl⟩ := List.mem_mapIdx.mp ha
    rw [Finset.mem_image]
    refine ⟨(ps[t], min t (horizon set)), ?_, rfl⟩
    rw [Finset.mem_product, Finset.mem_range]
    exact ⟨hfin.contains (hall.vertex (List.getElem?_eq_getElem hlt)).1, Nat.lt_succ_of_le (Nat.min_le_right _ _)⟩
  obtain ⟨found, hfound⟩ := BestFirst.search_ends hmem deadline (Nat.lt_of_le_of_lt hcard hr)
  exact ⟨_, Option.bind_eq_some_iff.mpr ⟨found, hfound, rfl⟩⟩

end Plan

end Mapf
