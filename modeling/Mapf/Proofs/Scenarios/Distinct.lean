import Mapf.Proofs.OrderedMaps
import Mapf.Proofs.Scenarios.Buckets
import Mathlib

/-! # Agents on different routes

All routes of a scenario are sorted, so equal ones come to stand side by side in whatever buckets they were listed, and
of neighbours that are equal one is kept. This leaves every route once (`Scenario.nodup_distinctRoutes`), because the
order tells any two different routes apart: that is why dropping a route that repeats the one before it is enough. A
shuffle changes the order but not the routes, so it decides which routes are taken, and neither whether there are enough
nor that no two agents share one (`Scenario.agentsAtRandom_exact`). -/

namespace Mapf

/-- The way an agent goes. -/
def Agent.route (a : Agent) : Route := ⟨a.start, a.goal⟩

namespace Route

theorem le_iff {r t : Route} : r ≤ t ↔ r.start < t.start ∨ r.start = t.start ∧ r.goal ≤ t.goal := Iff.rfl

/-- Routes are compared by their four coordinates, one after the other. -/
def coordinates (r : Route) : ℕ ×ₗ ℕ ×ₗ ℕ ×ₗ ℕ :=
  toLex (r.start.x, toLex (r.start.y, toLex (r.goal.x, r.goal.y)))

theorem coordinates_injective : Function.Injective coordinates := by
  rintro ⟨⟨a, b⟩, ⟨c, d⟩⟩ ⟨⟨a', b'⟩, ⟨c', d'⟩⟩ h
  simpa [coordinates, Prod.ext_iff, and_assoc] using h

theorem le_iff_coordinates {r t : Route} : r ≤ t ↔ r.coordinates ≤ t.coordinates := by
  obtain ⟨⟨a, b⟩, ⟨c, d⟩⟩ := r
  obtain ⟨⟨a', b'⟩, ⟨c', d'⟩⟩ := t
  simp only [le_iff, Position.lt_iff, Position.le_iff, Position.mk.injEq, coordinates, Prod.Lex.toLex_le_toLex]
  omega

instance : Std.Total (α := Route) (· ≤ ·) := ⟨fun r t => by
  simp only [le_iff_coordinates]
  exact le_total _ _⟩

instance : IsTrans Route (· ≤ ·) := ⟨fun r t u hrt htu => by
  rw [le_iff_coordinates] at *
  exact hrt.trans htu⟩

instance : Std.Antisymm (α := Route) (· ≤ ·) := ⟨fun r t hrt htr => by
  rw [le_iff_coordinates] at *
  exact coordinates_injective (hrt.antisymm htr)⟩

end Route

namespace Scenario

variable {s : Scenario} {count : Nat}

/-- The routes of all buckets: it does not matter where and how often a route is listed. -/
def listed (s : Scenario) : Set Route := {r | ∃ bucket, r ∈ s.bucketRoutes bucket}

/-- Agents numbered in order, on different routes of a scenario. -/
structure Sampled (s : Scenario) (count : Nat) (agents : List Agent) : Prop where
  numbered : agents.map Agent.id = List.range count
  distinct : (agents.map Agent.route).Nodup
  listed : ∀ agent ∈ agents, agent.route ∈ s.listed

theorem mem_routes_iff {r : Route} : r ∈ s.routes ↔ r ∈ s.listed := by
  simp only [routes, OrderedMap.values, List.mem_flatten, List.mem_map, listed, Set.mem_ofPred_eq, bucketRoutes]
  constructor
  · rintro ⟨_, ⟨⟨bucket, routes⟩, hmem, rfl⟩, hr⟩
    refine ⟨bucket, ?_⟩
    rwa [OrderedMap.get?_eq_some_iff.mpr hmem, Option.getD_some]
  · rintro ⟨bucket, hr⟩
    cases hget : s.buckets.get? bucket with
    | none => simp [hget] at hr
    | some routes =>
      rw [hget, Option.getD_some] at hr
      exact ⟨routes, ⟨_, OrderedMap.get?_eq_some_iff.mp hget, rfl⟩, hr⟩

/-! ### One of each -/

theorem dropRepeats_eq_destutter {α : Type} [DecidableEq α] (l : List α) : dropRepeats l = l.destutter (· ≠ ·) := by
  fun_induction dropRepeats l with
  | case1 => rfl
  | case2 => rfl
  | case3 b rest ih => rw [ih, List.destutter_cons_cons, if_neg (not_not.mpr rfl), List.destutter_cons']
  | case4 a b rest hne ih => rw [ih, List.destutter_cons_cons, if_pos hne, List.destutter_cons']

/-- In a sorted list equal elements are neighbours, so dropping those that repeat their neighbour drops all repeats. -/
theorem distinctRoutes_eq (s : Scenario) :
    s.distinctRoutes = (s.routes.mergeSort fun r t => decide (r ≤ t)).dedup := by
  have hsorted : (s.routes.mergeSort fun r t => decide (r ≤ t)).Pairwise (· ≤ ·) := List.pairwise_mergeSort' (· ≤ ·) _
  rw [distinctRoutes, dropRepeats_eq_destutter, hsorted.destutter_eq_dedup]

theorem nodup_distinctRoutes (s : Scenario) : s.distinctRoutes.Nodup := by
  rw [distinctRoutes_eq]
  exact List.nodup_dedup _

theorem mem_distinctRoutes_iff {r : Route} : r ∈ s.distinctRoutes ↔ r ∈ s.listed := by
  rw [distinctRoutes_eq, List.mem_dedup, List.mem_mergeSort, mem_routes_iff]

theorem length_distinctRoutes (s : Scenario) : s.distinctRoutes.length = s.listed.ncard := by
  have hlisted : s.listed = s.distinctRoutes.toFinset := by
    ext r
    rw [Finset.mem_coe, List.mem_toFinset, mem_distinctRoutes_iff]
  rw [hlisted, Set.ncard_coe_finset, List.toFinset_card_of_nodup s.nodup_distinctRoutes]

/-! ### Taking the first ones -/

theorem map_id_numbered (routes : List Route) :
    (routes.mapIdx fun id route => route.toAgent id).map Agent.id = List.range routes.length := by
  refine List.ext_getElem (by simp) fun i h₁ h₂ => ?_
  simp [Route.toAgent]

theorem map_route_numbered (routes : List Route) :
    (routes.mapIdx fun id route => route.toAgent id).map Agent.route = routes := by
  refine List.ext_getElem (by simp) fun i h₁ h₂ => ?_
  simp [Route.toAgent, Agent.route]

/-- However the different routes are ordered, the first of them serve as many agents. -/
theorem sampled_of_perm {routes : List Route} (h : routes.Perm s.distinctRoutes) (enough : count ≤ s.listed.ncard) :
    s.Sampled count ((routes.take count).mapIdx fun id route => route.toAgent id) := by
  have hlength : (routes.take count).length = count := by
    rw [List.length_take, h.length_eq, length_distinctRoutes, Nat.min_eq_left enough]
  refine ⟨by rw [map_id_numbered, hlength], ?_, fun agent hagent => ?_⟩
  · rw [map_route_numbered]
    exact (h.nodup_iff.mpr s.nodup_distinctRoutes).sublist (List.take_sublist _ _)
  · have hroute : agent.route ∈ routes.take count := by
      rw [← map_route_numbered (routes.take count)]
      exact List.mem_map_of_mem hagent
    exact mem_distinctRoutes_iff.mp (h.mem_iff.mp (List.mem_of_mem_take hroute))

/-- However routes are shuffled: agents are drawn if and only if the scenario has as many different routes, over all its
    buckets, and then they are numbered in order and go along different ones of these routes. If the shuffle comes to an
    end, so does this. -/
theorem agentsAtRandom_exact {ρ : Type} {draws : Random.Draws ρ} (sound : draws.Sound) (s : Scenario) (count : Nat)
    (source : ρ) :
    if s.listed.ncard < count then s.agentsAtRandom draws count source = some (.error .tooFewRoutes, source)
    else (∀ result rest, s.agentsAtRandom draws count source = some (result, rest) →
        ∃ agents, result = .ok agents ∧ s.Sampled count agents) ∧
      (draws.Ends → ∃ drawn, s.agentsAtRandom draws count source = some drawn) := by
  rw [agentsAtRandom, ← length_distinctRoutes]
  split
  case isTrue => rfl
  case isFalse hfew =>
    refine ⟨fun result rest h => ?_, fun ends => ?_⟩
    · obtain ⟨⟨routes, rest'⟩, hshuffle, h⟩ := Option.bind_eq_some_iff.mp h
      cases h
      rw [length_distinctRoutes] at hfew
      exact ⟨_, rfl, sampled_of_perm (sound.shuffle hshuffle) (Nat.le_of_not_lt hfew)⟩
    · obtain ⟨drawn, hshuffle⟩ := ends.shuffle s.distinctRoutes source
      rw [hshuffle]
      exact ⟨_, rfl⟩

theorem distinctRoutes_docks :
    docks.distinctRoutes = [⟨⟨0, 0⟩, ⟨0, 3⟩⟩, ⟨⟨1, 0⟩, ⟨3, 3⟩⟩, ⟨⟨2, 2⟩, ⟨0, 1⟩⟩] := by
  cbv

/-- Three different routes stand in the buckets of the docks, one of them twice: they serve three agents, but not
    four. -/
theorem sampled_docks : (Random.Draws.ofWords 5).Sound ∧
    docks.Sampled 3 [⟨0, ⟨1, 0⟩, ⟨3, 3⟩⟩, ⟨1, ⟨2, 2⟩, ⟨0, 1⟩⟩, ⟨2, ⟨0, 0⟩, ⟨0, 3⟩⟩] ∧
    docks.agentsAtRandom (.ofWords 5) 4 (.ofWords [0]) = some (.error .tooFewRoutes, .ofWords [0]) := by
  have hcount : docks.listed.ncard = 3 := by
    rw [← length_distinctRoutes, distinctRoutes_docks]
    rfl
  have sound := Random.Draws.sound_ofWords 5
  have hthree := agentsAtRandom_exact sound docks 3 (.ofWords [0])
  have hfour := agentsAtRandom_exact sound docks 4 (.ofWords [0])
  rw [hcount, if_neg (Nat.lt_irrefl 3)] at hthree
  rw [hcount, if_pos (Nat.lt_succ_self 3)] at hfour
  obtain ⟨rest, hdrawn⟩ : ∃ rest, docks.agentsAtRandom (.ofWords 5) 3 (.ofWords [0]) =
      some (.ok [⟨0, ⟨1, 0⟩, ⟨3, 3⟩⟩, ⟨1, ⟨2, 2⟩, ⟨0, 1⟩⟩, ⟨2, ⟨0, 0⟩, ⟨0, 3⟩⟩], rest) := by
    rw [agentsAtRandom, distinctRoutes_docks]
    exact ⟨_, rfl⟩
  obtain ⟨_, ⟨⟩, hsampled⟩ := hthree.1 _ _ hdrawn
  exact ⟨sound, hsampled, hfour⟩

end Scenario

end Mapf
