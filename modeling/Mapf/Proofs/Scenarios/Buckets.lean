import Mapf.Proofs.Draws
import Mapf.Scenario.Sampling
import Mathlib

/-! # Agents drawn from named buckets

Each agent takes one of the routes that are still unused in its bucket. Which one it takes depends on what is drawn, but
not how many are left then: one less in that bucket, and as many as before in all others
(`Scenario.length_unused_cons`). So whether every agent finds a route depends only on how often each bucket is named
(`Scenario.agentsByBuckets_exact`). Routes are told apart by their places, as a bucket may list the same one twice. -/

namespace Mapf

namespace Scenario

variable {ρ : Type} {draws : Random.Draws ρ} {s : Scenario} {id bucket place : Nat} {used : List RouteIndex}
  {buckets : List Nat} {route : Route}

/-- The routes of a bucket; one that is missing has none. -/
def bucketRoutes (s : Scenario) (bucket : Nat) : List Route := (s.buckets.get? bucket).getD []

def route? (s : Scenario) (i : RouteIndex) : Option Route := (s.bucketRoutes i.bucket)[i.place]?

/-- The routes of a bucket that are not used yet, with their places. -/
def unused (s : Scenario) (used : List RouteIndex) (bucket : Nat) : List (Route × Nat) :=
  (s.bucketRoutes bucket).zipIdx.filter fun (_, place) => !used.contains ⟨bucket, place⟩

/-- Agents go along the routes at different places, one place for each of the buckets that were named. -/
structure Drawn (s : Scenario) (buckets : List Nat) (places : List RouteIndex) (agents : List Agent) : Prop where
  named : places.map RouteIndex.bucket = buckets
  distinct : places.Nodup
  routes : List.Forall₂ (fun i agent => s.route? i = some ⟨agent.start, agent.goal⟩) places agents

theorem route?_of_mem_unused (h : (route, place) ∈ s.unused used bucket) : s.route? ⟨bucket, place⟩ = some route :=
  List.mk_mem_zipIdx_iff_getElem?.mp (List.mem_of_mem_filter h)

theorem not_mem_of_mem_unused (h : (route, place) ∈ s.unused used bucket) : ⟨bucket, place⟩ ∉ used := by
  have hfree := (List.mem_filter.mp h).2
  simpa using hfree

theorem nodup_unused (s : Scenario) (used : List RouteIndex) (bucket : Nat) :
    ((s.unused used bucket).map Prod.snd).Nodup := by
  have hsub : ((s.unused used bucket).map Prod.snd).Sublist ((s.bucketRoutes bucket).zipIdx.map Prod.snd) :=
    List.filter_sublist.map Prod.snd
  rw [List.zipIdx_map_snd] at hsub
  exact (List.nodup_range' 1).sublist hsub

theorem unused_nil (s : Scenario) (bucket : Nat) : (s.unused [] bucket).length = (s.bucketRoutes bucket).length := by
  have hall : s.unused [] bucket = (s.bucketRoutes bucket).zipIdx := List.filter_eq_self.mpr fun _ _ => rfl
  rw [hall, List.length_zipIdx]

/-- A route that is used is missing afterwards in its bucket, and nothing is missing in the others. -/
theorem length_unused_cons (h : (route, place) ∈ s.unused used bucket) (b : Nat) :
    (s.unused (⟨bucket, place⟩ :: used) b).length + (if bucket = b then 1 else 0) = (s.unused used b).length := by
  by_cases hb : bucket = b
  · subst hb
    have hrest : s.unused (⟨bucket, place⟩ :: used) bucket =
        (s.unused used bucket).filter fun x => !decide (x.2 = place) := by
      rw [unused, unused, List.filter_filter]
      refine congrArg (List.filter · _) (funext fun ⟨_, i⟩ => ?_)
      simp
    -- Equal routes may be listed, but not at the same place.
    have hone : ((s.unused used bucket).filter fun x => decide (x.2 = place)).length = 1 := calc
      ((s.unused used bucket).filter fun x => decide (x.2 = place)).length
      _ = ((s.unused used bucket).map Prod.snd).count place := by
        rw [List.count, List.countP_map, ← List.countP_eq_length_filter]
        rfl
      _ = 1 := List.count_eq_one_of_mem (s.nodup_unused used bucket) (List.mem_map.mpr ⟨_, h, rfl⟩)
    have hsplit := List.length_eq_length_filter_add (l := s.unused used bucket) fun x => decide (x.2 = place)
    rw [hrest, if_pos rfl]
    omega
  · have hsame : s.unused (⟨bucket, place⟩ :: used) b = s.unused used b := by
      rw [unused, unused]
      refine congrArg (List.filter · _) (funext fun ⟨_, i⟩ => ?_)
      simp [Ne.symm hb]
    rw [hsame, if_neg hb, Nat.add_zero]

/-- What becomes of agents that are to be drawn, whatever is drawn for them: all get one, on routes that are not in use,
    or one of the buckets is named more often than it has unused routes, and the error tells which one. -/
inductive Ends (s : Scenario) (id : Nat) (used : List RouteIndex) (buckets : List Nat) :
    Except SamplingError (List Agent) → Prop
  | drawn {places : List RouteIndex} {agents : List Agent}
      (enough : ∀ b, buckets.count b ≤ (s.unused used b).length) (drawn : s.Drawn buckets places agents)
      (fresh : ∀ i ∈ places, i ∉ used) (numbered : agents.map Agent.id = List.range' id buckets.length) :
      Ends s id used buckets (.ok agents)
  | failed {b : Nat} {e : SamplingError} (short : (s.unused used b).length < buckets.count b)
      (named : e = .unknownBucket b ∧ s.buckets.get? b = none ∨ e = .bucketUsedUp b) : Ends s id used buckets (.error e)

/-- One agent more, on an unused route. -/
theorem Ends.cons {result : Except SamplingError (List Agent)} (h : (route, place) ∈ s.unused used bucket)
    (hrest : s.Ends (id + 1) (⟨bucket, place⟩ :: used) buckets result) :
    s.Ends id used (bucket :: buckets) (result.map (route.toAgent id :: ·)) := by
  -- The new agent needs one route more of its bucket, and this is the one that the others have no longer.
  have hcount : ∀ b, (bucket :: buckets).count b + (s.unused (⟨bucket, place⟩ :: used) b).length =
      buckets.count b + (s.unused used b).length := fun b => by
    have hlength := length_unused_cons h b
    rw [List.count_cons]
    simp only [beq_iff_eq]
    omega
  cases hrest with
  | @drawn places agents enough drawn fresh numbered =>
    have hdrawn : s.Drawn (bucket :: buckets) (⟨bucket, place⟩ :: places) (route.toAgent id :: agents) := by
      refine ⟨by rw [List.map_cons, drawn.named], List.nodup_cons.mpr ⟨fun hm => ?_, drawn.distinct⟩,
        .cons (route?_of_mem_unused h) drawn.routes⟩
      exact fresh _ hm List.mem_cons_self
    refine .drawn (fun b => ?_) hdrawn ?_ ?_
    · have hb := hcount b
      have henough := enough b
      omega
    · exact List.forall_mem_cons.mpr ⟨not_mem_of_mem_unused h, fun i hi hm => fresh i hi (List.mem_cons_of_mem _ hm)⟩
    · show id :: agents.map Agent.id = _
      rw [numbered, List.length_cons, List.range'_succ]
  | @failed b e short named =>
    refine .failed (b := b) ?_ named
    have hb := hcount b
    omega

theorem drawFrom_sound (sound : draws.Sound) {source rest : ρ} {result : Except SamplingError (List Agent)}
    (h : s.drawFrom draws id used buckets source = some (result, rest)) : s.Ends id used buckets result := by
  induction buckets generalizing id used source result rest with
  | nil =>
    have hdrawn : s.Drawn [] [] [] := ⟨rfl, .nil, .nil⟩
    cases h
    exact .drawn (fun _ => Nat.zero_le _) hdrawn nofun rfl
  | cons bucket others ih =>
    have hnone : s.unused used bucket = [] → (s.unused used bucket).length < (bucket :: others).count bucket :=
      fun hempty => by
        rw [hempty, List.count_cons_self]
        exact Nat.succ_pos _
    rw [drawFrom] at h
    cases hroutes : s.buckets.get? bucket with
    | none =>
      have hempty : s.unused used bucket = [] := by
        rw [unused, bucketRoutes, hroutes]
        rfl
      rw [hroutes] at h
      cases h
      exact .failed (hnone hempty) (.inl ⟨rfl, hroutes⟩)
    | some routes =>
      have hunused : (routes.zipIdx.filter fun (_, place) => !used.contains ⟨bucket, place⟩) =
          s.unused used bucket := by
        rw [unused, bucketRoutes, hroutes]
        rfl
      rw [hroutes] at h
      dsimp only at h
      rw [hunused] at h
      obtain ⟨⟨chosen, rest'⟩, hchoose, h⟩ := Option.bind_eq_some_iff.mp h
      rcases sound.choose hchoose with ⟨⟨route, place⟩, hmem, rfl⟩ | ⟨hempty, rfl⟩
      · obtain ⟨⟨agents, rest''⟩, hothers, h⟩ := Option.bind_eq_some_iff.mp h
        cases h
        exact (ih hothers).cons hmem
      · cases h
        exact .failed (hnone hempty) (.inr rfl)

theorem drawFrom_ends (ends : draws.Ends) (s : Scenario) (id : Nat) (used : List RouteIndex) (buckets : List Nat)
    (source : ρ) : ∃ drawn, s.drawFrom draws id used buckets source = some drawn := by
  induction buckets generalizing id used source with
  | nil => exact ⟨_, rfl⟩
  | cons bucket others ih =>
    rw [drawFrom]
    cases s.buckets.get? bucket with
    | none => exact ⟨_, rfl⟩
    | some routes =>
      obtain ⟨⟨chosen, rest⟩, hchoose⟩ :=
        ends.choose (routes.zipIdx.filter fun (_, place) => !used.contains ⟨bucket, place⟩) source
      simp only [Option.bind_eq_bind, hchoose, Option.bind_some]
      cases chosen with
      | none => exact ⟨_, rfl⟩
      | some chosen =>
        obtain ⟨route, place⟩ := chosen
        obtain ⟨drawn, hothers⟩ := ih (id + 1) (⟨bucket, place⟩ :: used) rest
        dsimp only
        rw [hothers]
        exact ⟨_, rfl⟩

/-- However routes are drawn: agents are drawn if and only if there are as many buckets as agents and none of them is
    named more often than it has routes. The agents are then numbered in order, and go along routes of these buckets at
    different places. If the draws come to an end, so does this. -/
theorem agentsByBuckets_exact (sound : draws.Sound) (s : Scenario) (count : Nat) (buckets : List Nat) (source : ρ) :
    (∀ result rest, s.agentsByBuckets draws count buckets source = some (result, rest) →
      ((∃ agents, result = .ok agents) ↔
        buckets.length = count ∧ ∀ b, buckets.count b ≤ (s.bucketRoutes b).length) ∧
      ∀ agents, result = .ok agents →
        agents.map Agent.id = List.range count ∧ ∃ places, s.Drawn buckets places agents) ∧
    (draws.Ends → ∃ drawn, s.agentsByBuckets draws count buckets source = some drawn) := by
  rw [agentsByBuckets]
  by_cases hlength : buckets.length = count
  · rw [if_neg (not_not.mpr hlength)]
    refine ⟨fun result rest h => ?_, fun ends => drawFrom_ends ends s 0 [] buckets source⟩
    cases drawFrom_sound sound h with
    | @drawn places agents enough drawn fresh numbered =>
      refine ⟨⟨fun _ => ⟨hlength, fun b => s.unused_nil b ▸ enough b⟩, fun _ => ⟨agents, rfl⟩⟩, ?_⟩
      rintro _ ⟨⟩
      exact ⟨by rw [numbered, hlength, List.range_eq_range'], places, drawn⟩
    | @failed b e short named =>
      refine ⟨⟨nofun, fun ⟨_, henough⟩ => ?_⟩, nofun⟩
      have hb := henough b
      rw [s.unused_nil] at short
      omega
  · rw [if_pos hlength]
    refine ⟨fun result rest h => ?_, fun _ => ⟨_, rfl⟩⟩
    cases h
    exact ⟨⟨nofun, fun h => absurd h.1 hlength⟩, nofun⟩

/-- A bucket that lists a route twice and another one once, and a bucket with one route. -/
def docks : Scenario :=
  ⟨"bay", 4, 4, .ofList [(0, [⟨⟨0, 0⟩, ⟨0, 3⟩⟩, ⟨⟨0, 0⟩, ⟨0, 3⟩⟩, ⟨⟨1, 0⟩, ⟨3, 3⟩⟩]), (2, [⟨⟨2, 2⟩, ⟨0, 1⟩⟩])]⟩

/-- The first two agents go along equal routes, which stand at two places, and the only route of the other bucket serves
    one agent but not two. -/
theorem drawn_docks : (Random.Draws.ofWords 5).Sound ∧
    (∃ rest, docks.agentsByBuckets (.ofWords 5) 3 [0, 0, 2] (.ofWords [0]) =
      some (.ok [⟨0, ⟨0, 0⟩, ⟨0, 3⟩⟩, ⟨1, ⟨0, 0⟩, ⟨0, 3⟩⟩, ⟨2, ⟨2, 2⟩, ⟨0, 1⟩⟩], rest)) ∧
    (∃ places, docks.Drawn [0, 0, 2] places [⟨0, ⟨0, 0⟩, ⟨0, 3⟩⟩, ⟨1, ⟨0, 0⟩, ⟨0, 3⟩⟩, ⟨2, ⟨2, 2⟩, ⟨0, 1⟩⟩]) ∧
    ∃ error rest, docks.agentsByBuckets (.ofWords 5) 2 [2, 2] (.ofWords [0]) = some (.error error, rest) := by
  have hagents : ∃ rest, docks.agentsByBuckets (.ofWords 5) 3 [0, 0, 2] (.ofWords [0]) =
      some (.ok [⟨0, ⟨0, 0⟩, ⟨0, 3⟩⟩, ⟨1, ⟨0, 0⟩, ⟨0, 3⟩⟩, ⟨2, ⟨2, 2⟩, ⟨0, 1⟩⟩], rest) := ⟨_, rfl⟩
  obtain ⟨result, rest, hfail⟩ :
      ∃ result rest, docks.agentsByBuckets (.ofWords 5) 2 [2, 2] (.ofWords [0]) = some (result, rest) := ⟨_, _, rfl⟩
  obtain ⟨_, hdrawn⟩ := hagents
  have sound := Random.Draws.sound_ofWords 5
  obtain ⟨-, hplaces⟩ := ((docks.agentsByBuckets_exact sound 3 [0, 0, 2] (.ofWords [0])).1 _ _ hdrawn).2 _ rfl
  refine ⟨sound, ⟨_, hdrawn⟩, hplaces, ?_⟩
  cases result with
  | error e => exact ⟨e, rest, hfail⟩
  | ok agents =>
    have henough := (((docks.agentsByBuckets_exact sound 2 [2, 2] (.ofWords [0])).1 _ _ hfail).1.mp ⟨agents, rfl⟩).2 2
    exact absurd henough (by decide)

end Scenario

end Mapf
