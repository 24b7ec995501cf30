import Mapf.Proofs.Conflicts
import Mapf.Proofs.Lawful
import Mapf.SpaceTime
import Mathlib.Data.List.Forall2

/-! # Routes and joint plans

A route is a sequence of positions in which every step waits or makes a listed move to a position inside.
A joint plan gives every agent a route from its start to its goal such that no two of them conflict. This
is what the planners are measured against; nothing here depends on how they search. -/

namespace Mapf

namespace Environment

/-- A step of an agent with its cost: it waits, or it makes a listed move to a position inside. -/
inductive Step (env : Environment) (p : Position) : Position → Nat → Prop
  | wait : Step env p p waitCost
  | move {q : Position} {c : Nat} : (q, c) ∈ env.neighbors p → env.contains q = true → Step env p q c

/-- A sequence of positions along steps, with its cost. -/
inductive Route (env : Environment) : List Position → Nat → Prop
  | single (p : Position) : Route env [p] 0
  | cons {p q : Position} {rest : List Position} {c n : Nat} : env.Step p q c → Route env (q :: rest) n →
      Route env (p :: q :: rest) (c + n)

variable {env : Environment} {p q : Position} {ps : List Position} {c n : Nat}

theorem Step.contains (h : env.Step p q c) (hp : env.contains p = true) : env.contains q = true := by
  cases h with
  | wait => exact hp
  | move _ hq => exact hq

theorem route_pair_iff : env.Route [p, q] n ↔ env.Step p q n := by
  constructor
  · intro h
    cases h with
    | cons hs hq =>
      cases hq
      exact hs
  · exact fun hs => .cons hs (.single q)

/-- A route that ends with a step, taken apart at its end. -/
theorem route_snoc_iff : env.Route (ps ++ [p, q]) n ↔
    ∃ m c, env.Route (ps ++ [p]) m ∧ env.Step p q c ∧ n = m + c := by
  induction ps generalizing n with
  | nil =>
    rw [List.nil_append, route_pair_iff]
    constructor
    · exact fun hs => ⟨0, n, .single p, hs, (Nat.zero_add n).symm⟩
    · rintro ⟨m, c, hp, hs, rfl⟩
      cases hp
      rwa [Nat.zero_add]
  | cons r rest ih =>
    -- The step out of `r` leads to the same position with and without `q`.
    obtain ⟨s, tail, h₁, h₂⟩ : ∃ s tail, rest ++ [p, q] = s :: (tail ++ [q]) ∧ rest ++ [p] = s :: tail := by
      cases rest with
      | nil => exact ⟨p, [], rfl, rfl⟩
      | cons s rest => exact ⟨s, rest ++ [p], by simp, rfl⟩
    rw [List.cons_append, List.cons_append]
    constructor
    · intro h
      rw [h₁] at h
      cases h with
      | cons hr hrest =>
        rw [← h₁] at hrest
        obtain ⟨m, c, hm, hs, rfl⟩ := ih.mp hrest
        rw [h₂] at hm ⊢
        exact ⟨_, c, .cons hr hm, hs, (Nat.add_assoc _ _ _).symm⟩
    · rintro ⟨m, c, h, hs, rfl⟩
      rw [h₂] at h
      cases h with
      | cons hr hrest =>
        rw [← h₂] at hrest
        have := ih.mpr ⟨_, c, hrest, hs, rfl⟩
        rw [h₁] at this ⊢
        rw [Nat.add_assoc]
        exact .cons hr this

theorem Route.next (h : env.Route ps n) {t : Nat} (hp : ps[t]? = some p) (hq : ps[t + 1]? = some q) :
    ∃ c, env.Step p q c := by
  induction h generalizing t with
  | single => cases hq
  | cons hs _ ih =>
    cases t with
    | zero =>
      cases hp
      cases hq
      exact ⟨_, hs⟩
    | succ t => exact ih hp hq

/-- A sequence of positions is a route if there is a step between any two that follow each other. -/
theorem exists_route_iff : (∃ n, env.Route ps n) ↔
    ps ≠ [] ∧ ∀ {t : Nat} {p q : Position}, ps[t]? = some p → ps[t + 1]? = some q → ∃ c, env.Step p q c := by
  constructor
  · rintro ⟨n, h⟩
    refine ⟨?_, h.next⟩
    rintro rfl
    cases h
  · rintro ⟨hne, h⟩
    induction ps with
    | nil => exact absurd rfl hne
    | cons p rest ih =>
      cases rest with
      | nil => exact ⟨0, .single p⟩
      | cons q rest =>
        obtain ⟨c, hs⟩ := h (t := 0) rfl rfl
        obtain ⟨n, hroute⟩ := ih (List.cons_ne_nil _ _) fun {t _ _} hp hq => h (t := t + 1) hp hq
        exact ⟨c + n, .cons hs hroute⟩

theorem Route.contains (h : env.Route ps n) (hstart : ∀ {p}, ps.head? = some p → env.contains p = true) :
    ∀ p ∈ ps, env.contains p = true := by
  induction h with
  | single p =>
    intro q hq
    rw [List.mem_singleton.mp hq]
    exact hstart rfl
  | cons hs _ ih =>
    intro q hq
    rcases List.mem_cons.mp hq with rfl | hq
    · exact hstart rfl
    · refine ih (fun hr => ?_) q hq
      cases hr
      exact hs.contains (hstart rfl)

/-- Where no move is free, a route has at most one position more than it costs. -/
theorem Route.length_le (hpos : ∀ {p q : Position} {c : Nat}, (q, c) ∈ env.neighbors p → 1 ≤ c) (h : env.Route ps n) :
    ps.length ≤ n + 1 := by
  induction h with
  | single => exact Nat.le_refl 1
  | @cons p q rest c n hs _ ih =>
    have : 1 ≤ c := by
      cases hs with
      | wait => exact Nat.le_refl 1
      | move hm => exact hpos hm
    simp only [List.length_cons] at ih ⊢
    omega

end Environment

/-- A route from the start of an agent to its goal. -/
structure Agent.Travels (agent : Agent) (env : Environment) (positions : List Position) (cost : Nat) : Prop where
  start : positions.head? = some agent.start
  goal : positions.getLast? = some agent.goal
  route : env.Route positions cost

/-- A route with its cost for each agent, such that no two agents ever conflict. -/
structure JointPlan (env : Environment) (agents : List Agent) where
  routes : List (List Position × Nat)
  travels : List.Forall₂ (fun agent route => agent.Travels env route.1 route.2) agents routes
  free : Conflict.detect (routes.map fun route => Path.ofPositions route.1) = []

namespace JointPlan

variable {env : Environment} {agents : List Agent}

/-- The costs of the agents. -/
def costs (plan : JointPlan env agents) : List Nat := plan.routes.map Prod.snd

/-- The paths of the agents. -/
def paths (plan : JointPlan env agents) : List Path := plan.routes.map fun route => Path.ofPositions route.1

end JointPlan

/-! ### Positions as a path -/

namespace Path

variable {ps : List Position} {t : Nat} {p q : Position}

theorem getElem?_ofPositions : (ofPositions ps)[t]? = ps[t]?.map (·.atTime t) := List.getElem?_mapIdx

@[simp] theorem length_ofPositions : (ofPositions ps).length = ps.length := List.length_mapIdx

theorem positionAt_ofPositions : (ofPositions ps).positionAt t = ps[t]?.or ps.getLast? := by
  rw [positionAt, List.getLast?_eq_getElem?, getElem?_ofPositions, getElem?_ofPositions, length_ofPositions,
    ← List.getLast?_eq_getElem?]
  cases ps[t]? <;> cases ps.getLast? <;> rfl

theorem moveAt_ofPositions : (ofPositions ps).moveAt t = some (p, q) ↔
    ∃ u, t = u + 1 ∧ ps[u]? = some p ∧ ps[t]? = some q := by
  cases t with
  | zero => simp [moveAt]
  | succ u =>
    simp only [moveAt, getElem?_ofPositions]
    cases hp : ps[u]? <;> cases hq : ps[u + 1]? <;> simp [hp]

end Path

end Mapf
