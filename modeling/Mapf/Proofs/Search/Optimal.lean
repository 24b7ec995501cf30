import Mapf.Proofs.Search.Outcome
import Mathlib

/-! # Cheapest ways to a goal

An estimate is faithful if it is consistent, is 0 at goals, and gives up only where no goal can be
reached. Then no state on a trail to a goal is given up, so every such trail is promising, and the cost
that a search reports is the least cost of all trails to a goal (`BestFirst.isLeast_cost_of_search`). -/

namespace Mapf

namespace Problem

variable {σ : Type} {P : Problem σ} {prune : Pruning σ}

/-- Moves that are not pruned lead from one state to another, in any number of steps. -/
def Reaches (P : Problem σ) (prune : Pruning σ) : σ → σ → Prop :=
  Relation.ReflTransGen fun a b => ∃ c, P.Leads prune a b c

/-- An estimate that falls by no more than a move costs, is 0 at goals, and is missing only where no goal
    can be reached. -/
structure Faithful (P : Problem σ) (prune : Pruning σ) : Prop where
  consistent : P.Consistent prune
  goal : ∀ {a : σ} {h : Nat}, P.isGoal a = true → P.heuristic a = some h → h = 0
  missing : ∀ {a b : σ}, P.heuristic a = none → P.Reaches prune a b → P.isGoal b = false

/-- What the ways from the initial state to a goal cost, if they are never pruned. -/
def goalCosts (P : Problem σ) (prune : Pruning σ) : Set Nat :=
  {cost | ∃ a rest, P.Trail prune (a :: rest) cost ∧ P.isGoal a = true}

/-- The end of a trail can be reached from each of its states. -/
theorem Trail.reaches {l : List σ} {cost : Nat} (ht : P.Trail prune l cost) :
    ∀ {b : σ} {rest : List σ}, l = b :: rest → ∀ a ∈ l, P.Reaches prune a b := by
  induction ht with
  | root _ =>
    intro b rest hl a ha
    obtain ⟨rfl, -⟩ := List.cons.inj hl
    rw [List.mem_singleton.mp ha]
    exact .refl
  | step _ hlead ih =>
    intro b rest hl a ha
    obtain ⟨rfl, -⟩ := List.cons.inj hl
    rcases List.mem_cons.mp ha with rfl | ha
    · exact .refl
    · exact (ih rfl a ha).tail ⟨_, hlead⟩

/-- A faithful estimate gives up no state on a trail to a goal. -/
theorem Faithful.promising (hf : P.Faithful prune) {a : σ} {rest : List σ} {cost : Nat}
    (ht : P.Trail prune (a :: rest) cost) (hgoal : P.isGoal a = true) : P.Promising (a :: rest) := by
  intro b hb
  rw [← Option.ne_none_iff_isSome]
  intro hnone
  rw [hf.missing hnone (ht.reaches rfl b hb)] at hgoal
  cases hgoal

end Problem

namespace BestFirst

variable {σ : Type} [BEq σ] [Hashable σ] [LawfulBEq σ] {P : Problem σ} {prune : Pruning σ}

/-- With a faithful estimate, a search that finds a goal reports the least cost of a way to a goal. -/
theorem isLeast_cost_of_search (faithful : P.Faithful prune) {rounds : Nat} {deadline : Deadline}
    {report : SearchReport (Outcome σ)} (h : search rounds P prune deadline = some report) {outcome : Outcome σ}
    (ok : report.result = .ok outcome) : IsLeast (P.goalCosts prune) outcome.cost := by
  have hans := answers_of_search h
  rw [ok] at hans
  cases hans with
  | found hgoal ht _ _ hleast =>
    refine ⟨⟨_, _, ht, hgoal⟩, ?_⟩
    rintro cost ⟨b, l, ht', hgoal'⟩
    have hprom := faithful.promising ht' hgoal'
    obtain ⟨k, hk⟩ := Option.isSome_iff_exists.mp (hprom b List.mem_cons_self)
    obtain rfl := faithful.goal hgoal' hk
    exact hleast faithful.consistent ht' hprom hgoal' hk

end BestFirst

end Mapf
