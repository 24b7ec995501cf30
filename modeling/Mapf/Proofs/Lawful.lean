import Mapf.Environment
import Mathlib.Data.Finset.Basic

/-! # What planners expect of an environment

An environment is lawful when it is finite, when every edge can be used in both directions at the same
cost, and when it gives a cost to exactly the moves that it lists. Optimality and truthful failure need
less (`Navigable`), and what they say of a way through the environment is in terms of the listed moves
(`Way`). -/

namespace Mapf.Environment

/-- Every position that the environment holds or leads to is among `cells`. -/
structure Within (env : Environment) (cells : Finset Position) : Prop where
  contains : ∀ {p : Position}, env.contains p = true → p ∈ cells
  neighbors : ∀ {p q : Position} {c : Nat}, (q, c) ∈ env.neighbors p → q ∈ cells

/-- Finite, with symmetric edges of equal cost, and with a cost for exactly the listed moves. -/
structure Lawful (env : Environment) : Prop where
  finite : ∃ cells, env.Within cells
  symmetric : ∀ {p q : Position} {c : Nat}, (q, c) ∈ env.neighbors p → (p, c) ∈ env.neighbors q
  coherent : ∀ {p q : Position}, (env.edgeCost p q).isSome ↔ ∃ c, (q, c) ∈ env.neighbors p

/-- Edges are symmetric, and every listed move has a cost. -/
structure Navigable (env : Environment) : Prop where
  symmetric : ∀ {p q : Position} {c : Nat}, (q, c) ∈ env.neighbors p → (p, c) ∈ env.neighbors q
  passable : ∀ {p q : Position} {c : Nat}, (q, c) ∈ env.neighbors p → (env.edgeCost p q).isSome

theorem Lawful.navigable {env : Environment} (h : env.Lawful) : env.Navigable :=
  ⟨h.symmetric, fun hm => h.coherent.mpr ⟨_, hm⟩⟩

/-- A way along listed moves, of total cost `n`. -/
inductive Way (env : Environment) (p : Position) : Position → Nat → Prop
  | refl : Way env p p 0
  | step {q r : Position} {n c : Nat} : Way env p q n → (r, c) ∈ env.neighbors q → Way env p r (n + c)

theorem Way.mem {env : Environment} {cells : Finset Position} (h : env.Within cells) {p q : Position} {n : Nat}
    (hw : env.Way p q n) : q ∈ insert p cells := by
  cases hw with
  | refl => exact Finset.mem_insert_self _ _
  | step _ hm => exact Finset.mem_insert_of_mem (h.neighbors hm)

theorem Way.cons {env : Environment} {p q r : Position} {n c : Nat} (hm : (q, c) ∈ env.neighbors p)
    (hw : env.Way q r n) : env.Way p r (n + c) := by
  induction hw with
  | refl => exact .step .refl hm
  | @step r s n d _ hs ih =>
    rw [Nat.add_right_comm]
    exact ih.step hs

/-- Where edges are symmetric, a way back costs the same. -/
theorem Way.reverse {env : Environment}
    (symmetric : ∀ {p q : Position} {c : Nat}, (q, c) ∈ env.neighbors p → (p, c) ∈ env.neighbors q) {p q : Position}
    {n : Nat} (hw : env.Way p q n) : env.Way q p n := by
  induction hw with
  | refl => exact .refl
  | step _ hm ih => exact ih.cons (symmetric hm)

end Mapf.Environment
