import Mapf.Proofs.Distances
import Mathlib

/-! # Distances measured against all ways

A distance stands for the least cost of all ways from the goal along listed moves, and a position without a
distance is one that no way leads to. In a finite environment every table is finished and exact; moves without
cost, moves that are listed twice and moves that lead in one direction only do not matter. Where edges are
symmetric, the distances are those to the goal (`DistanceTable.build_exact`). -/

namespace Mapf

/-- The costs of all ways from one position to another. -/
def Environment.wayCosts (env : Environment) (source target : Position) : Set Nat := {n | env.Way source target n}

theorem Environment.wayCosts_comm {env : Environment}
    (symmetric : ∀ {p q : Position} {c : Nat}, (q, c) ∈ env.neighbors p → (p, c) ∈ env.neighbors q)
    (p q : Position) : env.wayCosts p q = env.wayCosts q p :=
  Set.ext fun _ => ⟨.reverse symmetric, .reverse symmetric⟩

namespace DistanceTable

variable {env : Environment} {goal p : Position} {table : DistanceTable} {rounds : Nat}

/-- No way leads to a position at less than its distance. -/
theorem Relaxed.le_way (h : table.Relaxed env) (inside : env.contains table.goal = true) {n : Nat}
    (hw : env.Way table.goal p n) : ∃ d, table.get? p = some d ∧ d ≤ n := by
  induction hw with
  | refl => exact ⟨0, h.goal inside, Nat.le_refl 0⟩
  | @step q r n c _ hm ih =>
    obtain ⟨d, hd, hle⟩ := ih
    obtain ⟨d', hd', hle'⟩ := h.move hd hm
    exact ⟨d', hd', by omega⟩

theorem Relaxed.get?_eq_some_iff (h : table.Relaxed env) (inside : env.contains table.goal = true) {d : Nat} :
    table.get? p = some d ↔ IsLeast (env.wayCosts table.goal p) d := by
  constructor
  · intro hd
    refine ⟨h.way hd, fun n hn => ?_⟩
    obtain ⟨d', hd', hle⟩ := h.le_way inside hn
    cases hd.symm.trans hd'
    exact hle
  · rintro ⟨hmem, hlower⟩
    obtain ⟨d', hd', hle⟩ := h.le_way inside hmem
    rw [hd', Nat.le_antisymm hle (hlower (h.way hd'))]

theorem Relaxed.get?_eq_none_iff (h : table.Relaxed env) (inside : env.contains table.goal = true) :
    table.get? p = none ↔ env.wayCosts table.goal p = ∅ := by
  rw [Set.eq_empty_iff_forall_notMem]
  constructor
  · intro hnone n hn
    obtain ⟨d, hd, -⟩ := h.le_way inside hn
    cases hnone.symm.trans hd
  · intro hempty
    rw [Option.eq_none_iff_forall_ne_some]
    exact fun d hd => hempty d (h.way hd)

/-- Nothing waits at the start if the goal is outside, so nothing is ever settled. -/
theorem get?_of_outside (outside : env.contains goal = false) (h : build rounds env goal = some table)
    (p : Position) : table.get? p = none := by
  have hdone : Progress.round env goal (.start env goal) = .done ⟨goal, ∅⟩ := by
    simp only [Progress.round, Progress.start, outside]
    rfl
  have hone : build 1 env goal = some ⟨goal, ∅⟩ := Loop.run_done (congrArg some hdone) 0
  cases (build_mono (le_max_left rounds 1) h).symm.trans (build_mono (le_max_right rounds 1) hone)
  exact Std.HashMap.getElem?_empty

/-- In a finite environment every table is finished. If the goal is inside, it lists just the positions to which
    some way leads from there, each with the least cost of all such ways; otherwise it lists nothing. Where edges
    are symmetric, the costs are also those of the ways to the goal. -/
theorem build_exact (finite : ∃ cells, env.Within cells) (goal : Position) :
    ∃ table, (∃ least, ∀ rounds ≥ least, build rounds env goal = some table) ∧
      (env.contains goal = true → ∀ p, (∀ d, table.get? p = some d ↔ IsLeast (env.wayCosts goal p) d) ∧
        (table.get? p = none ↔ env.wayCosts goal p = ∅)) ∧
      (env.contains goal = false → ∀ p, table.get? p = none) ∧
      ((∀ {p q : Position} {c : Nat}, (q, c) ∈ env.neighbors p → (p, c) ∈ env.neighbors q) →
        env.contains goal = true → ∀ p, (∀ d, table.get? p = some d ↔ IsLeast (env.wayCosts p goal) d) ∧
          (table.get? p = none ↔ env.wayCosts p goal = ∅)) := by
  obtain ⟨cells, within⟩ := finite
  obtain ⟨table, htable⟩ : ∃ table, build _ env goal = some table := build_ends within (Nat.lt_succ_self _)
  obtain ⟨relaxed, rfl⟩ := relaxed_of_build htable
  have hexact : env.contains table.goal = true → ∀ p, (∀ d, table.get? p = some d ↔
      IsLeast (env.wayCosts table.goal p) d) ∧ (table.get? p = none ↔ env.wayCosts table.goal p = ∅) :=
    fun inside p => ⟨fun d => relaxed.get?_eq_some_iff inside, relaxed.get?_eq_none_iff inside⟩
  refine ⟨table, ⟨_, fun rounds hr => build_mono hr htable⟩, hexact, fun outside => get?_of_outside outside htable,
    fun symmetric inside p => ?_⟩
  rw [Environment.wayCosts_comm symmetric]
  exact hexact inside p

end DistanceTable

end Mapf
