import Mapf.Grid.Basic
import Mapf.Proofs.SpaceTime.Exact
import Mapf.Proofs.Strict.Search

/-! # Times in words

Time stops one after the last constraint, and advances by one from cell to cell. Both are sums. If the latest constraint
leaves room for two more times, both are words, and stopping time loses nothing however a machine adds
(`SpaceTime.frozen_exact_of_words`). -/

namespace Mapf

open Mapf.Strict

/-- A trail is one in any state space that has the same moves out of the states that it may come through. -/
theorem Problem.Trail.transfer {σ : Type} {P Q : Problem σ} {prune : Pruning σ} {I : σ → Prop}
    (initial : Q.initial = P.initial) (start : I P.initial) (same : ∀ a, I a → Q.successors a = P.successors a)
    (keep : ∀ a m, I a → m ∈ P.successors a → I m.1) {l : List σ} {cost : Nat} (ht : P.Trail prune l cost) :
    Q.Trail prune l cost ∧ ∀ a ∈ l.head?, I a := by
  induction ht with
  | root hp =>
    refine ⟨initial ▸ .root (initial ▸ hp), fun a ha => ?_⟩
    cases ha
    exact start
  | @step a b rest g c ht hlead ih =>
    obtain ⟨htrail, hI⟩ := ih
    have ha : I a := hI a rfl
    refine ⟨htrail.step ⟨same a ha ▸ hlead.1, hlead.2⟩, fun x hx => ?_⟩
    cases hx
    exact keep a _ ha hlead.1

namespace SpaceTime

variable {env : Environment} {agent : Agent} {table : DistanceTable} {set : ConstraintSet} {sums : Sums}

namespace Strict

/-- The state space of an agent where time is added up; no moves lead out of a cell whose next time cannot be told. -/
def problem (sums : Sums) (env : Environment) (agent : Agent) (table : DistanceTable) (constraints : ConstraintSet) :
    Problem Cell :=
  { SpaceTime.problem env agent table constraints with
    successors := fun cell =>
      (horizon sums constraints >>= fun time => successors sums env time cell).toOption.getD [] }

theorem horizon_eq_of_words (h : SpaceTime.horizon set < Word.count) (sums : Sums) :
    horizon sums set = .ok (SpaceTime.horizon set) := by
  unfold horizon SpaceTime.horizon at *
  cases hmax : set.maxTimeStep with
  | none => rfl
  | some time =>
    rw [hmax] at h
    exact sums.exact h

theorem successors_eq_of_words {cell : Cell} (h : cell.time + 1 < Word.count) (sums : Sums) :
    successors sums env (SpaceTime.horizon set) cell =
      .ok ((SpaceTime.problem env agent table set).successors cell) := by
  rw [successors, sums.exact h]
  rfl

end Strict

theorem time_le_of_mem_successors {a : Cell} {m : Cell × Nat} (hm : m ∈ (problem env agent table set).successors a) :
    m.1.time ≤ horizon set := by
  simp only [problem, List.mem_append, List.mem_map, List.mem_singleton] at hm
  rcases hm with ⟨n, -, rfl⟩ | rfl
  · exact Nat.min_le_right _ _
  · exact Nat.min_le_right _ _

/-- Where the horizon leaves room for one more time, the trails are the same however times are added. -/
theorem trail_iff_of_words (h : horizon set + 1 < Word.count) (sums : Sums) {l : List Cell} {cost : Nat} :
    (Strict.problem sums env agent table set).Trail (pruning env set) l cost ↔
      (problem env agent table set).Trail (pruning env set) l cost := by
  let P := problem env agent table set
  let Q := Strict.problem sums env agent table set
  have same : ∀ a : Cell, a.time ≤ horizon set → Q.successors a = P.successors a := by
    intro a ha
    have hhorizon : Strict.horizon sums set = .ok (horizon set) := Strict.horizon_eq_of_words (by omega) sums
    have hsuccessors : Strict.successors sums env (horizon set) a = .ok (P.successors a) :=
      Strict.successors_eq_of_words (by omega) sums
    show ((Strict.horizon sums set >>= fun time => Strict.successors sums env time a).toOption.getD []) = _
    rw [hhorizon, ok_bind, hsuccessors]
    rfl
  constructor
  · intro ht
    exact (ht.transfer (P := Q) (Q := P) (I := fun a => a.time ≤ horizon set) rfl (Nat.zero_le _)
      (fun a ha => (same a ha).symm) (fun a m ha hm => time_le_of_mem_successors (same a ha ▸ hm))).1
  · intro ht
    exact (ht.transfer (P := P) (Q := Q) (I := fun a => a.time ≤ horizon set) rfl (Nat.zero_le _) same
      (fun a m _ hm => time_le_of_mem_successors hm)).1

/-- If the latest constraint leaves room for two more times, then however a machine adds: time stops one after it, or at
    once without any, and a sequence of positions is accepted with its times frozen there exactly if it is a plan with
    its real times. -/
theorem frozen_exact_of_words (env : Environment) (agent : Agent) (table : DistanceTable) (owner : Nat)
    (constraints : List Constraint) (room : ∀ c ∈ constraints, c.timeStep + 2 < Word.count) (sums : Sums) :
    Strict.horizon sums (.ofList owner constraints) =
        .ok (((constraints.map Constraint.timeStep).max?.map (· + 1)).getD 0) ∧
      ∀ ps, (Strict.problem sums env agent table (.ofList owner constraints)).Accepts
        (pruning env (.ofList owner constraints)) (frozen (.ofList owner constraints) ps) ↔
          Timed env agent owner constraints ps := by
  obtain ⟨hhorizon, hexact⟩ := frozen_exact env agent table owner constraints
  have hroom : horizon (.ofList owner constraints) + 1 < Word.count := by
    rw [hhorizon]
    cases hmax : (constraints.map Constraint.timeStep).max? with
    | none => decide
    | some time =>
      obtain ⟨c, hc, rfl⟩ := List.mem_map.mp (List.max?_mem hmax)
      exact room c hc
  refine ⟨hhorizon ▸ Strict.horizon_eq_of_words (Nat.lt_of_succ_lt hroom) sums, fun ps => ?_⟩
  rw [← hexact ps]
  exact ⟨fun ⟨⟨cost, ht⟩, hlast⟩ => ⟨⟨cost, (trail_iff_of_words hroom sums).mp ht⟩, hlast⟩,
    fun ⟨⟨cost, ht⟩, hlast⟩ => ⟨⟨cost, (trail_iff_of_words hroom sums).mpr ht⟩, hlast⟩⟩

/-- A constraint at the last of all times leaves no room: its successor is no word. -/
example : Strict.horizon .checked (.ofList 0 [.vertex 0 ⟨0, 1⟩ 1, .vertex 0 ⟨5, 5⟩ 18446744073709551615]) =
      .error .overflow ∧
    Strict.horizon .wrapping (.ofList 0 [.vertex 0 ⟨0, 1⟩ 1, .vertex 0 ⟨5, 5⟩ 18446744073709551615]) = .ok 0 := by
  constructor <;> cbv

/-- A corridor of three tiles. -/
def corridor : Grid := .ofObstacles 1 3 []

def walker : Agent := ⟨0, ⟨0, 0⟩, ⟨0, 2⟩⟩

theorem timed_walker :
    Timed corridor.environment walker 0 [.vertex 0 ⟨0, 1⟩ 1] [⟨0, 0⟩, ⟨0, 0⟩, ⟨0, 1⟩, ⟨0, 2⟩] where
  start := rfl
  entered := by cbv
  step {t p q} hp hq := by
    rcases t with _ | _ | _ | t
    · cases hp
      cases hq
      exact ⟨.inl rfl, by cbv⟩
    · cases hp
      cases hq
      exact ⟨.inr ⟨1, by decide⟩, by cbv⟩
    · cases hp
      cases hq
      exact ⟨.inr ⟨1, by decide⟩, by cbv⟩
    · cases hq
  goal := rfl
  parked {t} ht o hm := by cases List.mem_singleton.mp hm

/-- The walker waits until it may enter the middle of the corridor, where time stops. -/
theorem accepts_walker : (∀ c ∈ [Constraint.vertex 0 ⟨0, 1⟩ 1], c.timeStep + 2 < Word.count) ∧
    Strict.horizon .wrapping (.ofList 0 [.vertex 0 ⟨0, 1⟩ 1]) = .ok 2 ∧
    (Strict.problem .wrapping corridor.environment walker ⟨⟨0, 2⟩, ∅⟩ (.ofList 0 [.vertex 0 ⟨0, 1⟩ 1])).Accepts
      (pruning corridor.environment (.ofList 0 [.vertex 0 ⟨0, 1⟩ 1]))
      (frozen (.ofList 0 [.vertex 0 ⟨0, 1⟩ 1]) [⟨0, 0⟩, ⟨0, 0⟩, ⟨0, 1⟩, ⟨0, 2⟩]) := by
  have room : ∀ c ∈ [Constraint.vertex 0 ⟨0, 1⟩ 1], c.timeStep + 2 < Word.count := by decide
  obtain ⟨hhorizon, hexact⟩ :=
    frozen_exact_of_words corridor.environment walker ⟨⟨0, 2⟩, ∅⟩ 0 [.vertex 0 ⟨0, 1⟩ 1] room .wrapping
  exact ⟨room, hhorizon, (hexact _).mpr timed_walker⟩

end SpaceTime

end Mapf
