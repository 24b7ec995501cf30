import Mapf.Proofs.Distances
import Mapf.Proofs.Strict.Queue
import Mapf.Proofs.Strict.Sums

/-! # Distances that are sure to be entered

Building a distance table passes over the results of entering and lowering a distance. It may: a position is looked
up before, so neither ever fails (`DistanceTable.Strict.build_eq`). -/

namespace Mapf.DistanceTable.Strict

open Mapf.Strict

/-- Offers a tentative distance, and takes for granted that the queue accepts it. -/
def relax (sums : Sums) (distances : Std.HashMap Position Nat) (cost : Nat) (frontier : Queue Position Nat)
    (move : Position × Nat) : Except Fault (Queue Position Nat) := do
  if distances.contains move.1 then return frontier
  else
    let next ← sums.add cost move.2
    match ← Queue.Strict.get? frontier move.1 with
    | some best =>
      if best ≤ next then return frontier
      else expect (← Queue.Strict.update frontier move.1 fun _ => next)
    | none => expect (← Queue.Strict.insert frontier move.1 next)

def start (env : Environment) (goal : Position) : Except Fault Progress := do
  if env.contains goal then
    return ⟨∅, ← expect (← Queue.Strict.insert .empty goal 0)⟩
  else return ⟨∅, .empty⟩

def round (sums : Sums) (env : Environment) (goal : Position) (s : Progress) :
    Except Fault (Option (Round Progress DistanceTable)) := do
  match ← Queue.Strict.popMin s.frontier with
  | .error _ => return some (.done ⟨goal, s.distances⟩)
  | .ok ((p, cost), frontier) =>
    let distances := s.distances.insert p cost
    return some (.next ⟨distances, ← (env.neighbors p).foldlM (relax sums distances cost) frontier⟩)

def build (sums : Sums) (rounds : Nat) (env : Environment) (goal : Position) :
    Except Fault (Option DistanceTable) := do
  Loop.Strict.run (round sums env goal) rounds (← start env goal)

open Progress

section Relax

variable {env : Environment} {goal p : Position} {cost : Nat} {m : Position × Nat}
  {distances : Std.HashMap Position Nat} {frontier : Queue Position Nat}

theorem relax_eq (hq : frontier.Valid) (distances : Std.HashMap Position Nat) (cost : Nat) (m : Position × Nat) :
    relax .numbers distances cost frontier m = .ok (Progress.relax distances cost frontier m) := by
  unfold relax Progress.relax
  split
  case isTrue => rfl
  case isFalse =>
    rw [Sums.numbers_add, ok_bind, Queue.Strict.get?_eq hq.indexed, ok_bind]
    cases hget : frontier.get? m.1 with
    | none =>
      obtain ⟨f, hf, -⟩ := hq.get?_insert hget (cost + m.2)
      dsimp only
      rw [Queue.Strict.insert_eq, ok_bind, hf]
      rfl
    | some best =>
      dsimp only
      split
      case isTrue => rfl
      case isFalse =>
        obtain ⟨f, hf, -⟩ := hq.get?_update hget fun _ => cost + m.2
        rw [Queue.Strict.update_eq hq.indexed, ok_bind, hf]
        rfl

/-- The queue stays valid from one move to the next. -/
theorem relaxAll_eq {moves : List (Position × Nat)}
    (h : Settling env goal (fun q n => q = p ∧ n ∈ moves) distances frontier) (hp : distances[p]? = some cost)
    (hmax : ∀ {q : Position} {d : Nat}, distances[q]? = some d → d ≤ cost)
    (hmoves : ∀ m ∈ moves, m ∈ env.neighbors p) :
    moves.foldlM (relax .numbers distances cost) frontier =
      .ok (moves.foldl (Progress.relax distances cost) frontier) := by
  induction moves generalizing frontier with
  | nil => rfl
  | cons m rest ih =>
    rw [List.foldlM_cons, relax_eq h.valid, ok_bind, List.foldl_cons]
    exact ih (h.relax hp hmax (hmoves m List.mem_cons_self)) fun n hn => hmoves n (List.mem_cons_of_mem _ hn)

end Relax

variable {env : Environment} {goal : Position}

theorem start_eq (env : Environment) (goal : Position) : start env goal = .ok (.start env goal) := by
  unfold start Progress.start
  split
  case isFalse => rfl
  case isTrue =>
    obtain ⟨f, hf, -⟩ := (Queue.valid_empty (κ := Position) (π := Nat)).get?_insert (Queue.get?_empty goal) 0
    rw [Queue.Strict.insert_eq, ok_bind, hf]
    rfl

theorem round_eq {s : Progress} (h : Sound env goal s) :
    round .numbers env goal s = .ok (some (Progress.round env goal s)) := by
  rw [round, Queue.Strict.popMin_eq, ok_bind, Progress.round]
  cases hpop : s.frontier.popMin with
  | error err => rfl
  | ok popped =>
    obtain ⟨⟨p, cost⟩, frontier⟩ := popped
    dsimp only
    rw [relaxAll_eq (Settling.settle h hpop) (by simp) (Settling.le_settled h hpop) fun m hm => hm]
    rfl

/-- Building a table comes to the end strictly. -/
theorem build_eq (rounds : Nat) (env : Environment) (goal : Position) :
    build .numbers rounds env goal = .ok (DistanceTable.build rounds env goal) := by
  rw [build, start_eq, ok_bind]
  exact Loop.Strict.run_eq (fun _ hs => round_eq hs) (fun _ _ hs hr => sound_round hs (Option.some.inj hr)) rounds
    (sound_start env goal)

theorem build_awaits (sums : Sums) (env : Environment) (goal : Position) {n m : Nat} (hnm : n ≤ m) :
    Awaits (build sums n env goal) (build sums m env goal) :=
  .bind_left _ fun s => Loop.Strict.run_awaits (fun _ => .refl _) hnm s

/-! ### Sums -/

theorem relax_lags (sums : Sums) (distances : Std.HashMap Position Nat) (cost : Nat) (frontier : Queue Position Nat)
    (m : Position × Nat) : Lags (relax .checked distances cost frontier m) (relax sums distances cost frontier m) :=
  .ite (.refl _) ((Lags.add sums cost m.2).bind_right _)

theorem round_lags (sums : Sums) (env : Environment) (goal : Position) (s : Progress) :
    Lags (round .checked env goal s) (round sums env goal s) := by
  refine .bind_left _ fun popped => ?_
  cases popped with
  | error err => exact .refl _
  | ok popped => exact (Lags.foldlM (fun _ _ => relax_lags sums _ _ _ _) _ _).bind_right _

theorem build_lags (sums : Sums) (rounds : Nat) (env : Environment) (goal : Position) :
    Lags (build .checked rounds env goal) (build sums rounds env goal) :=
  .bind_left _ fun s => Loop.Strict.run_lags (round_lags sums env goal) rounds s

end Mapf.DistanceTable.Strict
