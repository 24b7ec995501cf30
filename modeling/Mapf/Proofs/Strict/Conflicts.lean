import Mapf.Proofs.Conflicts
import Mapf.Proofs.Strict.Basic

/-! # Places in paths

The scan for conflicts takes paths by their places in the list, and the cell that an agent comes from by the time
before. Both are always there (`Conflict.Strict.detect_eq`): the cell is looked for only while the agent is still on
its way. -/

namespace Mapf.Conflict

open Mapf.Strict

namespace Strict

def kindAt (path1 path2 : Path) (time : Nat) : Except Fault (Option ConflictKind) :=
  match path1.positionAt time, path2.positionAt time with
  | some p1, some p2 =>
    if p1 = p2 then return some (.vertex p1 time)
    else if time = 0 ∨ path1.length ≤ time ∨ path2.length ≤ time then return none
    else do
      let before1 ← element path1.toArray (time - 1)
      let before2 ← element path2.toArray (time - 1)
      if before1.position = p2 ∧ before2.position = p1 then return some (.edge before1.position p1 time)
      else return none
  | _, _ => return none

/-- The conflict at a time of the agents at two places. -/
def conflictAt (paths : List Path) (time : Nat) (places : Nat × Nat) : Except Fault (Option Conflict) := do
  let path1 ← element paths.toArray places.1
  let path2 ← element paths.toArray places.2
  return (← kindAt path1 path2 time).map fun kind => ⟨places.1, places.2, kind⟩

def detect (paths : List Path) : Except Fault (List Conflict) := do
  let found ← (List.range (longest paths)).mapM fun time => do
    let atTime ← (pairs (List.range paths.length)).mapM (conflictAt paths time)
    return atTime.filterMap id
  return found.flatten

/-! ### No fault -/

variable {path1 path2 : Path} {paths : List Path} {time : Nat}

/-- While a path lasts, it has the cell before. -/
theorem before_eq {path : Path} (h : time + 1 < path.length) : ∃ before after : Cell,
    element path.toArray time = .ok before ∧ path.positionAt (time + 1) = some after.position ∧
      path.moveAt (time + 1) = some (before.position, after.position) := by
  have hbefore : time < path.length := by omega
  refine ⟨path[time], path[time + 1], element_eq (by simp [hbefore]), Path.positionAt_of_lt h, ?_⟩
  simp [Path.moveAt, h, hbefore]

theorem moveAt_eq_none {path : Path} (h : time = 0 ∨ path.length ≤ time) : path.moveAt time = none := by
  rw [Option.eq_none_iff_forall_ne_some]
  rintro ⟨p, q⟩ hmove
  obtain ⟨before, htime, hlt, -⟩ := Path.moveAt_eq_some_iff.mp hmove
  omega

theorem kindAt_eq (path1 path2 : Path) (time : Nat) :
    kindAt path1 path2 time = .ok (Conflict.kindAt path1 path2 time) := by
  unfold kindAt Conflict.kindAt
  cases hp1 : path1.positionAt time with
  | none => rfl
  | some p1 =>
    cases hp2 : path2.positionAt time with
    | none => rfl
    | some p2 =>
      dsimp only
      split
      case isTrue => rfl
      case isFalse =>
        by_cases hend : time = 0 ∨ path1.length ≤ time ∨ path2.length ≤ time
        case pos =>
          rw [if_pos hend]
          rcases hend with h0 | h1 | h2
          · rw [moveAt_eq_none (.inl h0)]
            rfl
          · rw [moveAt_eq_none (.inr h1)]
            rfl
          · have hmove : path2.moveAt time = none := moveAt_eq_none (.inr h2)
            rw [hmove]
            cases path1.moveAt time <;> rfl
        case neg =>
          rw [if_neg hend]
          obtain ⟨time, rfl⟩ : ∃ before, time = before + 1 := ⟨time - 1, by omega⟩
          have hlast1 : time + 1 < path1.length := by omega
          have hlast2 : time + 1 < path2.length := by omega
          obtain ⟨before1, after1, hbefore1, hafter1, hmove1⟩ := before_eq hlast1
          obtain ⟨before2, after2, hbefore2, hafter2, hmove2⟩ := before_eq hlast2
          cases hp1.symm.trans hafter1
          cases hp2.symm.trans hafter2
          rw [hmove1, hmove2, Nat.add_sub_cancel, hbefore1, ok_bind, hbefore2, ok_bind]
          simp only [Prod.mk.injEq, and_comm, eq_comm (a := after2.position)]
          split <;> rfl

theorem pairs_map {α β : Type} (f : α → β) (l : List α) : pairs (l.map f) = (pairs l).map (Prod.map f f) := by
  induction l with
  | nil => rfl
  | cons a rest ih =>
    simp only [List.map_cons, pairs, ih, List.map_append, List.map_map]
    rfl

theorem pairs_range (paths : List Path) :
    pairs (List.range paths.length) = (pairs paths.zipIdx).map (Prod.map Prod.snd Prod.snd) := by
  rw [← pairs_map, List.zipIdx_map_snd, List.range_eq_range']

theorem conflictAt_eq {i j : Nat} (h1 : paths[i]? = some path1) (h2 : paths[j]? = some path2) (time : Nat) :
    conflictAt paths time (i, j) = .ok ((Conflict.kindAt path1 path2 time).map fun kind => ⟨i, j, kind⟩) := by
  rw [conflictAt, element_eq (a := path1) (by simpa using h1), ok_bind, element_eq (a := path2) (by simpa using h2),
    ok_bind, kindAt_eq]
  rfl

/-- The scan comes to the end strictly. -/
theorem detect_eq (paths : List Path) : detect paths = .ok (Conflict.detect paths) := by
  have hall : ∀ time, (pairs (List.range paths.length)).mapM (conflictAt paths time) =
      .ok ((pairs paths.zipIdx).map fun pair =>
        (Conflict.kindAt pair.1.1 pair.2.1 time).map fun kind => ⟨pair.1.2, pair.2.2, kind⟩) := by
    intro time
    rw [pairs_range, List.mapM_map]
    refine mapM_eq ?_
    rintro ⟨⟨path1, i⟩, path2, j⟩ hmem
    obtain ⟨-, h1, h2⟩ := mem_pairs_zipIdx.mp hmem
    exact conflictAt_eq h1 h2 time
  simp only [detect, hall, ok_bind, List.mapM_pure, pure_bind, List.filterMap_map, Conflict.detect, List.flatMap_def]
  rfl

end Strict

end Mapf.Conflict
