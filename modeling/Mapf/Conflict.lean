import Mapf.Constraint.Basic

/-! # Conflicts between paths

Two agents conflict when they are at the same position at the same time, or when they exchange places
between two times. Agents stay at their last cell once their path has ended, and then conflict only by
being in the way of others. A conflict is resolved by restricting either agent. -/

namespace Mapf

/-- How two agents conflict. -/
inductive ConflictKind where
  /-- Both are at `position` at `timeStep`. -/
  | vertex (position : Position) (timeStep : Nat)
  /-- The first moves from `source` to `target`, the second back, both arriving at `timeStep`. -/
  | edge (source target : Position) (timeStep : Nat)
  deriving DecidableEq

/-- A conflict of two agents, given by their places in the list of agents. -/
structure Conflict where
  agent1 : Nat
  agent2 : Nat
  kind : ConflictKind
  deriving DecidableEq

namespace Conflict

def timeStep (c : Conflict) : Nat :=
  match c.kind with
  | .vertex _ timeStep => timeStep
  | .edge _ _ timeStep => timeStep

/-- One restriction per agent; paths without conflicts keep at least one of them. -/
def constraints (c : Conflict) : Constraint × Constraint :=
  match c.kind with
  | .vertex position timeStep => (.vertex c.agent1 position timeStep, .vertex c.agent2 position timeStep)
  | .edge source target timeStep =>
    (.edge c.agent1 source target timeStep, .edge c.agent2 target source timeStep)

def kindAt (path1 path2 : Path) (time : Nat) : Option ConflictKind :=
  match path1.positionAt time, path2.positionAt time with
  | some p1, some p2 =>
    if p1 = p2 then some (.vertex p1 time)
    else
      match path1.moveAt time, path2.moveAt time with
      | some (source, target), some move =>
        if move = (target, source) then some (.edge source target time) else none
      | _, _ => none
  | _, _ => none

/-- Every pair of elements of a list, the earlier one first, ordered by the earlier one, then by the
    later one. -/
def pairs {α : Type} : List α → List (α × α)
  | [] => []
  | a :: rest => rest.map (a, ·) ++ pairs rest

def longest (paths : List Path) : Nat := (paths.map List.length).foldl max 0

/-- All conflicts between paths, by time, then by the pair of agents. -/
def detect (paths : List Path) : List Conflict :=
  (List.range (longest paths)).flatMap fun time =>
    (pairs paths.zipIdx).filterMap fun pair =>
      (kindAt pair.1.1 pair.2.1 time).map fun kind => ⟨pair.1.2, pair.2.2, kind⟩

def first? (paths : List Path) : Option Conflict := (detect paths).head?

def count (paths : List Path) : Nat := (detect paths).length

end Conflict

end Mapf
