/-! # Positions, timed cells and paths

A position is a row `x` and a column `y`; a cell is a position at a time. A path is indexed by time:
its cell number `t` is where the agent is at time `t`, and once a path has ended the agent stays at
its last cell forever (`positionAt`). -/

namespace Mapf

/-- A place: row `x`, column `y`. -/
structure Position where
  x : Nat
  y : Nat
  deriving DecidableEq, Hashable, Inhabited

namespace Position

/-- Positions are compared by row, then by column. -/
instance : Ord Position := ⟨compareLex (compareOn Position.x) (compareOn Position.y)⟩

instance : Std.TransOrd Position :=
  inferInstanceAs (Std.TransCmp (compareLex (compareOn Position.x) (compareOn Position.y)))

theorem compare_eq_lt_iff {p q : Position} :
    compare p q = .lt ↔ p.x < q.x ∨ p.x = q.x ∧ p.y < q.y := by
  show compareLex (compareOn Position.x) (compareOn Position.y) p q = .lt ↔ _
  rw [compareLex, Ordering.then_eq_lt]
  simp [compareOn, Nat.compare_eq_lt]

instance : Std.LawfulEqOrd Position where
  eq_of_compare {p q} h := by
    change compareLex (compareOn Position.x) (compareOn Position.y) p q = .eq at h
    rw [compareLex, Ordering.then_eq_eq] at h
    simp only [compareOn, Nat.compare_eq_eq] at h
    cases p; cases q; simp_all

instance : LT Position := ⟨fun p q => p.x < q.x ∨ p.x = q.x ∧ p.y < q.y⟩

instance : LE Position := ⟨fun p q => p.x < q.x ∨ p.x = q.x ∧ p.y ≤ q.y⟩

instance : DecidableLT Position := fun p q =>
  inferInstanceAs (Decidable (p.x < q.x ∨ p.x = q.x ∧ p.y < q.y))

instance : DecidableLE Position := fun p q =>
  inferInstanceAs (Decidable (p.x < q.x ∨ p.x = q.x ∧ p.y ≤ q.y))

theorem lt_iff {p q : Position} : p < q ↔ p.x < q.x ∨ p.x = q.x ∧ p.y < q.y := Iff.rfl

theorem le_iff {p q : Position} : p ≤ q ↔ p.x < q.x ∨ p.x = q.x ∧ p.y ≤ q.y := Iff.rfl

/-- The text of a position in messages: `(x, y)`. -/
def text (p : Position) : String := s!"({p.x}, {p.y})"

end Position

/-- A position at a discrete time. -/
structure Cell where
  time : Nat
  x : Nat
  y : Nat
  deriving DecidableEq, Hashable, Inhabited

namespace Cell

def position (c : Cell) : Position := ⟨c.x, c.y⟩

end Cell

def Position.atTime (p : Position) (time : Nat) : Cell := ⟨time, p.x, p.y⟩

@[simp] theorem Position.position_atTime (p : Position) (time : Nat) : (p.atTime time).position = p := rfl

@[simp] theorem Position.time_atTime (p : Position) (time : Nat) : (p.atTime time).time = time := rfl

@[simp] theorem Cell.atTime_position (c : Cell) : c.position.atTime c.time = c := rfl

/-- Cells indexed by time. -/
abbrev Path := List Cell

namespace Path

/-- Where an agent with this path is at `time`: at its last cell once the path has ended. -/
def positionAt (path : Path) (time : Nat) : Option Position :=
  (path[time]?.or path.getLast?).map Cell.position

/-- The move with which a path arrives at `time`: none at the start and after its end. -/
def moveAt (path : Path) : (time : Nat) → Option (Position × Position)
  | 0 => none
  | time + 1 =>
    match path[time]?, path[time + 1]? with
    | some before, some after => some (before.position, after.position)
    | _, _ => none

/-- The path through `positions` that is at the `i`-th of them at time `i`. -/
def ofPositions (positions : List Position) : Path :=
  positions.mapIdx fun time position => position.atTime time

def steps (path : Path) : List (Cell × Cell) :=
  path.zip path.tail

end Path

end Mapf
