import Mapf.Storage
import Std.Data.HashMap

/-! # A priority queue with keys

A binary heap of entries, least first, with an index from keys to heap positions, so an entry can be
looked up, changed and removed by its key. Entries of equal priority leave in the order in which they
were inserted: every insertion takes the next sequence number, changing a payload keeps it, and
clearing the queue does not start the numbers again.

Moving an entry towards the root (`siftUp`) and then towards the leaves (`siftDown`) repairs the heap
after an entry was replaced by any other. -/

namespace Mapf

/-- Why a queue operation failed. -/
inductive QueueError where
  | empty
  | duplicateKey
  | missingKey
  deriving DecidableEq

def QueueError.message : QueueError → String
  | .empty => "priority queue is empty"
  | .duplicateKey => "key is already present in the priority queue"
  | .missingKey => "key is not present in the priority queue"

/-- Payloads that know their own priority; lower leaves the queue first. -/
class Prioritized (π : Type) (ρ : outParam Type) where
  priority : π → ρ

instance : Prioritized Nat Nat := ⟨id⟩

namespace Queue

/-- An entry of a queue; `seq` is the number of its insertion. -/
structure Entry (κ π : Type) where
  key : κ
  payload : π
  seq : Nat
  deriving DecidableEq

section Order

variable {κ π ρ : Type} [Prioritized π ρ] [LT ρ] [DecidableLT ρ]

/-- The strict order of leaving: by priority, equal priorities by insertion. -/
def Entry.precedes (a b : Entry κ π) : Bool :=
  decide (Prioritized.priority a.payload < Prioritized.priority b.payload) ||
    !decide (Prioritized.priority b.payload < Prioritized.priority a.payload) && decide (a.seq < b.seq)

end Order

end Queue

/-- A queue of payloads with distinct keys. -/
structure Queue (κ π : Type) [BEq κ] [Hashable κ] where
  heap : Array (Queue.Entry κ π)
  index : Std.HashMap κ Nat
  nextSeq : Nat

namespace Queue

variable {κ π ρ : Type} [BEq κ] [Hashable κ]

def empty : Queue κ π := ⟨#[], ∅, 0⟩

instance : EmptyCollection (Queue κ π) := ⟨empty⟩

/-- The queue without entries that has room for `capacity` of them, of `entryBytes` bytes each; `none`
    when so much cannot be stored. A queue grows beyond its room when it has to. -/
def withCapacity? (entryBytes capacity : Nat) : Option (Queue κ π) :=
  if Storage.fits entryBytes capacity then some empty else none

def size (q : Queue κ π) : Nat := q.heap.size

def isEmpty (q : Queue κ π) : Bool := q.heap.isEmpty

def contains (q : Queue κ π) (k : κ) : Bool := q.index.contains k

def get? (q : Queue κ π) (k : κ) : Option π := do
  let pos ← q.index[k]?
  let entry ← q.heap[pos]?
  return entry.payload

def peekMin (q : Queue κ π) : Except QueueError (κ × π) :=
  match q.heap[0]? with
  | some entry => .ok (entry.key, entry.payload)
  | none => .error .empty

/-- Removes every entry; later insertions still take fresh numbers. -/
def clear (q : Queue κ π) : Queue κ π := { q with heap := #[], index := ∅ }

/-- Exchanges the entries at two positions and records their new places. -/
def swap (q : Queue κ π) (i j : Nat) : Queue κ π :=
  if h : i < q.heap.size ∧ j < q.heap.size ∧ i ≠ j then
    { q with
      heap := q.heap.swap i j h.1 h.2.1
      index := (q.index.insert q.heap[j].key i).insert q.heap[i].key j }
  else q

@[simp] theorem size_heap_swap (q : Queue κ π) (i j : Nat) : (q.swap i j).heap.size = q.heap.size := by
  unfold swap
  split <;> simp

section Order

variable [Prioritized π ρ] [LT ρ] [DecidableLT ρ]

/-- Whether the entry at position `i` leaves before the one at position `j`; a position outside the
    heap never does. -/
def precedes (q : Queue κ π) (i j : Nat) : Bool :=
  match q.heap[i]?, q.heap[j]? with
  | some a, some b => a.precedes b
  | _, _ => false

theorem lt_size_of_precedes {q : Queue κ π} {i j : Nat} (h : q.precedes i j = true) :
    i < q.heap.size ∧ j < q.heap.size := by
  unfold precedes at h
  split at h
  case h_1 ha hb =>
    exact ⟨(Array.getElem?_eq_some_iff.mp ha).1, (Array.getElem?_eq_some_iff.mp hb).1⟩
  case h_2 => exact absurd h (by simp)

/-- Moves the entry at `pos` towards the root while it precedes its parent; also says where it ends. -/
def siftUp (q : Queue κ π) (pos : Nat) : Queue κ π × Nat :=
  if 0 < pos ∧ q.precedes pos ((pos - 1) / 2) then
    (q.swap pos ((pos - 1) / 2)).siftUp ((pos - 1) / 2)
  else (q, pos)
termination_by pos

/-- The position among `pos` and its two children whose entry leaves first. -/
def leastOf (q : Queue κ π) (pos : Nat) : Nat :=
  let left := 2 * pos + 1
  let right := 2 * pos + 2
  let least := if q.precedes left pos then left else pos
  if q.precedes right least then right else least

theorem leastOf_eq_or (q : Queue κ π) (pos : Nat) :
    q.leastOf pos = pos ∨ pos < q.leastOf pos ∧ q.leastOf pos < q.heap.size := by
  unfold leastOf
  dsimp only
  by_cases hl : q.precedes (2 * pos + 1) pos = true
  · rw [if_pos hl]
    split
    case isTrue hr => exact .inr ⟨by omega, (lt_size_of_precedes hr).1⟩
    case isFalse => exact .inr ⟨by omega, (lt_size_of_precedes hl).1⟩
  · rw [if_neg hl]
    split
    case isTrue hr => exact .inr ⟨by omega, (lt_size_of_precedes hr).1⟩
    case isFalse => exact .inl rfl

/-- Moves the entry at `pos` towards the leaves while a child precedes it. -/
def siftDown (q : Queue κ π) (pos : Nat) : Queue κ π :=
  if q.leastOf pos = pos then q
  else (q.swap pos (q.leastOf pos)).siftDown (q.leastOf pos)
termination_by q.heap.size - pos
decreasing_by
  have := (q.leastOf_eq_or pos).resolve_left ‹_›
  simp only [size_heap_swap]
  omega

/-- Restores the order around a position whose entry was replaced. -/
def repair (q : Queue κ π) (pos : Nat) : Queue κ π :=
  let (q, pos) := q.siftUp pos
  q.siftDown pos

def insert (q : Queue κ π) (k : κ) (payload : π) : Except QueueError (Queue κ π) :=
  if q.index.contains k then .error .duplicateKey
  else
    let pos := q.heap.size
    let q : Queue κ π :=
      { heap := q.heap.push ⟨k, payload, q.nextSeq⟩
        index := q.index.insert k pos
        nextSeq := q.nextSeq + 1 }
    .ok (q.siftUp pos).1

/-- Changes the payload of a key; the priority may go either way. -/
def update (q : Queue κ π) (k : κ) (f : π → π) : Except QueueError (Queue κ π) :=
  match q.index[k]? with
  | none => .error .missingKey
  | some pos =>
    let q : Queue κ π :=
      { q with heap := q.heap.modify pos fun entry => { entry with payload := f entry.payload } }
    .ok (q.repair pos)

/-- Takes out the entry at `pos`: the last entry fills its place and is then moved where it belongs. -/
def removeAt (q : Queue κ π) (pos : Nat) : Option (Entry κ π × Queue κ π) := do
  let q := q.swap pos (q.heap.size - 1)
  let entry ← q.heap.back?
  let q : Queue κ π := { q with heap := q.heap.pop, index := q.index.erase entry.key }
  return (entry, if pos < q.heap.size then q.repair pos else q)

def popMin (q : Queue κ π) : Except QueueError ((κ × π) × Queue κ π) :=
  match q.removeAt 0 with
  | some (entry, q) => .ok ((entry.key, entry.payload), q)
  | none => .error .empty

/-- Takes out the entry of key `k`; `none` when there is none. -/
def remove (q : Queue κ π) (k : κ) : Option (π × Queue κ π) := do
  let pos ← q.index[k]?
  let (entry, q) ← q.removeAt pos
  return (entry.payload, q)

end Order

end Queue

end Mapf
