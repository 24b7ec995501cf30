import Mapf.Proofs.Queue.Reference
import Mapf.Proofs.Strict.Basic

/-! # Places in a heap

Whatever is asked of a queue from the start on, every place at which its heap is read or changed is one of an entry
(`Strict.serve_eq`). Moving an entry stays within the heap by itself; that the index of keys leads into the heap is
what the commands before have seen to. -/

namespace Mapf.Queue.Strict

open Mapf.Strict

section Operations

variable {κ π ρ : Type} [BEq κ] [Hashable κ]

/-- The payload of a key, at the place that the index gives. -/
def get? (q : Queue κ π) (k : κ) : Except Fault (Option π) :=
  match q.index[k]? with
  | none => return none
  | some pos => return some (← element q.heap pos).payload

/-- Exchanges the entries at two places. -/
def swap (q : Queue κ π) (i j : Nat) : Except Fault (Queue κ π) := do
  if i = j then return q
  let _ ← element q.heap i
  let _ ← element q.heap j
  return q.swap i j

variable [Prioritized π ρ] [LT ρ] [DecidableLT ρ]

def precedes (q : Queue κ π) (i j : Nat) : Except Fault Bool :=
  return (← element q.heap i).precedes (← element q.heap j)

def siftUp (q : Queue κ π) (pos : Nat) : Except Fault (Queue κ π × Nat) := do
  if 0 < pos then
    if ← precedes q pos ((pos - 1) / 2) then
      siftUp (← swap q pos ((pos - 1) / 2)) ((pos - 1) / 2)
    else return (q, pos)
  else return (q, pos)
termination_by pos

/-- Of two places the one whose entry leaves first; the first place counts only below `len`. -/
def lesser (len : Nat) (q : Queue κ π) (child pos : Nat) : Except Fault Nat := do
  if child < len then
    if ← precedes q child pos then return child else return pos
  else return pos

def leastOf (len : Nat) (q : Queue κ π) (pos : Nat) : Except Fault Nat := do
  lesser len q (2 * pos + 2) (← lesser len q (2 * pos + 1) pos)

theorem lesser_cases {len : Nat} {q : Queue κ π} {child pos m : Nat} (h : lesser len q child pos = .ok m) :
    m = pos ∨ m = child ∧ child < len := by
  unfold lesser at h
  split at h
  case isFalse =>
    cases h
    exact .inl rfl
  case isTrue hlt =>
    cases hprec : precedes q child pos with
    | error e =>
      rw [hprec] at h
      cases h
    | ok first =>
      rw [hprec] at h
      cases first <;> cases h
      · exact .inl rfl
      · exact .inr ⟨rfl, hlt⟩

theorem leastOf_cases {len : Nat} {q : Queue κ π} {pos m : Nat} (h : leastOf len q pos = .ok m) :
    m = pos ∨ pos < m ∧ m < len := by
  unfold leastOf at h
  cases hleft : lesser len q (2 * pos + 1) pos with
  | error e =>
    rw [hleft] at h
    cases h
  | ok left =>
    rw [hleft] at h
    have h₁ := lesser_cases hleft
    have h₂ := lesser_cases h
    omega

/-- Moves the entry at `pos` towards the leaves of a heap of `len` entries. -/
def siftDown (len : Nat) (q : Queue κ π) (pos : Nat) : Except Fault (Queue κ π) :=
  match _hleast : leastOf len q pos with
  | .error e => .error e
  | .ok least =>
    if least = pos then return q
    else do siftDown len (← swap q pos least) least
termination_by len - pos
decreasing_by
  have := leastOf_cases _hleast
  omega

def repair (q : Queue κ π) (pos : Nat) : Except Fault (Queue κ π) := do
  let (q, pos) ← siftUp q pos
  siftDown q.heap.size q pos

def insert (q : Queue κ π) (k : κ) (payload : π) : Except Fault (Except QueueError (Queue κ π)) := do
  if q.index.contains k then return .error .duplicateKey
  let pos := q.heap.size
  let q : Queue κ π :=
    { heap := q.heap.push ⟨k, payload, q.nextSeq⟩
      index := q.index.insert k pos
      nextSeq := q.nextSeq + 1 }
  return .ok (← siftUp q pos).1

def update (q : Queue κ π) (k : κ) (f : π → π) : Except Fault (Except QueueError (Queue κ π)) :=
  match q.index[k]? with
  | none => return .error .missingKey
  | some pos => do
    let _ ← element q.heap pos
    let q : Queue κ π :=
      { q with heap := q.heap.modify pos fun entry => { entry with payload := f entry.payload } }
    return .ok (← repair q pos)

/-- Takes out the entry at `pos` of a heap that is not empty. -/
def removeAt (q : Queue κ π) (pos : Nat) : Except Fault (Entry κ π × Queue κ π) := do
  let _ ← element q.heap (q.heap.size - 1)
  let q ← swap q pos (q.heap.size - 1)
  let entry ← element q.heap (q.heap.size - 1)
  let q : Queue κ π := { q with heap := q.heap.pop, index := q.index.erase entry.key }
  if pos < q.heap.size then return (entry, ← repair q pos) else return (entry, q)

def popMin (q : Queue κ π) : Except Fault (Except QueueError ((κ × π) × Queue κ π)) := do
  if q.heap.isEmpty then return .error .empty
  let (entry, q) ← removeAt q 0
  return .ok ((entry.key, entry.payload), q)

def remove (q : Queue κ π) (k : κ) : Except Fault (Option (π × Queue κ π)) :=
  match q.index[k]? with
  | none => return none
  | some pos => do
    let (entry, q) ← removeAt q pos
    return some (entry.payload, q)

/-- What can be asked of a queue, done strictly. -/
def respond (q : Queue κ π) : Command κ π → Except Fault (Reply κ π × Queue κ π)
  | .insert k p => do
    match ← insert q k p with
    | .ok q => return (.done (.ok ()), q)
    | .error e => return (.done (.error e), q)
  | .update k f => do
    match ← update q k f with
    | .ok q => return (.done (.ok ()), q)
    | .error e => return (.done (.error e), q)
  | .remove k => do
    match ← remove q k with
    | some (p, q) => return (.payload (some p), q)
    | none => return (.payload none, q)
  | .popMin => do
    match ← popMin q with
    | .ok (first, q) => return (.entry (.ok first), q)
    | .error e => return (.entry (.error e), q)
  | .peekMin => return (.entry q.peekMin, q)
  | .get k => return (.payload (← get? q k), q)
  | .contains k => return (.present (q.contains k), q)
  | .size => return (.size q.size, q)
  | .clear => return (.done (.ok ()), q.clear)

def serve (q : Queue κ π) : List (Command κ π) → Except Fault (List (Reply κ π) × Queue κ π)
  | [] => return ([], q)
  | command :: rest => do
    let (reply, q) ← respond q command
    let (replies, q) ← serve q rest
    return (reply :: replies, q)

end Operations

section Places

variable {κ π ρ : Type} [BEq κ] [Hashable κ] {q : Queue κ π} {i j pos : Nat} {k : κ} {p : π}

theorem swap_eq (hi : i < q.heap.size) (hj : j < q.heap.size) : swap q i j = .ok (q.swap i j) := by
  unfold swap
  split
  case isTrue heq =>
    subst heq
    rw [Queue.swap, dif_neg (by simp)]
    rfl
  case isFalse =>
    rw [element_of_lt hi, element_of_lt hj]
    rfl

theorem get?_eq (hq : q.Indexed) (k : κ) : get? q k = .ok (q.get? k) := by
  unfold get? Queue.get?
  cases hk : q.index[k]? with
  | none => rfl
  | some pos =>
    obtain ⟨e, he, -⟩ := Option.map_eq_some_iff.mp ((hq k pos).mp hk)
    simp only [element_eq he, Option.bind_eq_bind, Option.bind_some, he]
    rfl

/-- An index that leads out of the heap does not go unnoticed. -/
example : get? (⟨#[], (∅ : Std.HashMap Nat Nat).insert 7 0, 0⟩ : Queue Nat Nat) 7 = .error (.outOfRange 0 0) := by
  cbv

variable [Prioritized π ρ] [LT ρ] [DecidableLT ρ]

theorem precedes_eq (hi : i < q.heap.size) (hj : j < q.heap.size) : precedes q i j = .ok (q.precedes i j) := by
  rw [precedes, element_of_lt hi, element_of_lt hj, Queue.precedes, Array.getElem?_eq_getElem hi,
    Array.getElem?_eq_getElem hj]
  rfl

/-- Parents stand in front of their children. -/
theorem siftUp_eq (hpos : pos < q.heap.size) : siftUp q pos = .ok (q.siftUp pos) := by
  fun_induction Queue.siftUp q pos with
  | case1 q pos h ih =>
    have hpar : (pos - 1) / 2 < q.heap.size := by omega
    rw [siftUp, if_pos h.1, precedes_eq hpos hpar, h.2, ok_bind, if_pos rfl, swap_eq hpos hpar, ok_bind]
    exact ih (by simpa using hpar)
  | case2 q pos h =>
    rw [siftUp]
    split
    case isFalse => rfl
    case isTrue h0 =>
      have hpar : (pos - 1) / 2 < q.heap.size := by omega
      have hnot : q.precedes pos ((pos - 1) / 2) = false := Bool.eq_false_iff.mpr fun hp => h ⟨h0, hp⟩
      rw [precedes_eq hpos hpar, hnot]
      rfl

theorem lesser_eq (hpos : pos < q.heap.size) (child : Nat) :
    lesser q.heap.size q child pos = .ok (if q.precedes child pos then child else pos) := by
  unfold lesser
  split
  case isTrue hlt =>
    rw [precedes_eq hlt hpos, ok_bind]
    split <;> rfl
  case isFalse hge =>
    rw [precedes_of_size_le (Nat.le_of_not_lt hge)]
    rfl

theorem leastOf_eq (hpos : pos < q.heap.size) : leastOf q.heap.size q pos = .ok (q.leastOf pos) := by
  rw [leastOf, lesser_eq hpos, ok_bind, Queue.leastOf]
  refine lesser_eq ?_ _
  split
  case isTrue h => exact (lt_size_of_precedes h).1
  case isFalse => exact hpos

theorem siftDown_eq (hpos : pos < q.heap.size) : siftDown q.heap.size q pos = .ok (q.siftDown pos) := by
  fun_induction Queue.siftDown q pos with
  | case1 q pos h =>
    rw [siftDown]
    split
    case h_1 e he => cases he.symm.trans (leastOf_eq hpos)
    case h_2 least hleast =>
      cases hleast.symm.trans (leastOf_eq hpos)
      rw [if_pos h]
      rfl
  | case2 q pos h ih =>
    have hsize : q.leastOf pos < q.heap.size := ((q.leastOf_eq_or pos).resolve_left h).2
    rw [siftDown]
    split
    case h_1 e he => cases he.symm.trans (leastOf_eq hpos)
    case h_2 least hleast =>
      cases hleast.symm.trans (leastOf_eq hpos)
      rw [if_neg h, swap_eq hpos hsize, ok_bind]
      rw [size_heap_swap] at ih
      exact ih hsize

theorem repair_eq (hpos : pos < q.heap.size) : repair q pos = .ok (q.repair pos) := by
  rw [repair, siftUp_eq hpos, ok_bind]
  exact siftDown_eq (siftUp_lt_size hpos)

theorem insert_eq (q : Queue κ π) (k : κ) (p : π) : insert q k p = .ok (q.insert k p) := by
  unfold insert Queue.insert
  split
  case isTrue => rfl
  case isFalse =>
    have hpos : q.heap.size < (q.heap.push ⟨k, p, q.nextSeq⟩).size := by simp
    dsimp only
    rw [siftUp_eq hpos]
    rfl

theorem update_eq (hq : q.Indexed) (k : κ) (f : π → π) : update q k f = .ok (q.update k f) := by
  unfold update Queue.update
  cases hk : q.index[k]? with
  | none => rfl
  | some pos =>
    obtain ⟨e, he, -⟩ := Option.map_eq_some_iff.mp ((hq k pos).mp hk)
    have hpos : pos < q.heap.size := (Array.getElem?_eq_some_iff.mp he).1
    dsimp only
    rw [element_eq he, ok_bind, repair_eq (by simpa using hpos)]
    rfl

theorem removeAt_eq (hpos : pos < q.heap.size) : ∃ r, q.removeAt pos = some r ∧ removeAt q pos = .ok r := by
  have hlast : q.heap.size - 1 < q.heap.size := by omega
  have hswap : (q.swap pos (q.heap.size - 1)).heap.size = q.heap.size := size_heap_swap q pos _
  have hlast' : (q.swap pos (q.heap.size - 1)).heap.size - 1 < (q.swap pos (q.heap.size - 1)).heap.size := by omega
  rw [Queue.removeAt, Array.back?_eq_getElem?, Array.getElem?_eq_getElem hlast']
  rw [removeAt, element_of_lt hlast, ok_bind, swap_eq hpos hlast, ok_bind, element_of_lt hlast', ok_bind]
  refine ⟨_, rfl, ?_⟩
  dsimp only
  split
  case isTrue hlt =>
    rw [repair_eq hlt]
    rfl
  case isFalse => rfl

theorem popMin_eq (q : Queue κ π) : popMin q = .ok q.popMin := by
  rw [popMin, Queue.popMin]
  cases hempty : q.heap.isEmpty with
  | true =>
    have hnil : q.heap = #[] := Array.isEmpty_iff.mp hempty
    simp [Queue.removeAt, Queue.swap, hnil, pure, Except.pure]
  | false =>
    have hpos : 0 < q.heap.size := by
      rw [Array.isEmpty_eq_false_iff] at hempty
      exact Array.size_pos_iff.mpr hempty
    obtain ⟨r, hr, hstrict⟩ := removeAt_eq hpos
    rw [hr, hstrict]
    rfl

theorem remove_eq (hq : q.Indexed) (k : κ) : remove q k = .ok (q.remove k) := by
  unfold remove Queue.remove
  cases hk : q.index[k]? with
  | none => rfl
  | some pos =>
    obtain ⟨e, he, -⟩ := Option.map_eq_some_iff.mp ((hq k pos).mp hk)
    obtain ⟨r, hr, hstrict⟩ := removeAt_eq (Array.getElem?_eq_some_iff.mp he).1
    simp only [hr, hstrict, Option.bind_eq_bind, Option.bind_some]
    rfl

end Places

/-! ### Any history -/

section History

variable {κ π ρ : Type} [DecidableEq κ] [Hashable κ] [Prioritized π ρ] [LT ρ] [DecidableLT ρ] {q : Queue κ π}

theorem respond_eq (hq : q.Indexed) (command : Command κ π) : respond q command = .ok (q.respond command) := by
  cases command with
  | insert k p =>
    rw [respond, insert_eq, ok_bind, Queue.respond]
    cases q.insert k p <;> rfl
  | update k f =>
    rw [respond, update_eq hq, ok_bind, Queue.respond]
    cases q.update k f <;> rfl
  | remove k =>
    rw [respond, remove_eq hq, ok_bind, Queue.respond]
    cases q.remove k <;> rfl
  | popMin =>
    rw [respond, popMin_eq, ok_bind, Queue.respond]
    cases q.popMin <;> rfl
  | peekMin => rfl
  | get k =>
    rw [respond, get?_eq hq, ok_bind, Queue.respond]
    rfl
  | contains k => rfl
  | size => rfl
  | clear => rfl

variable [DecidableEq ρ] [IsStrictTotalOrder ρ (· < ·)]

/-- By induction on the commands: the queue stays in step with its reference, so the index stays right. -/
theorem serve_eq {l : Ledger κ π} (h : Refines q l) (commands : List (Command κ π)) :
    serve q commands = .ok (Queue.serve Queue.respond q commands) := by
  induction commands generalizing q l with
  | nil => rfl
  | cons command rest ih =>
    rw [serve, respond_eq h.valid.indexed, ok_bind]
    dsimp only
    rw [ih (h.respond command).2]
    rfl

end History

end Mapf.Queue.Strict
