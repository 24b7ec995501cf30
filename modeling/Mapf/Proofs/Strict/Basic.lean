import Mapf.Loop
import Mapf.Queue.Basic

/-! # Operations that take their places for granted

The operations of this library have an answer to everything: to a place outside a list, and to a failure of a part
that is sure to succeed. Their strict readings have none. A strict operation does the same by taking elements at
places (`Strict.element`) and results of parts (`Strict.expect`) for granted, and stops with a `Fault` where they are
not there. So no place is out of range and no failure is passed over exactly if the strict reading of an operation
comes to the end, with the same result as the operation. -/

namespace Mapf

/-- What stops a strict operation. -/
inductive Fault where
  /-- A place outside a list was used. -/
  | outOfRange (place size : Nat)
  /-- An operation failed whose result nobody looks at. -/
  | overlooked (error : QueueError)
  /-- Predecessors lead back to where they came from. -/
  | circular
  /-- A sum is no word. -/
  | overflow
  deriving DecidableEq

namespace Strict

variable {α β : Type}

/-- The element at a place. -/
def element (xs : Array α) (place : Nat) : Except Fault α :=
  match xs[place]? with
  | some a => .ok a
  | none => .error (.outOfRange place xs.size)

/-- The result of an operation that is taken to succeed. -/
def expect : Except QueueError α → Except Fault α
  | .ok a => .ok a
  | .error e => .error (.overlooked e)

theorem element_eq {xs : Array α} {place : Nat} {a : α} (h : xs[place]? = some a) : element xs place = .ok a := by
  rw [element, h]

theorem element_of_lt {xs : Array α} {place : Nat} (h : place < xs.size) : element xs place = .ok xs[place] :=
  element_eq (Array.getElem?_eq_getElem h)

theorem ok_bind (a : α) (f : α → Except Fault β) : (Except.ok a >>= f) = f a := rfl

/-- What is computed from the answer of a computation belongs to one that has an answer. -/
theorem ok_some_of_map {x : Except Fault (Option α)} {f : α → β} {b : β} (h : x.map (Option.map f) = .ok (some b)) :
    ∃ a, x = .ok (some a) ∧ f a = b := by
  rcases x with e | _ | a
  · cases h
  · cases h
  · exact ⟨a, rfl, Option.some.inj (Except.ok.inj h)⟩

theorem mapM_eq {f : α → Except Fault β} {g : α → β} {l : List α} (h : ∀ a ∈ l, f a = .ok (g a)) :
    l.mapM f = .ok (l.map g) := by
  induction l with
  | nil => rfl
  | cons a rest ih =>
    obtain ⟨ha, hrest⟩ := List.forall_mem_cons.mp h
    rw [List.mapM_cons, ha, ok_bind, ih hrest]
    rfl

/-! ### Rounds -/

/-- A computation has not come to an end in the rounds that it was allowed, or comes to the same as another one. -/
def Awaits (x y : Except Fault (Option α)) : Prop := x = .ok none ∨ x = y

namespace Awaits

variable {x y : Except Fault (Option α)}

theorem refl (x : Except Fault (Option α)) : Awaits x x := .inr rfl

theorem bind {f g : Option α → Except Fault (Option β)} (h : Awaits x y) (hnone : f none = .ok none)
    (hf : ∀ a, Awaits (f (some a)) (g (some a))) : Awaits (x >>= f) (y >>= g) := by
  rcases h with rfl | rfl
  · exact .inl hnone
  · rcases x with e | _ | a
    · exact .inr rfl
    · exact .inl hnone
    · exact hf a

/-- The first steps are the same. -/
theorem bind_left (x : Except Fault α) {f g : α → Except Fault (Option β)} (hf : ∀ a, Awaits (f a) (g a)) :
    Awaits (x >>= f) (x >>= g) := by
  cases x with
  | error e => exact .inr rfl
  | ok a => exact hf a

/-- The last steps are the same. -/
theorem bind_right (h : Awaits x y) {f : Option α → Except Fault (Option β)} (hnone : f none = .ok none) :
    Awaits (x >>= f) (y >>= f) := h.bind hnone fun a => refl (f (some a))

theorem ite {p : Prop} [Decidable p] {x' y' : Except Fault (Option α)} (h : Awaits x y) (h' : Awaits x' y') :
    Awaits (if p then x else x') (if p then y else y') := by
  split
  · exact h
  · exact h'

/-- An answer that came with some rounds is not lost with more. -/
theorem eq_some (h : Awaits x y) {a : α} (hx : x = .ok (some a)) : y = .ok (some a) := by
  rcases h with rfl | rfl
  · cases hx
  · exact hx

end Awaits

end Strict

namespace Loop.Strict

open Mapf.Strict

variable {σ ρ : Type}

/-- Repeats a strict round. -/
def run (round : σ → Except Fault (Option (Round σ ρ))) : (rounds : Nat) → (state : σ) → Except Fault (Option ρ)
  | 0, _ => return none
  | rounds + 1, state => do
    match ← round state with
    | none => return none
    | some (.done answer) => return some answer
    | some (.next state) => run round rounds state

/-- A loop never faults if no round does from a state that has what all rounds keep. -/
theorem run_eq {strict : σ → Except Fault (Option (Round σ ρ))} {round : σ → Option (Round σ ρ)} {I : σ → Prop}
    (agree : ∀ s, I s → strict s = .ok (round s)) (keep : ∀ s t, I s → round s = some (.next t) → I t) (n : Nat)
    {s : σ} (hs : I s) : run strict n s = .ok (Loop.run round n s) := by
  induction n generalizing s with
  | zero => rfl
  | succ n ih =>
    rw [run, agree s hs, Strict.ok_bind, Loop.run]
    cases hround : round s with
    | none => rfl
    | some r =>
      cases r with
      | done answer => rfl
      | next t => exact ih (keep s t hs hround)

/-- More rounds keep an answer. -/
theorem run_awaits {round round' : σ → Except Fault (Option (Round σ ρ))} (h : ∀ s, Awaits (round s) (round' s))
    {n m : Nat} (hnm : n ≤ m) (s : σ) : Awaits (run round n s) (run round' m s) := by
  induction n generalizing m s with
  | zero => exact .inl rfl
  | succ n ih =>
    obtain ⟨m, rfl⟩ : ∃ k, m = k + 1 := ⟨m - 1, by omega⟩
    refine (h s).bind rfl fun r => ?_
    cases r with
    | next t => exact ih (Nat.le_of_succ_le_succ hnm) t
    | done answer => exact .refl _

end Loop.Strict

end Mapf
