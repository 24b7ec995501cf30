import Mapf.Proofs.Loops
import Mapf.Proofs.Strict.Basic

/-! # Sums of words

The operations of this library add times and costs as numbers. A machine adds words, and where a sum is no word it
stops, or goes on with a part of it. So strict operations are told how to add (`Sums`), and all that is known of it is
that a sum that is a word comes out right.

With `Sums.checked` an operation stops at the first sum that is no word, and up to there it takes the same course as
with any other way of adding: it lags behind (`Lags`). This is a matter of the text of the operation alone, so each of
them has one lemma about it that asks for nothing. If no sum fails to be a word (`InWords`), an operation comes to the
same for all ways of adding, and so to what it comes to with numbers (`InWords.eq_ok`). -/

namespace Mapf

/-- How many words there are. -/
def Word.count : Nat := 18446744073709551616

/-- A way of adding words. -/
structure Sums where
  add : Nat → Nat → Except Fault Nat
  exact : ∀ {a b : Nat}, a + b < Word.count → add a b = .ok (a + b)

namespace Sums

/-- Sums are numbers, however large. -/
def numbers : Sums where
  add a b := .ok (a + b)
  exact _ := rfl

/-- Sums that are no words are faults. -/
def checked : Sums where
  add a b := if a + b < Word.count then .ok (a + b) else .error .overflow
  exact h := if_pos h

/-- Sums lose what exceeds a word. -/
def wrapping : Sums where
  add a b := .ok ((a + b) % Word.count)
  exact h := congrArg Except.ok (Nat.mod_eq_of_lt h)

@[simp] theorem numbers_add (a b : Nat) : numbers.add a b = .ok (a + b) := rfl

end Sums

namespace Strict

variable {α β γ : Type} {sums : Sums}

/-- A computation stops because of a sum, or comes to the same as another one. -/
def Lags (x y : Except Fault α) : Prop := x = .error .overflow ∨ x = y

/-- All sums of a computation are words: it is not because of a sum that it stops where sums are checked. -/
def InWords (x : Except Fault α) : Prop := x ≠ .error .overflow

theorem InWords.of_ok {x : Except Fault α} {a : α} (h : x = .ok a) : InWords x := by
  rw [h]
  exact nofun

/-- What comes before the end of a computation in words is in words. -/
theorem InWords.of_bind {x : Except Fault α} {f : α → Except Fault β} (h : InWords (x >>= f)) : InWords x := by
  rintro rfl
  exact h rfl

theorem InWords.of_bind_ok {x : Except Fault α} {f : α → Except Fault β} (h : InWords (x >>= f)) {a : α}
    (ha : x = .ok a) : InWords (f a) := by
  rwa [ha] at h

/-- A computation in words stays one with another end that is in words where the end was. -/
theorem InWords.bind {x : Except Fault α} {f : α → Except Fault β} {g : α → Except Fault γ} (h : InWords (x >>= f))
    (hg : ∀ a, InWords (f a) → InWords (g a)) : InWords (x >>= g) := by
  cases x with
  | error e => exact fun he => h (congrArg Except.error (Except.error.inj he))
  | ok a => exact hg a h

theorem InWords.bind_ok {x : Except Fault α} (h : InWords x) (f : α → β) : InWords (x >>= fun a => .ok (f a)) := by
  have hsame : x >>= pure = x := bind_pure x
  rw [← hsame] at h
  exact h.bind fun a _ => .of_ok rfl

/-! ### Lagging behind -/

namespace Lags

variable {x x' : Except Fault α} {y y' : Except Fault α} {f g : α → Except Fault β}

theorem refl (x : Except Fault α) : Lags x x := .inr rfl

theorem add (sums : Sums) (a b : Nat) : Lags (Sums.checked.add a b) (sums.add a b) := by
  by_cases h : a + b < Word.count
  · exact .inr ((Sums.checked.exact h).trans (sums.exact h).symm)
  · exact .inl (if_neg h)

theorem bind (h : Lags x x') (hf : ∀ a, Lags (f a) (g a)) : Lags (x >>= f) (x' >>= g) := by
  rcases h with rfl | rfl
  · exact .inl rfl
  · cases x with
    | error e => exact .inr rfl
    | ok a => exact hf a

/-- The first steps are the same. -/
theorem bind_left (x : Except Fault α) (hf : ∀ a, Lags (f a) (g a)) : Lags (x >>= f) (x >>= g) := (refl x).bind hf

/-- The last steps are the same. -/
theorem bind_right (h : Lags x x') (f : α → Except Fault β) : Lags (x >>= f) (x' >>= f) := h.bind fun a => refl (f a)

theorem ite {p : Prop} [Decidable p] (h : Lags x x') (h' : Lags y y') :
    Lags (if p then x else y) (if p then x' else y') := by
  split
  · exact h
  · exact h'

theorem foldlM {f g : β → α → Except Fault β} (h : ∀ b a, Lags (f b a) (g b a)) (l : List α) (b : β) :
    Lags (l.foldlM f b) (l.foldlM g b) := by
  induction l generalizing b with
  | nil => exact refl _
  | cons a rest ih => exact (h b a).bind ih

/-- Where nothing stops because of a sum, nothing lags behind. -/
theorem eq (h : Lags x x') (fits : InWords x) : x = x' := h.resolve_left fits

end Lags

/-- An operation all of whose sums are words comes to the same with any way of adding. -/
theorem InWords.eq_ok {f : Sums → Except Fault α} (fits : InWords (f .checked))
    (lags : ∀ sums, Lags (f .checked) (f sums)) {a : α} (exact : f .numbers = .ok a) (sums : Sums) :
    f sums = .ok a := calc
  f sums = f .checked := ((lags sums).eq fits).symm
  _ = f .numbers := (lags .numbers).eq fits
  _ = .ok a := exact

/-- If more rounds keep answers, a computation that has come to one in words is in words for any number of rounds. -/
theorem InWords.of_awaits {x : Nat → Except Fault (Option α)} (more : ∀ {n m}, n ≤ m → Awaits (x n) (x m)) {n : Nat}
    {a : α} (h : x n = .ok (some a)) (m : Nat) : InWords (x m) := by
  rcases Nat.le_total n m with hnm | hmn
  · exact .of_ok ((more hnm).eq_some h)
  · rcases more hmn with hnone | hsame
    · exact .of_ok hnone
    · exact .of_ok (hsame.trans h)

end Strict

/-! ### Loops -/

namespace Loop.Strict

open Mapf.Strict

variable {σ ρ : Type} {round round' : σ → Except Fault (Option (Round σ ρ))}

/-- The states in front of the first `rounds` rounds, or of all rounds if the loop ends before; all these rounds are
    taken. -/
def states (round : σ → Except Fault (Option (Round σ ρ))) : (rounds : Nat) → (state : σ) → Except Fault (List σ)
  | 0, _ => return []
  | rounds + 1, state => do
    match ← round state with
    | some (.next t) => return state :: (← states round rounds t)
    | _ => return [state]

theorem states_eq {core : σ → Option (Round σ ρ)} {I : σ → Prop} (agree : ∀ s, I s → round s = .ok (core s))
    (keep : ∀ s t, I s → core s = some (.next t) → I t) (n : Nat) {s : σ} (hs : I s) :
    states round n s = .ok (Loop.states core n s) := by
  induction n generalizing s with
  | zero => rfl
  | succ n ih =>
    rw [states, agree s hs, ok_bind, Loop.states]
    cases hround : core s with
    | none => rfl
    | some r =>
      cases r with
      | done answer => rfl
      | next t =>
        dsimp only
        rw [ih (keep s t hs hround)]
        rfl

theorem run_lags (h : ∀ s, Lags (round s) (round' s)) (n : Nat) (s : σ) : Lags (run round n s) (run round' n s) := by
  induction n generalizing s with
  | zero => exact .refl _
  | succ n ih =>
    refine (h s).bind fun r => ?_
    cases r with
    | none => exact .refl _
    | some r =>
      cases r with
      | done answer => exact .refl _
      | next t => exact ih t

/-- All rounds in front of which there are states are taken. -/
theorem round_ok_of_states {n : Nat} {s : σ} {all : List σ} (h : states round n s = .ok all) :
    ∀ t ∈ all, ∃ r, round t = .ok r := by
  induction n generalizing s all with
  | zero =>
    cases h
    simp
  | succ n ih =>
    unfold states at h
    cases hround : round s with
    | error e =>
      rw [hround] at h
      cases h
    | ok o =>
      have hlast : ∀ t ∈ [s], ∃ r, round t = .ok r := by simp [hround]
      rw [hround, ok_bind] at h
      rcases o with _ | t | answer
      · cases h
        exact hlast
      · dsimp only at h
        cases hrest : states round n t with
        | error e =>
          rw [hrest] at h
          cases h
        | ok rest =>
          rw [hrest] at h
          cases h
          exact List.forall_mem_cons.mpr ⟨⟨_, hround⟩, ih hrest⟩
      · cases h
        exact hlast

theorem states_lags (h : ∀ s, Lags (round s) (round' s)) (n : Nat) (s : σ) :
    Lags (states round n s) (states round' n s) := by
  induction n generalizing s with
  | zero => exact .refl _
  | succ n ih =>
    refine (h s).bind fun r => ?_
    cases r with
    | none => exact .refl _
    | some r =>
      cases r with
      | done answer => exact .refl _
      | next t => exact (ih t).bind_right _

/-- The states of a loop in words are there. -/
theorem inWords_states {n : Nat} {s : σ} (h : InWords (run round n s)) : InWords (states round n s) := by
  induction n generalizing s with
  | zero => exact .of_ok rfl
  | succ n ih =>
    refine h.bind fun r hrest => ?_
    rcases r with _ | t | answer
    · exact .of_ok rfl
    · exact (ih hrest).bind_ok _
    · exact .of_ok rfl

end Loop.Strict

end Mapf
