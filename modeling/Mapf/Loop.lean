/-! # Loops run for a bounded number of rounds

Every search of this library is a step function: one round takes a state either to the next state or
to a final answer. `Loop.run` repeats a round at most a given number of times and says `none` when
the loop has not ended by then, so a loop that never ends is the one for which every number of
rounds gives `none`. A round may itself run an inner loop, hence the `Option` around its result.

Main statements: an answer does not depend on how many rounds were allowed (`Loop.run_mono`), it is
given by a round from a state that has every property that rounds keep (`Loop.run_invariant`), and a
loop whose rounds decrease a measure gives one (`Loop.run_ends`). -/

namespace Mapf

/-- What one round of a loop leads to: a state to go on from, or the final answer. -/
inductive Round (σ ρ : Type) where
  | next (state : σ)
  | done (answer : ρ)

namespace Loop

variable {σ ρ : Type}

/-- Repeats `round` from `state` for at most `rounds` rounds; `none` when no answer came by then. -/
def run (round : σ → Option (Round σ ρ)) : (rounds : Nat) → (state : σ) → Option ρ
  | 0, _ => none
  | rounds + 1, state =>
    match round state with
    | none => none
    | some (.done answer) => some answer
    | some (.next state) => run round rounds state

@[simp] theorem run_zero (round : σ → Option (Round σ ρ)) (s : σ) : run round 0 s = none := rfl

theorem run_done {round : σ → Option (Round σ ρ)} {s : σ} {r : ρ} (h : round s = some (.done r)) (n : Nat) :
    run round (n + 1) s = some r := by
  simp [run, h]

theorem run_next {round : σ → Option (Round σ ρ)} {s t : σ} (h : round s = some (.next t)) (n : Nat) :
    run round (n + 1) s = run round n t := by
  simp [run, h]

/-- More rounds keep an answer. -/
theorem run_mono {round : σ → Option (Round σ ρ)} {n m : Nat} (hnm : n ≤ m) {s : σ} {r : ρ}
    (h : run round n s = some r) : run round m s = some r := by
  induction n generalizing m s with
  | zero => simp at h
  | succ n ih =>
    obtain ⟨m, rfl⟩ : ∃ k, m = k + 1 := ⟨m - 1, by omega⟩
    unfold run at h ⊢
    split at h
    · exact absurd h (by simp)
    · exact h
    · exact ih (by omega) h

/-- What holds at the start and is kept by every round holds where the answer is given. -/
theorem run_invariant {round : σ → Option (Round σ ρ)} {I : σ → Prop}
    (keep : ∀ s t, I s → round s = some (.next t) → I t) {n : Nat} {s : σ} {r : ρ} (hs : I s)
    (h : run round n s = some r) : ∃ t, I t ∧ round t = some (.done r) := by
  induction n generalizing s with
  | zero => simp at h
  | succ n ih =>
    unfold run at h
    split at h
    · exact absurd h (by simp)
    case h_2 hr => exact ⟨s, hs, Option.some.inj h ▸ hr⟩
    case h_3 t hr => exact ih (keep s t hs hr) h

/-- A loop ends if every round ends it or decreases a measure. -/
theorem run_ends {round : σ → Option (Round σ ρ)} {I : σ → Prop} (measure : σ → Nat)
    (step : ∀ s, I s → (∃ r, round s = some (.done r)) ∨
      ∃ t, round s = some (.next t) ∧ I t ∧ measure t < measure s)
    {n : Nat} {s : σ} (hs : I s) (hn : measure s < n) : ∃ r, run round n s = some r := by
  induction n generalizing s with
  | zero => omega
  | succ n ih =>
    rcases step s hs with ⟨r, hr⟩ | ⟨t, ht, hinv, hlt⟩
    · exact ⟨r, run_done hr n⟩
    · rw [run_next ht]
      exact ih hinv (by omega)

end Loop

end Mapf
