import Mapf.Loop

/-! # What a loop comes through

The states in front of the rounds of a loop, in their order. Each of them has whatever the first state has and
rounds keep, and holds only what the first state held or an earlier round made (`Loop.mem_of_mem_states`). What is
true of a state and of all that earlier rounds made is true in front of the last round (`Loop.exists_last_of_run`). What
a round brings about between the state in front of it and the next one, and later rounds keep, holds between any two of
them (`Loop.pairwise_states`).

Two loops that take alike rounds from alike states give alike answers, unless the first one is cut off before
(`Loop.run_until`). -/

namespace Mapf

/-- Rounds that lead to states, or to answers, of which the one is like the other. -/
inductive Round.Rel {σ ρ τ π : Type} (R : σ → τ → Prop) (A : ρ → π → Prop) : Round σ ρ → Round τ π → Prop
  | next {s : σ} {t : τ} : R s t → Rel R A (.next s) (.next t)
  | done {a : ρ} {b : π} : A a b → Rel R A (.done a) (.done b)

namespace Loop

variable {σ ρ : Type} {round : σ → Option (Round σ ρ)} {n : Nat} {s t : σ}

/-- The states in front of the first `rounds` rounds, or of all rounds if the loop ends before. -/
def states (round : σ → Option (Round σ ρ)) : (rounds : Nat) → (state : σ) → List σ
  | 0, _ => []
  | rounds + 1, state =>
    state :: match round state with
      | some (.next state) => states round rounds state
      | _ => []

theorem states_next (h : round s = some (.next t)) : states round (n + 1) s = s :: states round n t := by
  simp only [states, h]

theorem states_last (h : ∀ t, round s ≠ some (.next t)) : states round (n + 1) s = [s] := by
  unfold states
  split
  · exact absurd ‹_› (h _)
  · rfl

@[simp] theorem states_one : states round 1 s = [s] := by
  simp only [states]
  split <;> rfl

theorem forall_mem_states {I : σ → Prop} (keep : ∀ s t, I s → round s = some (.next t) → I t) (hs : I s) :
    ∀ t ∈ states round n s, I t := by
  induction n generalizing s with
  | zero => simp [states]
  | succ n ih =>
    by_cases hnext : ∃ t, round s = some (.next t)
    · obtain ⟨t, ht⟩ := hnext
      rw [states_next ht, List.forall_mem_cons]
      exact ⟨hs, ih (keep s t hs ht)⟩
    · rw [states_last (not_exists.mp hnext), List.forall_mem_cons]
      exact ⟨hs, by simp⟩

/-- What is true of a state and of all that the rounds before have made is true in front of the last round. -/
theorem exists_last_of_run {β : Type} {I : List β → σ → Prop} {made : σ → List β}
    (keep : ∀ all s t, I all s → round s = some (.next t) → I (all ++ made s) t) {all : List β} (hs : I all s) {r : ρ}
    (h : run round n s = some r) : ∃ before last, states round n s = before ++ [last] ∧
      I (all ++ before.flatMap made) last ∧ round last = some (.done r) := by
  induction n generalizing s all with
  | zero => simp at h
  | succ n ih =>
    unfold run at h
    split at h
    · cases h
    case h_2 hdone =>
      cases h
      refine ⟨[], s, states_last fun t hnext => ?_, by simpa using hs, hdone⟩
      cases hdone.symm.trans hnext
    case h_3 t hnext =>
      obtain ⟨before, last, hstates, hlast, hdone⟩ := ih (keep all s t hs hnext) h
      refine ⟨s :: before, last, by rw [states_next hnext, hstates, List.cons_append], ?_, hdone⟩
      rwa [List.flatMap_cons, ← List.append_assoc]

/-- What is held in front of a round was held at first, or an earlier round made it. -/
theorem mem_of_mem_states {β : Type} {I : σ → Prop} {held made : σ → List β}
    (keep : ∀ s t, I s → round s = some (.next t) → I t)
    (grow : ∀ s t, I s → round s = some (.next t) → ∀ x ∈ held t, x ∈ held s ∨ x ∈ made s) (hs : I s) :
    ∀ t ∈ states round n s, ∀ x ∈ held t, x ∈ held s ∨ x ∈ (states round n s).flatMap made := by
  induction n generalizing s with
  | zero => simp [states]
  | succ n ih =>
    by_cases hnext : ∃ t, round s = some (.next t)
    · obtain ⟨t, ht⟩ := hnext
      rw [states_next ht, List.forall_mem_cons, List.flatMap_cons]
      refine ⟨fun x hx => .inl hx, fun u hu x hx => ?_⟩
      rcases ih (keep s t hs ht) u hu x hx with hx | hx
      · exact (grow s t hs ht x hx).imp_right (List.mem_append_left _)
      · exact .inr (List.mem_append_right _ hx)
    · rw [states_last (not_exists.mp hnext), List.forall_mem_cons]
      exact ⟨fun x hx => .inl hx, by simp⟩

theorem pairwise_states {I : σ → Prop} {J : σ → σ → Prop} (keep : ∀ s t, I s → round s = some (.next t) → I t)
    (enter : ∀ s t, I s → round s = some (.next t) → J s t)
    (stay : ∀ s t u, I t → J s t → round t = some (.next u) → J s u) (hs : I s) :
    (states round n s).Pairwise J := by
  induction n generalizing s with
  | zero => simp [states]
  | succ n ih =>
    by_cases hnext : ∃ t, round s = some (.next t)
    · obtain ⟨t, ht⟩ := hnext
      have hall : ∀ u ∈ states round n t, I u ∧ J s u := forall_mem_states
        (fun u v hu hv => ⟨keep u v hu.1 hv, stay s u v hu.1 hu.2 hv⟩) ⟨keep s t hs ht, enter s t hs ht⟩
      rw [states_next ht, List.pairwise_cons]
      exact ⟨fun u hu => (hall u hu).2, ih (keep s t hs ht)⟩
    · rw [states_last (not_exists.mp hnext)]
      simp

/-- A loop is cut off with an answer of a certain kind, or another one that takes like rounds goes the same way. -/
theorem run_until {τ π : Type} {round' : τ → Option (Round τ π)} {R : σ → τ → Prop} {A : ρ → π → Prop} {C : ρ → Prop}
    (step : ∀ s t, R s t → (∃ a, round s = some (.done a) ∧ C a) ∨ Option.Rel (Round.Rel R A) (round s) (round' t))
    {t : τ} (h : R s t) : (∃ a, run round n s = some a ∧ C a) ∨ Option.Rel A (run round n s) (run round' n t) := by
  induction n generalizing s t with
  | zero => exact .inr .none
  | succ n ih =>
    rcases step s t h with ⟨a, ha, hc⟩ | hrel
    · exact .inl ⟨a, run_done ha n, hc⟩
    · unfold run
      revert hrel
      cases round s <;> cases round' t <;> intro hrel <;> cases hrel
      case none.none => exact .inr .none
      case some.some hr =>
        cases hr with
        | next h => exact ih h
        | done h => exact .inr (.some h)

end Loop

end Mapf
