import Mapf.Proofs.Search.Complete

/-! # One move after the other

A round that goes on closes the most promising state and looks at the moves out of it, one after the other. In between
the search is as sound as between two rounds, but for the moves that were not looked at yet (`Opened`). What a look at
one move brings about builds up over all of them (`Opened.run`). -/

namespace Mapf.BestFirst

variable {σ : Type} [BEq σ] [Hashable σ] {P : Problem σ} {prune : Pruning σ} {deadline : Deadline}

/-- The states of a search in front of its first rounds. -/
def states (rounds : Nat) (P : Problem σ) (prune : Pruning σ) (deadline : Deadline) : List (Progress σ) :=
  match start P prune with
  | .done _ => []
  | .next s => Loop.states (fun s => some (round P prune deadline s)) rounds s

/-- A search does not start where the initial state is pruned or has no estimate. -/
theorem start_inv [LawfulBEq σ] (P : Problem σ) (prune : Pruning σ) :
    prune P.initial none = true ∧
        start P prune = .done ⟨.error .noPathFound, Counters.zero.recordGeneration.recordPruned⟩ ∨
      prune P.initial none = false ∧ (P.heuristic P.initial = none ∧
          start P prune = .done ⟨.error .noPathFound, Counters.zero.recordGeneration⟩ ∨
        ∃ h s, P.heuristic P.initial = some h ∧ start P prune = .next s ∧
          (⟨.empty, .empty, ∅, Counters.zero.recordGeneration.recordEvaluation⟩ : Progress σ).enqueue P.initial 0 h
            none = .ok s) := by
  unfold start
  cases hp : prune P.initial none with
  | true => exact .inl ⟨rfl, rfl⟩
  | false =>
    refine .inr ⟨rfl, ?_⟩
    cases hh : P.heuristic P.initial with
    | none => exact .inl ⟨rfl, rfl⟩
    | some h =>
      obtain ⟨s, hs, -⟩ := searching_enqueue hp hh Counters.zero.recordGeneration.recordEvaluation
      refine .inr ⟨h, s, rfl, ?_, hs⟩
      simp only [Progress.count, hs, Bool.false_eq_true, ↓reduceIte]

namespace Progress

/-- The search with `a` closed and counted, and `waiting` left to wait. -/
def close (s : Progress σ) (a : σ) (waiting : Queue σ OpenEntry) : Progress σ :=
  { s with waiting := waiting, closed := s.closed.insert a, counters := s.counters.recordExpansion }

/-- A search on its way through the moves out of `a`, whose entry was `e`; the `pending` ones were not looked at yet. -/
structure Opened (P : Problem σ) (prune : Pruning σ) (a : σ) (e : OpenEntry) (pending : List (σ × Nat))
    (s : Progress σ) : Prop where
  searching : Searching P prune e.f (fun b m => b = a ∧ m ∈ pending) s
  mem : a ∈ s.closed
  node : ∃ h parent, s.arena.get? e.node = some ⟨a, e.g, h, parent⟩ ∧ e.f = e.g + h
  listed : ∀ m ∈ pending, m ∈ P.successors a

variable [LawfulBEq σ] {s t : Progress σ} {level : Nat} {a : σ} {e : OpenEntry} {w : Queue σ OpenEntry}
  {m : σ × Nat} {moves rest : List (σ × Nat)}

/-- Closing the most promising state opens all moves out of it. -/
theorem Searching.opened (hs : Searching P prune level (fun _ _ => False) s)
    (hpop : s.waiting.popMin = .ok ((a, e), w)) (hgoal : P.isGoal a = false) :
    Opened P prune a e (P.successors a) (s.close a w) := by
  obtain ⟨-, hget, -⟩ := hs.linked.valid.get?_popMin hpop
  obtain ⟨h, parent, hn, hf⟩ := hs.linked.entry hget
  exact ⟨hs.close hpop hgoal rfl rfl rfl, (mem_closed rfl).mpr (.inl rfl), ⟨h, parent, hn, hf⟩, fun m hm => hm⟩

/-- No look at a move fails, and none closes a state. -/
theorem Opened.visit (hs : Opened P prune a e (m :: rest) s) :
    ∃ t, BestFirst.visit P prune a e s m = .ok t ∧ t.closed = s.closed ∧ Opened P prune a e rest t := by
  obtain ⟨hsearching, ha, ⟨h, parent, hn, hf⟩, hlisted⟩ := hs
  obtain ⟨hm, hrest⟩ := List.forall_mem_cons.mp hlisted
  obtain ⟨t, ht, hclosed, hn', ht'⟩ := hsearching.visit ha hn hf hm
  exact ⟨t, ht, hclosed, ht', hclosed ▸ ha, ⟨h, parent, hn', hf⟩, hrest⟩

/-- What holds of the moves that were looked at, and grows with each of them, holds after some more. -/
theorem Opened.run {I : List (σ × Nat) → Progress σ → Prop}
    (keep : ∀ {seen : List (σ × Nat)} {m : σ × Nat} {rest : List (σ × Nat)} {s t : Progress σ},
      Opened P prune a e (m :: rest) s → BestFirst.visit P prune a e s m = .ok t → I seen s → I (seen ++ [m]) t)
    (seen : List (σ × Nat)) (hs : Opened P prune a e (moves ++ rest) s) (hi : I seen s) :
    ∃ t, moves.foldlM (BestFirst.visit P prune a e) s = .ok t ∧ t.closed = s.closed ∧ Opened P prune a e rest t ∧
      I (seen ++ moves) t := by
  induction moves generalizing s seen with
  | nil => exact ⟨s, rfl, rfl, hs, by rwa [List.append_nil]⟩
  | cons m moves ih =>
    obtain ⟨t, ht, hclosed, ht'⟩ := hs.visit
    obtain ⟨u, hu, hclosed', hu', hi'⟩ := ih (seen ++ [m]) ht' (keep hs ht hi)
    rw [List.append_assoc, List.singleton_append] at hi'
    refine ⟨u, ?_, hclosed'.trans hclosed, hu', hi'⟩
    rw [List.foldlM_cons, ht]
    exact hu

/-- What builds up over the moves that are looked at has built up when all of them were. -/
theorem Opened.all {I : List (σ × Nat) → Progress σ → Prop}
    (keep : ∀ {seen : List (σ × Nat)} {m : σ × Nat} {rest : List (σ × Nat)} {s t : Progress σ},
      Opened P prune a e (m :: rest) s → BestFirst.visit P prune a e s m = .ok t → I seen s → I (seen ++ [m]) t)
    (hs : Opened P prune a e moves s) (hall : moves.foldlM (BestFirst.visit P prune a e) s = .ok t) (hi : I [] s) :
    I moves t := by
  rw [← List.append_nil moves] at hs
  obtain ⟨u, hu, -, -, hi'⟩ := Opened.run keep [] hs hi
  cases hu.symm.trans hall
  exact hi'

/-- A round that goes on opens a state and looks at all moves out of it. -/
theorem opened_of_round (hs : Searching P prune level (fun _ _ => False) s) (h : round P prune deadline s = .next t) :
    ∃ a e w, s.waiting.popMin = .ok ((a, e), w) ∧ expanded? P prune deadline s = some a ∧
      Opened P prune a e (P.successors a) (s.close a w) ∧
      (P.successors a).foldlM (BestFirst.visit P prune a e) (s.close a w) = .ok t := by
  obtain ⟨a, e, w, hpop, ha, -⟩ := expanded_of_round h
  unfold BestFirst.round at h
  rw [hpop] at h
  dsimp only at h
  split at h
  · cases h
  split at h
  · split at h <;> cases h
  case isFalse hgoal =>
    rw [Bool.not_eq_true] at hgoal
    refine ⟨a, e, w, hpop, ha, hs.opened hpop hgoal, ?_⟩
    unfold expand at h
    dsimp only at h
    split at h
    case h_1 hall =>
      cases h
      exact hall
    case h_2 => cases h

end Progress

end Mapf.BestFirst
