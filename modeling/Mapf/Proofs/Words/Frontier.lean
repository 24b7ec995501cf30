import Mapf.Proofs.Words.Search

/-! # The queue of a search in words

What leaves the queue of a search in words is settled, and between any two of its moves the parts of the search are in
step. Whatever its sums are, a search takes its rounds one after the other, and the moves out of a state one after the
other: so if it has come to the end of a round, all sums up to there are words
(`BestFirst.Strict.visitAll_inWords_of_round`). -/

namespace Mapf.BestFirst

open Mapf.Strict

variable {σ : Type} [BEq σ] [Hashable σ] {P : Problem σ} {prune : Pruning σ} {deadline : Deadline} {rounds : Nat}
  {sums : Sums} {s : Progress σ} {a : σ} {e : OpenEntry} {w : Queue σ OpenEntry}

open Progress

namespace Strict

theorem visitAll_append (sums : Sums) (P : Problem σ) (prune : Pruning σ) (a : σ) (e : OpenEntry) (s : Progress σ)
    (l l' : List (σ × Nat)) : visitAll sums P prune a e s (l ++ l') =
      (visitAll sums P prune a e s l >>= fun r => match r with
        | .error err => .ok (.error err)
        | .ok t => visitAll sums P prune a e t l') := by
  induction l generalizing s with
  | nil => rfl
  | cons m l ih =>
    rw [List.cons_append, visitAll, visitAll, bind_assoc]
    refine congrArg _ (funext fun r => ?_)
    cases r with
    | error err => rfl
    | ok t => exact ih t

/-- If a round is in words, so is the look at the moves out of the state that it expands. -/
theorem visitAll_inWords_of_round
    (h : InWords (round .checked (fun a => .ok (P.successors a)) P prune deadline s))
    (hexp : s.expands? P deadline = some a) : ∃ e w, s.waiting.popMin = .ok ((a, e), w) ∧
      ∀ seen rest, P.successors a = seen ++ rest → InWords (visitAll .checked P prune a e (s.close a w) seen) := by
  unfold expands? next? at hexp
  cases hpop : s.waiting.popMin with
  | error err =>
    rw [hpop] at hexp
    cases hexp
  | ok popped =>
    obtain ⟨⟨b, e⟩, w⟩ := popped
    rw [hpop] at hexp
    dsimp only at hexp
    split at hexp
    · cases hexp
    case isFalse htime =>
      split at hexp
      · cases hexp
      case isFalse hgoal =>
        cases hexp
        refine ⟨e, w, rfl, fun seen rest hmoves => ?_⟩
        rw [round, Queue.Strict.popMin_eq, ok_bind, hpop] at h
        dsimp only at h
        rw [if_neg htime, if_neg hgoal, expand, ok_bind, hmoves, visitAll_append] at h
        exact h.of_bind.of_bind

theorem round_ok_of_mem_states {all : List (Progress σ)} (h : states sums rounds P prune deadline = .ok all) :
    ∀ s ∈ all, ∃ r, round sums (fun a => .ok (P.successors a)) P prune deadline s = .ok r := by
  intro s hs
  unfold states at h
  rw [start_eq, ok_bind] at h
  cases hstart : BestFirst.start P prune with
  | done report =>
    rw [hstart] at h
    cases h
    cases hs
  | next t =>
    rw [hstart] at h
    obtain ⟨r, hr⟩ := Loop.Strict.round_ok_of_states h s hs
    cases hround : round sums (fun a => .ok (P.successors a)) P prune deadline s with
    | error err =>
      rw [hround] at hr
      cases hr
    | ok r => exact ⟨r, rfl⟩

end Strict

variable [LawfulBEq σ]

/-- Whenever a search in words looks at its queue, its parts are in step, and so they are when it has looked at some of
    the moves out of the state that it expands. -/
theorem inStep_of_inWords (fits : InWords (Strict.search .checked rounds P prune deadline)) (sums : Sums) :
    ∃ all, Strict.states sums rounds P prune deadline = .ok all ∧ ∀ s ∈ all, InStep P prune s ∧
      ∀ a, s.expands? P deadline = some a → ∃ e w, s.waiting.popMin = .ok ((a, e), w) ∧
        ∀ seen rest, P.successors a = seen ++ rest →
          ∃ t, Strict.visitAll sums P prune a e (s.close a w) seen = .ok (.ok t) ∧ InStep P prune t := by
  refine ⟨_, Strict.states_eq_of_inWords fits sums, fun s hs => ?_⟩
  obtain ⟨hinstep, hlook⟩ := inStep_of_states hs
  refine ⟨hinstep, fun a ha => ?_⟩
  obtain ⟨r, hr⟩ := Strict.round_ok_of_mem_states (Strict.states_eq_of_inWords fits .checked) s hs
  obtain ⟨e, w, hpop, hwords⟩ := Strict.visitAll_inWords_of_round (.of_ok hr) ha
  obtain ⟨⟨level, hs⟩, -⟩ := searching_of_states s hs
  rw [← expanded?_eq hs] at ha
  obtain ⟨e', w', hpop', hlook⟩ := hlook a ha
  obtain ⟨_, _, _, -, hround⟩ := round_of_expanded ha
  obtain ⟨_, _, _, hpop'', -, hopened, -⟩ := opened_of_round hs hround
  cases hpop.symm.trans hpop'
  cases hpop.symm.trans hpop''
  refine ⟨e, w, hpop, fun seen rest hmoves => ?_⟩
  obtain ⟨t, ht, hinstep'⟩ := hlook seen rest hmoves
  rw [hmoves] at hopened
  refine ⟨t, ?_, hinstep'⟩
  rw [← ht]
  exact InWords.eq_ok (f := fun sums => Strict.visitAll sums P prune a e (s.close a w) seen) (hwords seen rest hmoves)
    (fun sums => Strict.visitAll_lags sums P prune a e _ seen) (Strict.visitAll_eq hopened) sums

/-- The way into state 1 through state 2, which is met after it, is the cheaper one. -/
def roundabout : Problem (Fin 3) where
  initial := 0
  successors
    | 0 => [(1, 5), (2, 1)]
    | 2 => [(1, 1)]
    | _ => []
  heuristic _ := some 0
  isGoal a := a = 1

theorem parents_roundabout : (states 4 roundabout .none .never).map
    (fun s => (s.arena.get? 1).bind SearchNode.parent) = [none, some 0, some 2] := by
  cbv

theorem cheap_roundabout : roundabout.Cheap .none Finset.univ 5 0 :=
  .univ (by decide) (by decide) (by decide)

/-- A node whose predecessor has the larger number is in step like all others. -/
theorem inStep_roundabout : InWords (Strict.search .checked 4 roundabout .none .never) ∧
    ∃ all, Strict.states .wrapping 4 roundabout .none .never = .ok all ∧
      ∃ s ∈ all, ∃ n, s.arena.get? 1 = some n ∧ n.parent = some 2 ∧ InStep roundabout .none s := by
  have fits := Strict.inWords_of_cheap cheap_roundabout 4 .never
  have hmem : some 2 ∈ (states 4 roundabout .none .never).map fun s => (s.arena.get? 1).bind SearchNode.parent := by
    rw [parents_roundabout]
    decide
  obtain ⟨all, hall, hinstep⟩ := inStep_of_inWords fits .wrapping
  cases (Strict.states_eq_of_inWords fits .wrapping).symm.trans hall
  obtain ⟨s, hs, hparent⟩ := List.mem_map.mp hmem
  obtain ⟨n, hn, hp⟩ := Option.bind_eq_some_iff.mp hparent
  exact ⟨fits, _, hall, s, hs, n, hn, hp, (hinstep s hs).1⟩

/-- With a consistent estimate, the estimated costs of the states that leave the queue of a search in words never
    decrease, and each of them leaves it at the least cost of all promising trails to it. Whatever is closed keeps its
    least cost as long as the search goes on, so no move into a closed state that is passed over would have been a
    cheaper way. -/
theorem popped_settled_of_inWords (consistent : P.Consistent prune)
    (fits : InWords (Strict.search .checked rounds P prune deadline)) (sums : Sums) :
    ∃ all, Strict.states sums rounds P prune deadline = .ok all ∧
      ((all.filterMap next?).map fun x => x.2.f).Pairwise (· ≤ ·) ∧
      (∀ a e, (a, e) ∈ all.filterMap next? → IsLeast (P.promisingCosts prune a) e.g) ∧
      ∀ s ∈ all, ∀ a ∈ s.closed, ∃ g, s.Knows a g ∧ IsLeast (P.promisingCosts prune a) g :=
  ⟨_, Strict.states_eq_of_inWords fits sums, popped_settled consistent⟩

/-- A cheaper way into state 1 turns up while it waits, free steps lead to state 3 and to a dead end, a still cheaper
    way leads through state 5, which has no estimate, and the move straight to the goal is not allowed. -/
def junction : Problem (Fin 7) where
  initial := 0
  successors
    | 0 => [(1, 3), (2, 1), (5, 0), (6, 0), (4, 0)]
    | 1 => [(4, 2), (2, 0)]
    | 2 => [(1, 1), (3, 0)]
    | 3 => [(1, 2)]
    | 5 => [(1, 0)]
    | _ => []
  heuristic
    | 1 => some 2
    | 4 => some 0
    | 5 => none
    | _ => some 3
  isGoal a := a = 4

/-- State 4 may be entered from any state but 0. -/
def junctionPruning : Pruning (Fin 7) := fun candidate predecessor => candidate = 4 && predecessor = some 0

theorem consistent_junction : junction.Consistent junctionPruning := by
  have h : ∀ a, ∀ m ∈ junction.successors a, junctionPruning m.1 (some a) = false →
      ∀ h ∈ junction.heuristic a, ∀ k ∈ junction.heuristic m.1, h ≤ m.2 + k := by decide
  intro a b c k k' hl ha hb
  exact h a (b, c) hl.1 hl.2 k ha k' hb

theorem cheap_junction : junction.Cheap junctionPruning Finset.univ 3 3 :=
  .univ (by decide) (by decide) (by decide)

/-- Of the states 1 and 3, which promise the same, the one that is farther on leaves the queue. -/
theorem popped_junction : popped 5 junction junctionPruning .never =
    [(0, ⟨0, 0, 3⟩), (6, ⟨3, 0, 3⟩), (2, ⟨2, 1, 4⟩), (1, ⟨1, 2, 4⟩), (4, ⟨5, 4, 4⟩)] := by
  cbv

/-- State 1 leaves the queue at the cost of the way that turned up last. -/
theorem settled_junction : junction.Consistent junctionPruning ∧
    InWords (Strict.search .checked 5 junction junctionPruning .never) ∧
    (∃ all, Strict.states .wrapping 5 junction junctionPruning .never = .ok all ∧
      (1, ⟨1, 2, 4⟩) ∈ all.filterMap next?) ∧ IsLeast (junction.promisingCosts junctionPruning 1) 2 := by
  have fits := Strict.inWords_of_cheap cheap_junction 5 .never
  have hmem : (1, ⟨1, 2, 4⟩) ∈ popped 5 junction junctionPruning .never := by
    rw [popped_junction]
    decide
  obtain ⟨all, hall, -, hleast, -⟩ := popped_settled_of_inWords consistent_junction fits .wrapping
  cases (Strict.states_eq_of_inWords fits .wrapping).symm.trans hall
  exact ⟨consistent_junction, fits, ⟨_, hall, hmem⟩, hleast 1 _ hmem⟩

end Mapf.BestFirst
