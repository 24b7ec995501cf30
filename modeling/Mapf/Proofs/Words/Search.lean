import Mapf.Proofs.Search.Settled
import Mapf.Proofs.Strict.Search

/-! # Searches in words

A best-first search adds the cost of a move to the cost of a state, and the estimate to the sum. As long as these sums
are words, it does not matter how a machine adds words: all states that the search comes through are those of the
search with numbers (`BestFirst.Strict.states_eq_of_inWords`), and what it reports is the same
(`BestFirst.Strict.search_eq_of_inWords`). So a search in words is sound, complete and optimal, and its parts are in
step.

All sums are words if the dearest way through all states and the largest estimate are one together
(`BestFirst.Strict.inWords_of_cheap`). -/

namespace Mapf

open Mapf.Strict

namespace BestFirst

variable {σ : Type} [BEq σ] [Hashable σ] {P : Problem σ} {prune : Pruning σ} {deadline : Deadline} {rounds : Nat}
  {sums : Sums} {report : SearchReport (Outcome σ)} {outcome : Outcome σ}

open Progress

/-- The state that is expanded next, unless time is up or it is a goal. -/
def Progress.expands? (P : Problem σ) (deadline : Deadline) (s : Progress σ) : Option σ :=
  match s.next? with
  | none => none
  | some (a, _) =>
    let k := s.counters.expanded
    if k % deadlineInterval = 0 ∧ deadline.expired k then none else if P.isGoal a then none else some a

namespace Strict

/-- The states of a search in front of its first rounds, which are all taken. -/
def states (sums : Sums) (rounds : Nat) (P : Problem σ) (prune : Pruning σ) (deadline : Deadline) :
    Except Fault (List (Progress σ)) := do
  match ← start P prune with
  | .done _ => return []
  | .next s =>
    Loop.Strict.states (fun s => return some (← round sums (fun a => .ok (P.successors a)) P prune deadline s)) rounds s

/-! ### The same as with numbers -/

theorem states_lags (sums : Sums) (rounds : Nat) (P : Problem σ) (prune : Pruning σ) (deadline : Deadline) :
    Lags (states .checked rounds P prune deadline) (states sums rounds P prune deadline) := by
  refine .bind_left _ fun first => ?_
  cases first with
  | done report => exact .refl _
  | next s =>
    exact Loop.Strict.states_lags
      (fun s => (round_lags sums (fun _ => .refl _) P prune deadline s).bind_right _) rounds s

theorem states_inWords (fits : InWords (search .checked rounds P prune deadline)) :
    InWords (states .checked rounds P prune deadline) := by
  refine fits.bind fun first hrest => ?_
  cases first with
  | done report => exact .of_ok rfl
  | next s => exact Loop.Strict.inWords_states hrest

variable [LawfulBEq σ]

theorem states_eq (rounds : Nat) (P : Problem σ) (prune : Pruning σ) (deadline : Deadline) :
    states .numbers rounds P prune deadline = .ok (BestFirst.states rounds P prune deadline) := by
  rw [states, start_eq, ok_bind, BestFirst.states]
  cases hstart : BestFirst.start P prune with
  | done report => rfl
  | next s =>
    refine Loop.Strict.states_eq (I := fun s => ∃ level, Searching P prune level (fun _ _ => False) s) ?_
      (fun s t ⟨_, hs⟩ hr => searching_round hs (Option.some.inj hr)) rounds (searching_of_start hstart)
    rintro s ⟨level, hs⟩
    rw [round_eq (fun _ => rfl) hs, ok_bind]
    rfl

theorem search_eq_of_inWords (fits : InWords (search .checked rounds P prune deadline)) (sums : Sums) :
    search sums rounds P prune deadline = .ok (BestFirst.search rounds P prune deadline) :=
  InWords.eq_ok (f := fun sums => search sums rounds P prune deadline) fits
    (fun sums => search_lags sums rounds P prune deadline) (search_eq rounds P prune deadline) sums

theorem states_eq_of_inWords (fits : InWords (search .checked rounds P prune deadline)) (sums : Sums) :
    states sums rounds P prune deadline = .ok (BestFirst.states rounds P prune deadline) :=
  InWords.eq_ok (f := fun sums => states sums rounds P prune deadline) (states_inWords fits)
    (fun sums => states_lags sums rounds P prune deadline) (states_eq rounds P prune deadline) sums

/-- A report in words is that of the search with numbers. -/
theorem search_of_inWords (fits : InWords (search .checked rounds P prune deadline))
    (h : search sums rounds P prune deadline = .ok (some report)) :
    BestFirst.search rounds P prune deadline = some report :=
  Except.ok.inj ((search_eq_of_inWords fits sums).symm.trans h)

end Strict

/-! ### Cheap problems -/

end BestFirst

/-- Finitely many states can be reached, and the dearest way through all of them and the largest estimate are a word
    together. -/
structure Problem.Cheap {σ : Type} (P : Problem σ) (prune : Pruning σ) (states : Finset σ) (dearest most : Nat) :
    Prop where
  reached : ∀ {a : σ} {l : List σ} {cost : Nat}, P.Trail prune (a :: l) cost → a ∈ states
  move : ∀ {a b : σ} {c : Nat}, a ∈ states → (b, c) ∈ P.successors a → c ≤ dearest
  estimate : ∀ {a : σ} {h : Nat}, P.heuristic a = some h → h ≤ most
  word : states.card * dearest + most < Word.count

namespace Problem

variable {σ : Type} {P : Problem σ} {prune : Pruning σ} {states : Finset σ} {dearest most : Nat}

/-- Of a state space of which all states are known, it is enough to look at all moves and estimates. -/
theorem Cheap.univ [Fintype σ] (move : ∀ a, ∀ m ∈ P.successors a, m.2 ≤ dearest)
    (estimate : ∀ a, ∀ h ∈ P.heuristic a, h ≤ most) (word : Fintype.card σ * dearest + most < Word.count) :
    P.Cheap prune Finset.univ dearest most where
  reached _ := Finset.mem_univ _
  move _ hm := move _ _ hm
  estimate hh := estimate _ _ hh
  word := word

theorem Cheap.of_trail (hP : P.Cheap prune states dearest most) {l : List σ} {cost : Nat} (ht : P.Trail prune l cost) :
    (∀ a ∈ l, a ∈ states) ∧ cost + dearest ≤ l.length * dearest := by
  induction ht with
  | root hp => exact ⟨by simpa using hP.reached (.root hp), by simp⟩
  | @step a b rest g c ht hlead ih =>
    obtain ⟨hmem, hcost⟩ := ih
    have hc : c ≤ dearest := hP.move (hmem a List.mem_cons_self) hlead.1
    refine ⟨List.forall_mem_cons.mpr ⟨hP.reached (ht.step hlead), hmem⟩, ?_⟩
    rw [List.length_cons, Nat.succ_mul]
    omega

end Problem

namespace BestFirst.Strict

variable {σ : Type} [BEq σ] [Hashable σ] {P : Problem σ} {prune : Pruning σ} {states : Finset σ}
  {dearest most level : Nat} {moves : σ → Except Fault (List (σ × Nat))} {s : Progress σ} {a : σ} {e : OpenEntry}
  {l : List (σ × Nat)} {deadline : Deadline}

open Progress

theorem visit_eq_numbers {m : σ × Nat} (hg : e.g + m.2 < Word.count)
    (hf : ∀ h, P.heuristic m.1 = some h → e.g + m.2 + h < Word.count) (sums : Sums) :
    visit sums P prune a e s m = visit .numbers P prune a e s m := by
  unfold visit
  dsimp only
  cases hh : P.heuristic m.1 with
  | none => rfl
  | some h =>
    have hsum : sums.add (e.g + m.2) h = .ok (e.g + m.2 + h) := sums.exact (hf h hh)
    simp only [sums.exact hg, ok_bind, hsum, Sums.numbers_add]

/-- A state that was met can be reached, at a cost that leaves room for one more move. -/
theorem reached_of_node (hP : P.Cheap prune states dearest most) (hs : Linked P prune s) {i : Nat}
    {n : SearchNode σ} (hn : s.arena.get? i = some n) :
    n.state ∈ states ∧ n.g + dearest ≤ states.card * dearest := by
  classical
  obtain ⟨rest, -, -, hnodup, htrail⟩ := hs.chain hn
  obtain ⟨hmem, hcost⟩ := hP.of_trail htrail
  have hlength : (n.state :: rest).length ≤ states.card := calc
    (n.state :: rest).length = (n.state :: rest).toFinset.card := (List.toFinset_card_of_nodup hnodup).symm
    _ ≤ states.card := Finset.card_le_card fun b hb => hmem b (List.mem_toFinset.mp hb)
  exact ⟨hmem _ List.mem_cons_self, Nat.le_trans hcost (Nat.mul_le_mul_right _ hlength)⟩

variable [LawfulBEq σ]

theorem visitAll_eq_of_cheap (hP : P.Cheap prune states dearest most) (hs : Opened P prune a e l s) (sums : Sums) :
    visitAll sums P prune a e s l = .ok (l.foldlM (BestFirst.visit P prune a e) s) := by
  induction l generalizing s with
  | nil => rfl
  | cons m l ih =>
    obtain ⟨h, parent, hn, -⟩ := hs.node
    obtain ⟨ha, hg⟩ : a ∈ states ∧ e.g + dearest ≤ states.card * dearest :=
      reached_of_node hP hs.searching.linked hn
    have hm : m.2 ≤ dearest := hP.move ha (hs.listed m List.mem_cons_self)
    have hword := hP.word
    have hvisit : visit sums P prune a e s m = .ok (BestFirst.visit P prune a e s m) := by
      rw [visit_eq_numbers (by omega) (fun k hk => ?_) sums, visit_eq hs.searching.linked]
      have := hP.estimate hk
      omega
    obtain ⟨t, ht, -, hs'⟩ := hs.visit
    rw [visitAll, hvisit, ok_bind, List.foldlM_cons, ht]
    exact ih hs'

/-- A search in a cheap problem comes to the same as with numbers. -/
theorem searchBy_eq_of_cheap (hP : P.Cheap prune states dearest most)
    (hmoves : ∀ a ∈ states, moves a = .ok (P.successors a)) (sums : Sums) (rounds : Nat) (deadline : Deadline) :
    searchBy sums moves rounds P prune deadline = .ok (BestFirst.search rounds P prune deadline) := by
  refine searchBy_eq_of_round (fun {s level} hs => round_eq_of_moves hs deadline fun {a e w} hpop hgoal => ?_) rounds
  obtain ⟨-, hget, -⟩ := hs.linked.valid.get?_popMin hpop
  obtain ⟨_, _, hn, -⟩ := hs.linked.entry hget
  exact ⟨hmoves a (reached_of_node hP hs.linked hn).1, visitAll_eq_of_cheap hP (hs.opened hpop hgoal) sums⟩

theorem inWords_of_cheap (hP : P.Cheap prune states dearest most) (rounds : Nat) (deadline : Deadline) :
    InWords (search .checked rounds P prune deadline) :=
  .of_ok (searchBy_eq_of_cheap hP (fun _ _ => rfl) .checked rounds deadline)

end BestFirst.Strict

namespace BestFirst

variable {σ : Type} [BEq σ] [Hashable σ] [LawfulBEq σ] {P : Problem σ} {prune : Pruning σ} {deadline : Deadline}
  {rounds : Nat} {sums : Sums} {report : SearchReport (Outcome σ)} {outcome : Outcome σ} {s : Progress σ} {level : Nat}

open Progress

/-! ### Soundness and optimality -/

/-- With a faithful estimate, a search in words that finds a goal reports the least cost of a way to a goal, however
    the machine adds. -/
theorem isLeast_cost_of_inWords (faithful : P.Faithful prune)
    (fits : InWords (Strict.search .checked rounds P prune deadline))
    (h : Strict.search sums rounds P prune deadline = .ok (some report)) (ok : report.result = .ok outcome) :
    IsLeast (P.goalCosts prune) outcome.cost :=
  isLeast_cost_of_search faithful (Strict.search_of_inWords fits h) ok

/-- A direct way to the goal, and another one with a move that costs as much as a word can tell. -/
def longWay : Problem Nat where
  initial := 0
  successors
    | 0 => [(1, 1), (3, 3)]
    | 1 => [(2, 18446744073709551615)]
    | 2 => [(3, 1)]
    | _ => []
  heuristic _ := some 0
  isGoal a := a = 3

/-- Out of words a machine stops, or takes the dear way for the cheap one. -/
example : Strict.search .checked 10 longWay (fun _ _ => false) .never = .error .overflow ∧
    (Strict.search .wrapping 10 longWay (fun _ _ => false) .never).map (Option.map SearchReport.result) =
      .ok (some (.ok ⟨[0, 1, 2, 3], 1⟩)) := by
  constructor <;> cbv

/-- A state space with a free step, two moves to the same state at different costs, and a dead end. -/
def fork : Problem (Fin 5) where
  initial := 0
  successors
    | 0 => [(1, 4), (2, 0), (1, 1), (4, 0)]
    | 1 => [(3, 1)]
    | 2 => [(1, 0), (3, 5)]
    | _ => []
  heuristic
    | 0 => some 2
    | 1 => some 1
    | 2 => some 2
    | 3 => some 0
    | 4 => none
  isGoal a := a = 3

/-- State 1 may be entered from any state but 2. -/
def forkPruning : Pruning (Fin 5) := fun candidate predecessor => candidate = 1 && predecessor = some 2

theorem faithful_fork : fork.Faithful forkPruning where
  consistent := by
    have h : ∀ a, ∀ m ∈ fork.successors a, forkPruning m.1 (some a) = false →
        ∀ h ∈ fork.heuristic a, ∀ k ∈ fork.heuristic m.1, h ≤ m.2 + k := by decide
    intro a b c k k' hl ha hb
    exact h a (b, c) hl.1 hl.2 k ha k' hb
  goal := by
    have h : ∀ a, fork.isGoal a = true → ∀ h ∈ fork.heuristic a, h = 0 := by decide
    intro a k hgoal ha
    exact h a hgoal k ha
  missing {a b} ha hr := by
    obtain rfl : a = 4 := by
      have h : ∀ a, fork.heuristic a = none → a = 4 := by decide
      exact h a ha
    -- No move leads out of the dead end.
    rcases hr.cases_head with rfl | ⟨c, ⟨_, hm, -⟩, -⟩
    · rfl
    · cases hm

theorem search_fork : (search 5 fork forkPruning .never).map SearchReport.result = some (.ok ⟨[0, 1, 3], 2⟩) := by
  cbv

theorem cheap_fork : fork.Cheap forkPruning Finset.univ 5 2 :=
  .univ (by decide) (by decide) (by decide)

/-- The free step does not pay, and the cheaper of the two moves does. -/
theorem isLeast_fork : InWords (Strict.search .checked 5 fork forkPruning .never) ∧
    IsLeast (fork.goalCosts forkPruning) 2 := by
  obtain ⟨report, h, ok⟩ := Option.map_eq_some_iff.mp search_fork
  have fits := Strict.inWords_of_cheap cheap_fork 5 .never
  have hwrapping := Strict.search_eq_of_inWords fits .wrapping
  rw [h] at hwrapping
  exact ⟨fits, isLeast_cost_of_inWords faithful_fork fits hwrapping ok⟩

/-- Whatever the estimates and the deadline are, a search in words that finds a goal reports a way to it and what that
    way costs. -/
theorem valid_outcome_of_inWords (fits : InWords (Strict.search .checked rounds P prune deadline))
    (h : Strict.search sums rounds P prune deadline = .ok (some report)) (ok : report.result = .ok outcome) :
    outcome.Valid P prune :=
  valid_outcome_of_search (Strict.search_of_inWords fits h) ok

theorem cheap_detour (prune : Pruning (Fin 6)) : detour.Cheap prune Finset.univ 5 9 :=
  .univ (by decide) (by decide) (by decide)

/-- The way that is found is not a cheapest one. -/
theorem valid_detour : InWords (Strict.search .checked 10 detour detourPruning ⟨fun k => 0 < k⟩) ∧
    Outcome.Valid ⟨[0, 2, 3, 4], 7⟩ detour detourPruning := by
  obtain ⟨report, h, ok⟩ := Option.map_eq_some_iff.mp search_detour
  have fits := Strict.inWords_of_cheap (cheap_detour detourPruning) 10 ⟨fun k => 0 < k⟩
  have hwrapping := Strict.search_eq_of_inWords fits .wrapping
  rw [h] at hwrapping
  exact ⟨fits, valid_outcome_of_inWords fits hwrapping ok⟩

/-! ### Completeness -/

/-- What is expanded can be told from the state in front of the round. -/
theorem expanded?_eq (hs : Searching P prune level (fun _ _ => False) s) :
    expanded? P prune deadline s = s.expands? P deadline := by
  unfold expanded? expands? next? BestFirst.round
  cases hpop : s.waiting.popMin with
  | error err => rfl
  | ok popped =>
    obtain ⟨⟨a, e⟩, w⟩ := popped
    dsimp only
    by_cases htime : s.counters.expanded % deadlineInterval = 0 ∧ deadline.expired s.counters.expanded = true
    case pos => rw [if_pos htime, if_pos htime]
    case neg =>
      rw [if_neg htime, if_neg htime]
      cases hgoal : P.isGoal a with
      | true =>
        simp only [↓reduceIte]
        cases s.arena.pathTo? e.node <;> rfl
      | false =>
        have hopened := hs.opened hpop hgoal
        rw [← List.append_nil (P.successors a)] at hopened
        obtain ⟨t, ht, -⟩ := Opened.run (I := fun _ _ => True) (fun _ _ _ => trivial) [] hopened trivial
        simp only [Bool.false_eq_true, ↓reduceIte, expand]
        dsimp only [count, close] at ht ⊢
        rw [ht]

theorem filterMap_states : (states rounds P prune deadline).filterMap (expands? P deadline) =
    expansions rounds P prune deadline := by
  have hsame : expansions rounds P prune deadline =
      (states rounds P prune deadline).filterMap (expanded? P prune deadline) := by
    unfold expansions states
    cases start P prune <;> rfl
  rw [hsame]
  refine List.filterMap_congr fun s hs => ?_
  obtain ⟨⟨_, hsearching⟩, -⟩ := searching_of_states s hs
  exact (expanded?_eq hsearching).symm

/-- Where finitely many states can be reached by moves that are not pruned, a search in words without a deadline ends
    and expands no state twice, as many as it counts. It reports that there is no path exactly if no goal can be reached
    through promising states, and finds a goal otherwise. -/
theorem search_decides_of_inWords (finite : {a | P.Reaches prune P.initial a}.Finite)
    (fits : ∀ rounds, InWords (Strict.search .checked rounds P prune .never)) (sums : Sums) :
    ∃ report, (∀ rounds, {a | P.Reaches prune P.initial a}.ncard < rounds →
        Strict.search sums rounds P prune .never = .ok (some report)) ∧
      (∀ rounds, ∃ all, Strict.states sums rounds P prune .never = .ok all ∧
        (all.filterMap (expands? P .never)).Nodup ∧
        ({a | P.Reaches prune P.initial a}.ncard < rounds →
          (all.filterMap (expands? P .never)).length = report.counters.expanded)) ∧
      (report.result = .error .noPathFound ↔ ¬∃ a, P.Attains prune a ∧ P.isGoal a = true) ∧
      ((∃ a, P.Attains prune a ∧ P.isGoal a = true) → ∃ outcome, report.result = .ok outcome) := by
  obtain ⟨report, hends, hnodup, hresult⟩ := search_decides finite
  refine ⟨report, fun rounds hr => ?_,
    fun rounds => ⟨_, Strict.states_eq_of_inWords (fits rounds) sums, ?_, fun hr => ?_⟩, hresult⟩
  · rw [Strict.search_eq_of_inWords (fits rounds) sums, (hends rounds hr).1]
  · rw [filterMap_states]
    exact hnodup rounds
  · rw [filterMap_states]
    exact (hends rounds hr).2

/-- The goal can be reached, but only through a state without an estimate. -/
theorem not_attains_gate : {a | detour.Reaches detourGate detour.initial a}.Finite ∧
    (∀ rounds, InWords (Strict.search .checked rounds detour detourGate .never)) ∧
    detour.Reaches detourGate detour.initial 4 ∧ ¬∃ a, detour.Attains detourGate a ∧ detour.isGoal a = true := by
  have hfin : {a | detour.Reaches detourGate detour.initial a}.Finite := Set.toFinite _
  have fits : ∀ rounds, InWords (Strict.search .checked rounds detour detourGate .never) :=
    fun rounds => Strict.inWords_of_cheap (cheap_detour detourGate) rounds .never
  obtain ⟨report, hends, -, hno, -⟩ := search_decides_of_inWords hfin fits .wrapping
  -- A run of 10 rounds gives the same report.
  obtain ⟨found, hfound, hresult⟩ := Option.map_eq_some_iff.mp search_gate
  have hreport := Strict.search_of_inWords (fits _)
    (hends _ (Nat.lt_of_lt_of_le (Nat.lt_succ_self _) (Nat.le_add_right _ 10)))
  cases hreport.symm.trans (search_mono (Nat.le_add_left 10 _) hfound)
  refine ⟨hfin, fits, ?_, hno.mp hresult⟩
  have leads : ∀ a b c, (b, c) ∈ detour.successors a → detourGate b (some a) = false →
      detour.Reaches detourGate a b := fun a b c hm hp => .single ⟨c, hm, hp⟩
  have h₂ := leads 0 2 4 (by decide) rfl
  have h₃ := leads 2 3 1 (by decide) rfl
  have h₅ := leads 3 5 0 (by decide) rfl
  have h₄ := leads 5 4 0 (by decide) rfl
  exact ((h₂.trans h₃).trans h₅).trans h₄

end BestFirst

end Mapf
