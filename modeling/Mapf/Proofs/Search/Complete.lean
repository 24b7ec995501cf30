import Mapf.Proofs.Loops
import Mapf.Proofs.Search.Optimal
import Mathlib

/-! # Searches with any estimate

Nothing is promised about the estimates here. What a search finds is still a way to a goal, and its cost is that
of the moves along it (`valid_outcome_of_search`). Where moves that are not pruned lead to finitely many states,
every search without a deadline ends, no state is expanded twice, and a goal is found exactly if one can be
reached through promising states (`search_decides`). -/

namespace Mapf

variable {σ : Type} {P : Problem σ} {prune : Pruning σ}

/-- A way from the initial state to a goal that is never pruned and meets no state twice; the cost is the sum
    of one listed cost for each of its steps. -/
structure Outcome.Valid (outcome : Outcome σ) (P : Problem σ) (prune : Pruning σ) : Prop where
  start : outcome.path.head? = some P.initial
  admitted : prune P.initial none = false
  goal : ∃ a, outcome.path.getLast? = some a ∧ P.isGoal a = true
  distinct : outcome.path.Nodup
  steps : ∃ costs, List.Forall₂ (fun step cost => P.Leads prune step.1 step.2 cost)
    (outcome.path.zip outcome.path.tail) costs ∧ costs.sum = outcome.cost

namespace Problem

/-- `a` can be reached from the initial state through promising states by moves that are not pruned. -/
inductive Attains (P : Problem σ) (prune : Pruning σ) : σ → Prop
  | initial : prune P.initial none = false → (P.heuristic P.initial).isSome → Attains P prune P.initial
  | step {a b : σ} {c : Nat} : Attains P prune a → P.Leads prune a b c → (P.heuristic b).isSome →
      Attains P prune b

theorem attains_iff {a : σ} :
    P.Attains prune a ↔ ∃ rest cost, P.Trail prune (a :: rest) cost ∧ P.Promising (a :: rest) := by
  constructor
  · intro h
    induction h with
    | initial hp hh => exact ⟨[], 0, .root hp, by simpa [Promising] using hh⟩
    | step _ hlead hh ih =>
      obtain ⟨rest, cost, ht, hprom⟩ := ih
      exact ⟨_, _, ht.step hlead, List.forall_mem_cons.mpr ⟨hh, hprom⟩⟩
  · rintro ⟨rest, cost, ht, hprom⟩
    generalize hl : a :: rest = l at ht
    induction ht generalizing a rest with
    | root hp =>
      obtain ⟨rfl, rfl⟩ := List.cons.inj hl
      exact .initial hp (hprom _ List.mem_cons_self)
    | step _ hlead ih =>
      obtain ⟨rfl, rfl⟩ := List.cons.inj hl
      obtain ⟨hh, hprom⟩ := List.forall_mem_cons.mp hprom
      exact (ih _ hprom rfl).step hlead hh

/-! ### Trails read forwards -/

theorem zip_tail_snoc {α : Type} (l : List α) (a b : α) :
    (l ++ [a, b]).zip (l ++ [a, b]).tail = (l ++ [a]).zip (l ++ [a]).tail ++ [(a, b)] := by
  induction l with
  | nil => rfl
  | cons c rest ih => cases rest <;> simp_all

theorem Trail.head? {l : List σ} {cost : Nat} (ht : P.Trail prune l cost) : l.getLast? = some P.initial := by
  induction ht with
  | root _ => rfl
  | step _ _ ih => simpa using ih

/-- The costs of the steps of a trail. -/
theorem Trail.costs {l : List σ} {cost : Nat} (ht : P.Trail prune l cost) :
    ∃ costs, List.Forall₂ (fun step c => P.Leads prune step.1 step.2 c) (l.reverse.zip l.reverse.tail) costs ∧
      costs.sum = cost := by
  induction ht with
  | root _ => exact ⟨[], .nil, rfl⟩
  | @step a b rest g c _ hlead ih =>
    obtain ⟨costs, hall, hsum⟩ := ih
    refine ⟨costs ++ [c], ?_, by simp [hsum]⟩
    have hsnoc := zip_tail_snoc rest.reverse a b
    simp only [List.reverse_cons, List.append_assoc, List.singleton_append] at hall ⊢
    rw [hsnoc]
    exact List.rel_append hall (.cons hlead .nil)

theorem Trail.valid {a : σ} {rest : List σ} {cost : Nat} (ht : P.Trail prune (a :: rest) cost)
    (hgoal : P.isGoal a = true) (hnd : (a :: rest).Nodup) :
    Outcome.Valid ⟨(a :: rest).reverse, cost⟩ P prune where
  start := by rw [List.head?_reverse, ht.head?]
  admitted := ht.initial.1
  goal := ⟨a, by rw [List.getLast?_reverse, List.head?_cons], hgoal⟩
  distinct := List.nodup_reverse.mpr hnd
  steps := ht.costs

end Problem

namespace BestFirst

variable [BEq σ] [Hashable σ]

open Progress

/-- The state that a round from `s` expands, if it expands one. -/
def expanded? (P : Problem σ) (prune : Pruning σ) (deadline : Deadline) (s : Progress σ) : Option σ :=
  match s.waiting.popMin, round P prune deadline s with
  | .ok ((state, _), _), .next _ => some state
  | _, _ => none

/-- The states that a search expands in its first rounds, in their order. -/
def expansions (rounds : Nat) (P : Problem σ) (prune : Pruning σ) (deadline : Deadline) : List σ :=
  match start P prune with
  | .done _ => []
  | .next s =>
    (Loop.states (fun s => some (round P prune deadline s)) rounds s).filterMap (expanded? P prune deadline)

/-! ### What is expanded -/

section Keeps

variable {s t : Progress σ} {a : σ} {e : OpenEntry} {deadline : Deadline}

theorem enqueue_keeps {g h : Nat} {parent : Option Nat} (ht : s.enqueue a g h parent = .ok t) :
    t.closed = s.closed ∧ t.counters.expanded = s.counters.expanded := by
  unfold enqueue at ht
  split at ht
  · cases ht
  · cases ht
    exact ⟨rfl, rfl⟩

theorem improve_keeps {id g h parent : Nat} (ht : s.improve a id g h parent = .ok t) :
    t.closed = s.closed ∧ t.counters.expanded = s.counters.expanded := by
  unfold improve at ht
  split at ht
  · cases ht
  · cases ht
    exact ⟨rfl, rfl⟩

theorem visit_keeps {m : σ × Nat} (ht : visit P prune a e s m = .ok t) :
    t.closed = s.closed ∧ t.counters.expanded = s.counters.expanded := by
  unfold visit at ht
  dsimp only at ht
  split at ht
  · cases ht
    exact ⟨rfl, rfl⟩
  · split at ht
    · cases ht
      exact ⟨rfl, rfl⟩
    · split at ht
      · cases ht
        exact ⟨rfl, rfl⟩
      · split at ht
        · split at ht
          · obtain ⟨hclosed, hcount⟩ := improve_keeps ht
            exact ⟨hclosed, hcount⟩
          · cases ht
            exact ⟨rfl, rfl⟩
        · obtain ⟨hclosed, hcount⟩ := enqueue_keeps ht
          exact ⟨hclosed, hcount⟩

theorem visitAll_keeps {moves : List (σ × Nat)} (ht : moves.foldlM (visit P prune a e) s = .ok t) :
    t.closed = s.closed ∧ t.counters.expanded = s.counters.expanded := by
  induction moves generalizing s with
  | nil =>
    cases ht
    exact ⟨rfl, rfl⟩
  | cons m rest ih =>
    rw [List.foldlM_cons] at ht
    cases hm : visit P prune a e s m with
    | error err =>
      rw [hm] at ht
      cases ht
    | ok u =>
      rw [hm] at ht
      obtain ⟨hclosed, hcount⟩ := visit_keeps hm
      obtain ⟨hclosed', hcount'⟩ := ih ht
      exact ⟨hclosed'.trans hclosed, hcount'.trans hcount⟩

/-- A round that goes on takes a state out, closes it and counts one expansion. -/
theorem expanded_of_round (h : round P prune deadline s = .next t) :
    ∃ a e w, s.waiting.popMin = .ok ((a, e), w) ∧ expanded? P prune deadline s = some a ∧
      t.closed = s.closed.insert a ∧ t.counters.expanded = s.counters.expanded + 1 := by
  have hround := h
  unfold round at h
  cases hpop : s.waiting.popMin with
  | error err =>
    rw [hpop] at h
    cases h
  | ok popped =>
    obtain ⟨⟨a, e⟩, w⟩ := popped
    rw [hpop] at h
    dsimp only at h
    split at h
    · cases h
    · split at h
      · split at h <;> cases h
      · unfold expand at h
        dsimp only at h
        split at h
        · cases h
          rename_i hall
          obtain ⟨hclosed, hcount⟩ := visitAll_keeps hall
          exact ⟨a, e, w, rfl, by simp only [expanded?, hpop, hround], hclosed, hcount⟩
        · cases h

theorem round_of_expanded (h : expanded? P prune deadline s = some a) :
    ∃ e w t, s.waiting.popMin = .ok ((a, e), w) ∧ round P prune deadline s = .next t := by
  unfold expanded? at h
  split at h
  case h_1 hpop hround =>
    cases h
    exact ⟨_, _, _, hpop, hround⟩
  case h_2 => cases h

theorem not_closed_of_expanded [LawfulBEq σ] {level : Nat}
    (hs : Searching P prune level (fun _ _ => False) s) (h : expanded? P prune deadline s = some a) :
    a ∉ s.closed := by
  obtain ⟨e, w, t, hpop, -⟩ := round_of_expanded h
  obtain ⟨-, hget, -⟩ := hs.linked.valid.get?_popMin hpop
  intro hmem
  rw [hs.linked.apart hmem] at hget
  cases hget

end Keeps

variable [LawfulBEq σ] {rounds : Nat} {deadline : Deadline}

/-- No state is expanded twice. -/
theorem nodup_expansions : (expansions rounds P prune deadline).Nodup := by
  unfold expansions
  rcases start_cases P prune with ⟨counters, hstart, -⟩ | ⟨s, hstart, hs⟩
  · rw [hstart]
    exact List.nodup_nil
  rw [hstart, List.Nodup, List.pairwise_filterMap]
  let I : Progress σ → Prop := fun s => ∃ level, Searching P prune level (fun _ _ => False) s
  have keep : ∀ s t, I s → some (round P prune deadline s) = some (.next t) → I t := fun s t hs ht => by
    obtain ⟨_, hs⟩ := hs
    exact searching_round hs (Option.some.inj ht)
  -- What was expanded once is closed from then on.
  have hclosed := Loop.pairwise_states (n := rounds)
    (J := fun s t => ∀ a, expanded? P prune deadline s = some a → a ∈ t.closed) keep
    (fun s t _ ht a ha => by
      obtain ⟨b, e, w, -, hb, hclosed, -⟩ := expanded_of_round (Option.some.inj ht)
      obtain rfl := Option.some.inj (ha.symm.trans hb)
      exact (mem_closed hclosed).mpr (.inl rfl))
    (fun s t u _ hst hu a ha => by
      obtain ⟨b, e, w, -, -, hclosed, -⟩ := expanded_of_round (Option.some.inj hu)
      exact (mem_closed hclosed).mpr (.inr (hst a ha))) hs
  refine hclosed.imp_of_mem fun {s t} _ ht hst a ha b hb hab => ?_
  obtain ⟨_, ht⟩ := Loop.forall_mem_states keep hs t ht
  exact not_closed_of_expanded ht hb (hab ▸ hst a ha)

/-! ### How many are expanded -/

omit [LawfulBEq σ] in
theorem expanded_of_start : (∀ report, start P prune = .done report → report.counters.expanded = 0) ∧
    ∀ s, start P prune = .next s → s.counters.expanded = 0 := by
  unfold start
  dsimp only
  split
  · exact ⟨fun _ h => by cases h; rfl, nofun⟩
  · split
    · exact ⟨fun _ h => by cases h; rfl, nofun⟩
    · split
      case h_1 s hs =>
        obtain ⟨-, hcount⟩ := enqueue_keeps hs
        exact ⟨nofun, fun _ h => by cases h; exact hcount⟩
      case h_2 => exact ⟨fun _ h => by cases h; rfl, nofun⟩

theorem length_filterMap_states {report : SearchReport (Outcome σ)} {s : Progress σ} {level : Nat}
    (hs : Searching P prune level (fun _ _ => False) s)
    (h : Loop.run (fun s => some (round P prune deadline s)) rounds s = some report) :
    s.counters.expanded + ((Loop.states (fun s => some (round P prune deadline s)) rounds s).filterMap
      (expanded? P prune deadline)).length = report.counters.expanded := by
  induction rounds generalizing s level with
  | zero => cases h
  | succ n ih =>
    cases hround : round P prune deadline s with
    | done r =>
      have hnone : expanded? P prune deadline s = none := by
        rw [Option.eq_none_iff_forall_ne_some]
        intro a ha
        obtain ⟨_, _, t, -, ht⟩ := round_of_expanded ha
        rw [hround] at ht
        cases ht
      have hcount : r.counters = s.counters := by
        rcases round_cases hs deadline with ⟨hr, -⟩ | ⟨a, e, -, -, ⟨hr, -⟩ | ⟨-, l, -, -, -, hr⟩ | ⟨t, hr, -⟩⟩ <;>
          cases hround.symm.trans hr <;> rfl
      rw [Loop.run_done (congrArg some hround)] at h
      cases h
      rw [Loop.states_last (fun t => by simp [hround])]
      simp [hnone, hcount]
    | next t =>
      obtain ⟨a, e, w, -, ha, -, hcount⟩ := expanded_of_round hround
      obtain ⟨_, ht⟩ := searching_round hs hround
      rw [Loop.run_next (congrArg some hround)] at h
      rw [Loop.states_next (congrArg some hround), List.filterMap_cons_some ha, List.length_cons, ← ih ht h, hcount]
      omega

/-- A report counts the states that were expanded. -/
theorem length_expansions {report : SearchReport (Outcome σ)} (h : search rounds P prune deadline = some report) :
    (expansions rounds P prune deadline).length = report.counters.expanded := by
  unfold search at h
  unfold expansions
  rcases start_cases P prune with ⟨counters, hstart, -⟩ | ⟨s, hstart, hs⟩
  · rw [hstart] at h ⊢
    cases h
    exact (expanded_of_start.1 _ hstart).symm
  · rw [hstart] at h ⊢
    obtain ⟨_, hs⟩ := hs
    have hlen := length_filterMap_states hs h
    rwa [expanded_of_start.2 s hstart, Nat.zero_add] at hlen

/-! ### Soundness and completeness -/

/-- Whatever the estimates and the deadline are, a search that finds a goal reports a way to it and what that
    way costs. -/
theorem valid_outcome_of_search {report : SearchReport (Outcome σ)} (h : search rounds P prune deadline = some report)
    {outcome : Outcome σ} (ok : report.result = .ok outcome) : outcome.Valid P prune := by
  have hans := answers_of_search h
  rw [ok] at hans
  cases hans with
  | found hgoal ht hnd _ _ => exact ht.valid hgoal hnd

/-- Where finitely many states can be reached by moves that are not pruned, a search without a deadline ends and
    expands no state twice, as many as it counts. It reports that there is no path exactly if no goal can be
    reached through promising states, and finds a goal otherwise. -/
theorem search_decides (finite : {a | P.Reaches prune P.initial a}.Finite) :
    ∃ report, (∀ rounds, {a | P.Reaches prune P.initial a}.ncard < rounds →
        search rounds P prune .never = some report ∧
          (expansions rounds P prune .never).length = report.counters.expanded) ∧
      (∀ rounds, (expansions rounds P prune .never).Nodup) ∧
      (report.result = .error .noPathFound ↔ ¬∃ a, P.Attains prune a ∧ P.isGoal a = true) ∧
      ((∃ a, P.Attains prune a ∧ P.isGoal a = true) → ∃ outcome, report.result = .ok outcome) := by
  classical
  have hmem : ∀ {a l cost}, P.Trail prune (a :: l) cost → a ∈ finite.toFinset := fun ht =>
    finite.mem_toFinset.mpr (ht.reaches rfl _ ht.initial.2)
  obtain ⟨report, hreport⟩ := search_ends hmem .never (Nat.lt_succ_self _)
  have hans := answers_of_search hreport
  refine ⟨report, fun rounds hr => ?_, fun _ => nodup_expansions, ?_⟩
  · rw [Set.ncard_eq_toFinset_card _ finite] at hr
    have hsearch := search_mono hr hreport
    exact ⟨hsearch, length_expansions hsearch⟩
  · generalize report.result = result at hans
    cases hans with
    | found hgoal ht _ hprom _ =>
      have hattains : ∃ a, P.Attains prune a ∧ P.isGoal a = true :=
        ⟨_, Problem.attains_iff.mpr ⟨_, _, ht, hprom⟩, hgoal⟩
      exact ⟨⟨nofun, fun hno => absurd hattains hno⟩, fun _ => ⟨_, rfl⟩⟩
    | noPath hno =>
      have hnone : ¬∃ a, P.Attains prune a ∧ P.isGoal a = true := by
        rintro ⟨a, ha, hgoal⟩
        obtain ⟨rest, cost, ht, hprom⟩ := Problem.attains_iff.mp ha
        rw [hno ht hprom] at hgoal
        cases hgoal
      exact ⟨⟨fun _ => hnone, fun _ => rfl⟩, fun hsome => absurd hsome hnone⟩
    | outOfTime hexp => cases hexp

/-- Two ways to state 2, of which the cheaper one is met last, as its estimate is far too high; a goal whose own
    estimate is not 0; and a state without an estimate in front of the goal. -/
def detour : Problem (Fin 6) where
  initial := 0
  successors
    | 0 => [(1, 1), (2, 5), (2, 4)]
    | 1 => [(2, 1), (4, 0)]
    | 2 => [(3, 1), (0, 0)]
    | 3 => [(5, 0), (4, 2)]
    | 5 => [(4, 0)]
    | _ => []
  heuristic
    | 1 => some 9
    | 4 => some 7
    | 5 => none
    | _ => some 0
  isGoal a := a = 4

/-- State 4 may be entered from any state but 1. -/
def detourPruning : Pruning (Fin 6) := fun candidate predecessor => candidate = 4 && predecessor = some 1

theorem search_detour : (search 10 detour detourPruning ⟨fun k => 0 < k⟩).map SearchReport.result =
    some (.ok ⟨[0, 2, 3, 4], 7⟩) := by
  cbv

/-- Every state but the goal and the one without an estimate is expanded, just once. -/
example : expansions 10 detour detourPruning .never = [0, 2, 3, 1] := by cbv

/-- State 4 may be entered from state 5 alone. -/
def detourGate : Pruning (Fin 6) := fun candidate predecessor => candidate = 4 && predecessor != some 5

theorem search_gate : (search 10 detour detourGate .never).map SearchReport.result = some (.error .noPathFound) := by
  cbv

end BestFirst

end Mapf
