import Mapf.Proofs.Search.Moves

/-! # How the counters of a search balance

Every state that a search generates is pruned, or evaluated, or has no estimate, and every state that waits or was
expanded had been evaluated before (`Tallied`). So whatever comes of the search, it evaluates at least as many states as
it expands, and more if it finds a goal, which was waiting for the last round (`balanced_of_search`). -/

namespace Mapf

/-- What the counters of searches come to: `known` says that no estimate was missing, `found` that a goal was found. -/
structure Counters.Balanced (c : Counters) (known found : Prop) : Prop where
  bounded : c.pruned + c.evaluated ≤ c.generated
  exact : known → c.pruned + c.evaluated = c.generated
  expanded : c.expanded ≤ c.evaluated
  strict : found → c.expanded < c.evaluated

namespace BestFirst

variable {σ : Type} [BEq σ] [Hashable σ] {P : Problem σ} {prune : Pruning σ} {deadline : Deadline} {rounds : Nat}

/-- The states that moves out of `a` lead to, without the closed and the pruned ones. -/
def candidates (prune : Pruning σ) (a : σ) (closed : Std.HashSet σ) (moves : List (σ × Nat)) : List σ :=
  (moves.map Prod.fst).filter fun b => !closed.contains b && !prune b (some a)

/-- The states whose estimates a round from `s` asks for, in their order. -/
def askedIn (P : Problem σ) (prune : Pruning σ) (deadline : Deadline) (s : Progress σ) : List σ :=
  match expanded? P prune deadline s with
  | none => []
  | some a => candidates prune a (s.closed.insert a) (P.successors a)

/-- The states whose estimates a search asks for in its first rounds, in their order. -/
def asked (rounds : Nat) (P : Problem σ) (prune : Pruning σ) (deadline : Deadline) : List σ :=
  if prune P.initial none then []
  else P.initial :: (states rounds P prune deadline).flatMap (askedIn P prune deadline)

theorem candidates_append {a : σ} {closed : Std.HashSet σ} (moves more : List (σ × Nat)) :
    candidates prune a closed (moves ++ more) = candidates prune a closed moves ++ candidates prune a closed more := by
  simp [candidates]

theorem candidates_singleton {a : σ} {closed : Std.HashSet σ} (m : σ × Nat) : candidates prune a closed [m] =
    if !closed.contains m.1 && !prune m.1 (some a) then [m.1] else [] := by
  simp [candidates, List.filter_singleton]

theorem askedIn_of_done {s : Progress σ} {report : SearchReport (Outcome σ)}
    (h : round P prune deadline s = .done report) : askedIn P prune deadline s = [] := by
  unfold askedIn
  split
  · rfl
  case h_2 a ha =>
    obtain ⟨_, _, _, -, hnext⟩ := round_of_expanded ha
    cases h.symm.trans hnext

namespace Progress

/-- What the counters of a search say that has asked for the estimates of the states `asked`. -/
structure Tallied (P : Problem σ) (asked : List σ) (s : Progress σ) : Prop where
  generated : s.counters.generated =
    s.counters.pruned + s.counters.evaluated + asked.countP fun a => (P.heuristic a).isNone
  evaluated : s.counters.expanded + s.waiting.toList.length ≤ s.counters.evaluated

variable {s t : Progress σ} {level : Nat} {a child : σ} {e : OpenEntry} {w : Queue σ OpenEntry} {m : σ × Nat}
  {rest : List (σ × Nat)} {l : List σ} {g h : Nat}

/-! ### One move -/

/-- What is pruned is not asked for. -/
theorem Tallied.pruned (htally : Tallied P l s) :
    Tallied P l ((s.count .recordGeneration).count .recordPruned) where
  generated := by
    have := htally.generated
    show s.counters.generated + 1 = s.counters.pruned + 1 + s.counters.evaluated + _
    omega
  evaluated := htally.evaluated

theorem Tallied.miss (htally : Tallied P l s) (hnone : P.heuristic child = none) :
    Tallied P (l ++ [child]) (s.count .recordGeneration) where
  generated := by
    have := htally.generated
    rw [List.countP_append, List.countP_singleton, hnone]
    show s.counters.generated + 1 = s.counters.pruned + s.counters.evaluated + (_ + 1)
    omega
  evaluated := htally.evaluated

/-- When a state has been evaluated, one more may wait. -/
theorem Tallied.evaluate (htally : Tallied P l s) (hh : P.heuristic child = some h)
    (hcounters : t.counters = ((s.count .recordGeneration).count .recordEvaluation).counters)
    (hlength : t.waiting.toList.length ≤ s.waiting.toList.length + 1) : Tallied P (l ++ [child]) t where
  generated := by
    have := htally.generated
    rw [hcounters, List.countP_append, List.countP_singleton, hh]
    show s.counters.generated + 1 = s.counters.pruned + (s.counters.evaluated + 1) + (_ + 0)
    omega
  evaluated := by
    have := htally.evaluated
    rw [hcounters]
    show s.counters.expanded + _ ≤ s.counters.evaluated + 1
    omega

variable [LawfulBEq σ]

theorem tally_enqueue {parent : Option Nat} (hv : s.waiting.Valid) (hw : s.waiting.get? child = none)
    (ht : s.enqueue child g h parent = .ok t) : t.counters = s.counters ∧
      t.waiting.toList.length = s.waiting.toList.length + 1 := by
  obtain ⟨q, hins, -, -, hperm⟩ := hv.insert (Queue.get?_eq_none_iff.mp hw) ⟨s.arena.size, g, g + h⟩
  simp only [enqueue, hins] at ht
  cases ht
  exact ⟨rfl, hperm.length_eq⟩

theorem tally_improve {id parent : Nat} (ht : s.improve child id g h parent = .ok t) : t.counters = s.counters ∧
    t.waiting.toList.length = s.waiting.toList.length := by
  unfold improve at ht
  split at ht
  · cases ht
  case h_2 waiting hupd =>
    cases ht
    exact ⟨rfl, Queue.length_update hupd⟩

/-- A look at a move keeps the tally: it asks for one more estimate unless the state is closed or pruned. -/
theorem Opened.tallied (hs : Opened P prune a e (m :: rest) s) (ht : BestFirst.visit P prune a e s m = .ok t)
    (htally : Tallied P l s) : Tallied P (l ++ candidates prune a s.closed [m]) t := by
  rw [candidates_singleton]
  unfold BestFirst.visit at ht
  dsimp only at ht
  split at ht
  case isTrue hclosed =>
    cases ht
    simpa [hclosed] using htally
  case isFalse hclosed =>
    rw [Bool.not_eq_true] at hclosed
    split at ht
    case isTrue hpruned =>
      cases ht
      simpa [hclosed, hpruned] using htally.pruned
    case isFalse hpruned =>
      rw [Bool.not_eq_true] at hpruned
      simp only [hclosed, hpruned, Bool.not_false, Bool.and_true, ↓reduceIte]
      split at ht
      case h_1 hnone =>
        cases ht
        exact htally.miss hnone
      case h_2 h hh =>
        split at ht
        case h_1 known hknown =>
          split at ht
          · obtain ⟨hcounters, hlength⟩ := tally_improve ht
            exact htally.evaluate hh hcounters (Nat.le_succ_of_le (Nat.le_of_eq hlength))
          · cases ht
            exact htally.evaluate hh rfl (Nat.le_succ _)
        case h_2 hnew =>
          obtain ⟨hcounters, hlength⟩ := tally_enqueue (s := (s.count .recordGeneration).count .recordEvaluation)
            hs.searching.linked.valid hnew ht
          exact htally.evaluate hh hcounters (Nat.le_of_eq hlength)

/-! ### One round -/

theorem Tallied.close (htally : Tallied P l s) (hv : s.waiting.Valid)
    (hpop : s.waiting.popMin = .ok ((a, e), w)) : Tallied P l (s.close a w) := by
  obtain ⟨-, -, seq, hperm, -⟩ := hv.popMin hpop
  have hlength : s.waiting.toList.length = w.toList.length + 1 := hperm.length_eq
  refine ⟨htally.generated, ?_⟩
  show s.counters.expanded + 1 + w.toList.length ≤ s.counters.evaluated
  have := htally.evaluated
  omega

theorem Tallied.round (htally : Tallied P l s) (hs : Searching P prune level (fun _ _ => False) s)
    (h : round P prune deadline s = .next t) : Tallied P (l ++ askedIn P prune deadline s) t := by
  obtain ⟨a, e, w, hpop, ha, hopened, hall⟩ := opened_of_round hs h
  have hclose : Tallied P l (s.close a w) := htally.close hs.linked.valid hpop
  -- No state is closed while the moves are looked at.
  let I (seen : List (σ × Nat)) (u : Progress σ) : Prop :=
    u.closed = s.closed.insert a ∧ Tallied P (l ++ candidates prune a (s.closed.insert a) seen) u
  have keep : ∀ {seen : List (σ × Nat)} {m : σ × Nat} {rest : List (σ × Nat)} {u v : Progress σ},
      Opened P prune a e (m :: rest) u → BestFirst.visit P prune a e u m = .ok v → I seen u → I (seen ++ [m]) v := by
    intro seen m rest u v hu hv hi
    obtain ⟨hclosed, hu'⟩ := hi
    have hv' := hu.tallied hv hu'
    rw [hclosed, List.append_assoc, ← candidates_append] at hv'
    exact ⟨(visit_keeps hv).1.trans hclosed, hv'⟩
  have hstart : I [] (s.close a w) := ⟨rfl, by simpa [candidates] using hclose⟩
  obtain ⟨-, hi⟩ := hopened.all keep hall hstart
  simpa only [askedIn, ha] using hi

/-- A search reports what it has counted in front of its last round, and finds a goal only where one waits. -/
theorem Tallied.balanced (htally : Tallied P l s) (hs : Searching P prune level (fun _ _ => False) s)
    {report : SearchReport (Outcome σ)} (h : BestFirst.round P prune deadline s = .done report) :
    report.counters.Balanced (∀ a ∈ l, (P.heuristic a).isSome) (∃ outcome, report.result = .ok outcome) := by
  obtain ⟨hgenerated, hevaluated⟩ := htally
  obtain ⟨hcounters, hwaits⟩ : report.counters = s.counters ∧
      ∀ outcome, report.result = .ok outcome → 0 < s.waiting.toList.length := by
    rcases round_cases hs deadline with ⟨hr, -⟩ | ⟨a, e, hget, -, ⟨hr, -⟩ | ⟨-, way, -, -, -, hr⟩ | ⟨t, hr, -⟩⟩
    · cases h.symm.trans hr
      exact ⟨rfl, nofun⟩
    · cases h.symm.trans hr
      exact ⟨rfl, nofun⟩
    · cases h.symm.trans hr
      obtain ⟨entry, hentry, -⟩ := hs.linked.valid.get?_eq_some_iff.mp hget
      exact ⟨rfl, fun _ _ => List.length_pos_of_mem hentry⟩
    · cases h.symm.trans hr
  rw [hcounters]
  refine ⟨by omega, fun hknown => ?_, by omega, fun ⟨outcome, ok⟩ => ?_⟩
  · have hzero : (l.countP fun a => (P.heuristic a).isNone) = 0 := by
      rw [List.countP_eq_zero]
      intro a ha hnone
      have hsome := hknown a ha
      rw [Option.isSome_iff_ne_none] at hsome
      exact hsome (Option.isNone_iff_eq_none.mp hnone)
    omega
  · have := hwaits outcome ok
    omega

end Progress

/-! ### The whole search -/

variable [LawfulBEq σ]

open Progress

/-- A search that starts has evaluated its initial state, which waits. -/
theorem tallied_of_start {s : Progress σ} (h : start P prune = .next s) :
    prune P.initial none = false ∧ Tallied P [P.initial] s := by
  rcases start_inv P prune with ⟨-, hdone⟩ | ⟨hadmitted, ⟨-, hdone⟩ | ⟨k, t, hk, hnext, ht⟩⟩
  · cases h.symm.trans hdone
  · cases h.symm.trans hdone
  · cases h.symm.trans hnext
    obtain ⟨hcounters, hlength⟩ := tally_enqueue Queue.valid_empty (Queue.get?_empty P.initial) ht
    refine ⟨hadmitted, ?_, ?_⟩
    · rw [hcounters, List.countP_singleton, hk]
      rfl
    · rw [hcounters, hlength]
      exact Nat.le_refl 1

theorem balanced_of_start {report : SearchReport (Outcome σ)} (h : start P prune = .done report) :
    report.counters.Balanced (∀ a ∈ asked rounds P prune deadline, (P.heuristic a).isSome)
      (∃ outcome, report.result = .ok outcome) := by
  rcases start_inv P prune with ⟨-, hdone⟩ | ⟨hadmitted, ⟨hnone, hdone⟩ | ⟨k, t, -, hnext, -⟩⟩
  · cases h.symm.trans hdone
    exact ⟨Nat.le_refl _, fun _ => rfl, Nat.le_refl _, fun ⟨_, ok⟩ => nomatch ok⟩
  · cases h.symm.trans hdone
    refine ⟨Nat.zero_le _, fun hknown => ?_, Nat.le_refl _, fun ⟨_, ok⟩ => nomatch ok⟩
    have hsome := hknown P.initial (by simp [asked, hadmitted])
    rw [hnone] at hsome
    cases hsome
  · cases h.symm.trans hnext

/-- Whatever comes of a search, its counters balance: with equality if no estimate is missing, and with fewer expanded
    than evaluated states if it finds a goal. -/
theorem balanced_of_search {report : SearchReport (Outcome σ)} (h : search rounds P prune deadline = some report) :
    report.counters.Balanced (∀ a ∈ asked rounds P prune deadline, (P.heuristic a).isSome)
      (∃ outcome, report.result = .ok outcome) := by
  unfold search at h
  cases hstart : start P prune with
  | done r =>
    rw [hstart] at h
    cases h
    exact balanced_of_start hstart
  | next s =>
    rw [hstart] at h
    obtain ⟨hadmitted, htally⟩ := tallied_of_start hstart
    obtain ⟨before, last, hstates, ⟨⟨level, hlast⟩, htally⟩, hdone⟩ := Loop.exists_last_of_run
      (I := fun l s => (∃ level, Searching P prune level (fun _ _ => False) s) ∧ Tallied P l s)
      (fun l s t ⟨⟨level, hs⟩, htally⟩ ht =>
        ⟨searching_round hs (Option.some.inj ht), htally.round hs (Option.some.inj ht)⟩)
      ⟨searching_of_start hstart, htally⟩ h
    have hasked : asked rounds P prune deadline = [P.initial] ++ before.flatMap (askedIn P prune deadline) := by
      simp only [asked, states, hadmitted, hstart, hstates, List.flatMap_append, List.flatMap_singleton,
        askedIn_of_done (Option.some.inj hdone), List.append_nil, Bool.false_eq_true, ↓reduceIte, List.singleton_append]
    rw [hasked]
    exact htally.balanced hlast (Option.some.inj hdone)

/-- State 2 is evaluated again when a cheaper way leads there, and state 5 has no estimate. -/
example : asked 10 detour detourPruning .never = [0, 1, 2, 2, 3, 5, 4] := by cbv

end BestFirst

end Mapf
