import Mapf.Proofs.Search.InStep

/-! # What has left the queue is settled

With a consistent estimate the closed states lie below a level of estimated cost and the waiting ones above it. So the
estimated costs of the states that leave the queue never decrease. A promising trail to a state that no waiting one
undercuts is cut by nothing cheaper (`Searching.isLeast`), so each state leaves the queue at the least cost of all these
trails. It keeps this cost when it is closed: no way that turns up later is cheaper, and nothing is lost by leaving it
closed (`popped_settled`). -/

namespace Mapf

/-- What the ways from the initial state to `a` cost that are never pruned and lead through promising states. -/
def Problem.promisingCosts {σ : Type} (P : Problem σ) (prune : Pruning σ) (a : σ) : Set Nat :=
  {cost | ∃ rest, P.Trail prune (a :: rest) cost ∧ P.Promising (a :: rest)}

namespace BestFirst

variable {σ : Type} [BEq σ] [Hashable σ] {P : Problem σ} {prune : Pruning σ} {deadline : Deadline} {rounds : Nat}

namespace Progress

/-- The state that leaves the queue next, with its entry. -/
def next? (s : Progress σ) : Option (σ × OpenEntry) :=
  match s.waiting.popMin with
  | .ok (next, _) => some next
  | .error _ => none

variable {s t : Progress σ} {level : Nat} {a : σ} {e : OpenEntry} {w : Queue σ OpenEntry} {g h : Nat}

theorem popMin_of_next? (hnext : s.next? = some (a, e)) : ∃ w, s.waiting.popMin = .ok ((a, e), w) := by
  unfold next? at hnext
  split at hnext
  case h_1 next w hpop =>
    cases hnext
    exact ⟨w, hpop⟩
  case h_2 => cases hnext

/-! ### Least costs -/

/-- What a state costs that was met, some promising trail to it costs. -/
theorem Linked.mem_promisingCosts (hs : Linked P prune s) (hk : s.Knows a g) : g ∈ P.promisingCosts prune a := by
  obtain ⟨i, n, hi, rfl, rfl⟩ := hk
  obtain ⟨rest, hchain, -, -, htrail⟩ := hs.chain hi
  exact ⟨rest, htrail, hs.promising hchain⟩

/-- A state that no waiting one undercuts is known at its least cost. -/
theorem Searching.isLeast (hs : Searching P prune level (fun _ _ => False) s) (consistent : P.Consistent prune)
    (hk : s.Knows a g) (hh : P.heuristic a = some h)
    (hleast : ∀ {b : σ} {d : OpenEntry}, s.waiting.get? b = some d → g + h ≤ d.f) :
    IsLeast (P.promisingCosts prune a) g := by
  refine ⟨hs.linked.mem_promisingCosts hk, ?_⟩
  rintro cost ⟨rest, htrail, hprom⟩
  rcases frontier hs htrail hprom rfl hh with ⟨-, g', hk', hle⟩ | ⟨b, d, hd, hle⟩
  · obtain rfl := hs.linked.knows_unique hk hk'
    exact hle consistent
  · -- The trail leads through a waiting state, which promises no less than `a` does.
    have h₁ := hleast hd
    have h₂ := hle consistent
    omega

theorem Searching.isLeast_of_closed (hs : Searching P prune level (fun _ _ => False) s)
    (consistent : P.Consistent prune) (ha : a ∈ s.closed) (hk : s.Knows a g) :
    IsLeast (P.promisingCosts prune a) g := by
  obtain ⟨h, hh⟩ : ∃ h, P.heuristic a = some h := by
    obtain ⟨i, n, hi, rfl, -⟩ := hk
    exact ⟨n.h, hs.linked.estimate hi⟩
  exact hs.isLeast consistent hk hh fun hd =>
    Nat.le_trans (hs.below consistent ha hk hh) (hs.above consistent hd)

variable [LawfulBEq σ]

theorem Searching.isLeast_of_popMin (hs : Searching P prune level (fun _ _ => False) s)
    (consistent : P.Consistent prune) (hpop : s.waiting.popMin = .ok ((a, e), w)) :
    IsLeast (P.promisingCosts prune a) e.g := by
  obtain ⟨-, hget, -⟩ := hs.linked.valid.get?_popMin hpop
  obtain ⟨h, hh, hf⟩ := hs.linked.f_eq hget
  exact hs.isLeast consistent (hs.linked.knows_waiting hget) hh fun hd => hf ▸ hs.linked.f_le hpop hd

/-! ### Estimated costs along a search -/

/-- A round raises the level to the estimated cost of the state that it expands. -/
theorem Searching.next (hs : Searching P prune level (fun _ _ => False) s)
    (hpop : s.waiting.popMin = .ok ((a, e), w)) (h : round P prune deadline s = .next t) :
    Searching P prune e.f (fun _ _ => False) t := by
  obtain ⟨a', e', w', hpop', -, hopened, hall⟩ := opened_of_round hs h
  cases hpop.symm.trans hpop'
  rw [← List.append_nil (P.successors a)] at hopened
  obtain ⟨u, hu, -, hdone, -⟩ := Opened.run (I := fun _ _ => True) (fun _ _ _ => trivial) [] hopened trivial
  cases hu.symm.trans hall
  simpa using hdone.searching

end Progress

open Progress

variable [LawfulBEq σ]

/-- The states that leave the queue in the first rounds of a search, in their order. -/
def popped (rounds : Nat) (P : Problem σ) (prune : Pruning σ) (deadline : Deadline) : List (σ × OpenEntry) :=
  (states rounds P prune deadline).filterMap next?

/-- As long as a search goes on, nothing waits with a lower estimated cost than what has left the queue before. -/
theorem pairwise_states (consistent : P.Consistent prune) : (states rounds P prune deadline).Pairwise fun s t =>
    ∀ x, s.next? = some x → ∀ b d, t.waiting.get? b = some d → x.2.f ≤ d.f := by
  unfold states
  cases hstart : start P prune with
  | done report => exact .nil
  | next s =>
    refine Loop.pairwise_states (I := fun s => ∃ level, Searching P prune level (fun _ _ => False) s)
      (fun s t ⟨_, hs⟩ ht => searching_round hs (Option.some.inj ht)) (fun s t ⟨_, hs⟩ ht x hx b d hd => ?enter)
      (fun s t u ⟨_, ht⟩ hst hu x hx b d hd => ?stay) (searching_of_start hstart)
    case enter =>
      obtain ⟨w, hpop⟩ := popMin_of_next? hx
      exact (hs.next hpop (Option.some.inj ht)).above consistent hd
    case stay =>
      obtain ⟨a, e, w, hpop, -⟩ := opened_of_round ht (Option.some.inj hu)
      obtain ⟨-, hget, -⟩ := ht.linked.valid.get?_popMin hpop
      exact Nat.le_trans (hst x hx a e hget) ((ht.next hpop (Option.some.inj hu)).above consistent hd)

theorem pairwise_popped (consistent : P.Consistent prune) :
    ((popped rounds P prune deadline).map fun x => x.2.f).Pairwise (· ≤ ·) := by
  rw [popped, List.pairwise_map, List.pairwise_filterMap]
  refine (pairwise_states consistent).imp_of_mem fun {s t} _ ht hle x hx y hy => ?_
  obtain ⟨⟨_, hsearching⟩, -⟩ := searching_of_states t ht
  obtain ⟨w, hpop⟩ := popMin_of_next? hy
  obtain ⟨-, hget, -⟩ := hsearching.linked.valid.get?_popMin hpop
  exact hle x hx y.1 y.2 hget

/-- With a consistent estimate, the estimated costs of the states that leave the queue never decrease, and each of them
    leaves it at the least cost of all promising trails to it. Whatever is closed keeps its least cost as long as the
    search goes on, so no move into a closed state that is passed over would have been a cheaper way. -/
theorem popped_settled (consistent : P.Consistent prune) :
    ((popped rounds P prune deadline).map fun x => x.2.f).Pairwise (· ≤ ·) ∧
      (∀ a e, (a, e) ∈ popped rounds P prune deadline → IsLeast (P.promisingCosts prune a) e.g) ∧
      ∀ s ∈ states rounds P prune deadline, ∀ a ∈ s.closed,
        ∃ g, s.Knows a g ∧ IsLeast (P.promisingCosts prune a) g := by
  refine ⟨pairwise_popped consistent, fun a e hmem => ?_, fun s hs a ha => ?_⟩
  · obtain ⟨s, hs, hnext⟩ := List.mem_filterMap.mp hmem
    obtain ⟨⟨_, hsearching⟩, -⟩ := searching_of_states s hs
    obtain ⟨w, hpop⟩ := popMin_of_next? hnext
    exact hsearching.isLeast_of_popMin consistent hpop
  · obtain ⟨⟨_, hsearching⟩, -⟩ := searching_of_states s hs
    obtain ⟨g, hk⟩ := hsearching.linked.knows_closed ha
    exact ⟨g, hk, hsearching.isLeast_of_closed consistent ha hk⟩

end BestFirst

end Mapf
