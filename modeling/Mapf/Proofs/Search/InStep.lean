import Mapf.Proofs.Search.Moves

/-! # Arena, queue and closed states

A node may get a predecessor with a larger number than its own, so it is not the numbers that make the way back end.
Predecessors are closed, and no closed state is ever given another way: so the way back from a node goes through states
that were closed one before the other, and a node costs what its predecessor costs and the move in between (`Stepped`).
Whenever a search looks at its queue, and between any two moves, all its parts are in step (`inStep_of_states`). -/

namespace Mapf

namespace Arena

variable {σ : Type} {a : Arena σ}

/-- The states of all nodes, in the order in which these were made. -/
def states (a : Arena σ) : List σ := a.nodes.toList.map SearchNode.state

theorem mem_states {x : σ} : x ∈ a.states ↔ ∃ i n, a.get? i = some n ∧ n.state = x := by
  simp only [states, List.mem_map, Array.mem_toList_iff, Array.mem_iff_getElem?, get?]
  constructor
  · rintro ⟨n, ⟨i, hi⟩, hx⟩
    exact ⟨i, n, hi, hx⟩
  · rintro ⟨i, n, hi, hx⟩
    exact ⟨n, ⟨i, hi⟩, hx⟩

theorem nodup_states (h : ∀ {i j : Nat} {m n : SearchNode σ}, a.get? i = some m → a.get? j = some n →
    m.state = n.state → i = j) : a.states.Nodup := by
  rw [List.Nodup, states, List.pairwise_map, List.pairwise_iff_getElem]
  intro i j hi hj hij heq
  have hlt := h (i := i) (j := j) (by simp [get?]) (by simp [get?]) heq
  omega

/-- The way back from a node ends there, or goes on from its predecessor. -/
theorem Chain.parent_cases {i : Nat} {n : SearchNode σ} {l : List σ} (h : a.Chain i l) (hi : a.get? i = some n) :
    n.parent = none ∧ l = [n.state] ∨ ∃ p rest, n.parent = some p ∧ l = n.state :: rest ∧ a.Chain p rest := by
  cases h with
  | root hi' hp =>
    cases hi.symm.trans hi'
    exact .inl ⟨hp, rfl⟩
  | step hi' hp hrest =>
    cases hi.symm.trans hi'
    exact .inr ⟨_, _, hp, rfl, hrest⟩

end Arena

namespace BestFirst

variable {σ : Type} [BEq σ] [Hashable σ] {P : Problem σ} {prune : Pruning σ} {deadline : Deadline} {rounds : Nat}

namespace Progress

/-- A node that has a predecessor costs as much as this and a listed move from its state, which is closed. -/
def Stepped (P : Problem σ) (prune : Pruning σ) (s : Progress σ) : Prop :=
  ∀ {i p : Nat} {n : SearchNode σ}, s.arena.get? i = some n → n.parent = some p →
    ∃ m c, s.arena.get? p = some m ∧ m.state ∈ s.closed ∧ P.Leads prune m.state n.state c ∧ n.g = m.g + c

/-- All parts of a search are in step. -/
structure InStep (P : Problem σ) (prune : Pruning σ) (s : Progress σ) : Prop where
  /-- No state has two nodes. -/
  distinct : s.arena.states.Nodup
  /-- No state that waits is closed. -/
  apart : ∀ a, s.waiting.contains a = true → a ∉ s.closed
  /-- The states with a node are those that wait and those that are closed. -/
  covered : ∀ a, a ∈ s.arena.states ↔ s.waiting.contains a = true ∨ a ∈ s.closed
  /-- What waits has the costs of its node. -/
  entry : ∀ a e, s.waiting.get? a = some e → ∃ n, s.arena.get? e.node = some n ∧ n.state = a ∧ e.g = n.g ∧
    e.f = n.g + n.h
  /-- Only the initial state has no predecessor, and it costs nothing. -/
  root : ∀ i n, s.arena.get? i = some n → (n.parent = none ↔ n.state = P.initial) ∧ (n.parent = none → n.g = 0)
  /-- A predecessor is closed, and a listed move leads from there. -/
  parent : ∀ i n p, s.arena.get? i = some n → n.parent = some p → ∃ m c, s.arena.get? p = some m ∧ m.state ∈ s.closed ∧
    P.Leads prune m.state n.state c ∧ n.g = m.g + c
  /-- The way back from a node meets no state twice, and ends at the initial state. -/
  path : ∀ i n, s.arena.get? i = some n → ∃ back, s.arena.Chain i back ∧ back.head? = some n.state ∧ back.Nodup ∧
    back.getLast? = some P.initial ∧ s.arena.pathTo? i = some back.reverse

variable {s t : Progress σ} {a child : σ} {e : OpenEntry} {m : σ × Nat} {rest : List (σ × Nat)} {level g h parent : Nat}

/-! ### Predecessors -/

theorem Stepped.of_eq (hs : Stepped P prune s) (harena : t.arena = s.arena) (hclosed : ∀ b ∈ s.closed, b ∈ t.closed) :
    Stepped P prune t := by
  intro i p n hi hp
  rw [harena] at hi ⊢
  obtain ⟨m, c, hm, hmem, hstep⟩ := hs hi hp
  exact ⟨m, c, hm, hclosed _ hmem, hstep⟩

/-- No closed state gets another way, so what predecessors cost does not change. -/
theorem Stepped.placed (hs : Stepped P prune s) (hplaced : Placed s t child g h parent) (hnew : child ∉ s.closed)
    {ga ha c : Nat} {pa : Option Nat} (hpar : s.arena.get? parent = some ⟨a, ga, ha, pa⟩) (hac : a ∈ s.closed)
    (hl : P.Leads prune a child c) (hg : g = ga + c) : Stepped P prune t := by
  have hsame : ∀ {j : Nat} {n : SearchNode σ}, s.arena.get? j = some n → n.state ∈ s.closed →
      t.arena.get? j = some n ∧ n.state ∈ t.closed := fun hj hn =>
    ⟨hplaced.get?_of_ne (fun heq => hnew (heq ▸ hn)) hj, hplaced.closed ▸ hn⟩
  intro i p n hi hp
  rcases hplaced.get?_cases hi with ⟨rfl, -⟩ | ⟨hi, -⟩
  · cases hp
    obtain ⟨hm, hmem⟩ := hsame hpar hac
    exact ⟨_, c, hm, hmem, hl, hg⟩
  · obtain ⟨m, c, hm, hmem, hstep⟩ := hs hi hp
    obtain ⟨hm, hmem⟩ := hsame hm hmem
    exact ⟨m, c, hm, hmem, hstep⟩

variable [LawfulBEq σ] {w : Queue σ OpenEntry}

theorem Stepped.close (hs : Stepped P prune s) : Stepped P prune (s.close a w) :=
  Stepped.of_eq (t := s.close a w) hs rfl fun _ hb => (mem_closed rfl).mpr (.inr hb)

/-- A move leaves the arena alone, or gives a state that is not closed a way through the one that is being expanded. -/
theorem Opened.stepped (hs : Opened P prune a e (m :: rest) s) (ht : BestFirst.visit P prune a e s m = .ok t)
    (hstepped : Stepped P prune s) : Stepped P prune t := by
  obtain ⟨hsearching, ha, ⟨k, parent, hn, -⟩, hlisted⟩ := hs
  obtain ⟨u, hu, hcase⟩ := visit_cases hsearching.linked a e m
  cases hu.symm.trans ht
  rcases hcase with ⟨harena, -, hclosed, -⟩ | ⟨hnew, hpruned, h, -, hplaced⟩
  · exact hstepped.of_eq harena fun b hb => hclosed ▸ hb
  · exact hstepped.placed hplaced hnew hn ha ⟨hlisted m List.mem_cons_self, hpruned⟩ rfl

/-! ### In step -/

theorem Linked.inStep (hs : Linked P prune s) (hstart : s.Knows P.initial 0) (hstepped : Stepped P prune s) :
    InStep P prune s where
  distinct := Arena.nodup_states hs.unique
  apart a ha hc := by
    rw [hs.valid.indexed.contains_iff, hs.apart hc] at ha
    cases ha
  covered a := by
    rw [Arena.mem_states, hs.valid.indexed.contains_iff]
    constructor
    · rintro ⟨i, n, hi, rfl⟩
      exact (hs.met hi).symm
    · rintro (ha | ha)
      · obtain ⟨e, he⟩ := Option.isSome_iff_exists.mp ha
        obtain ⟨_, _, hn, -⟩ := hs.entry he
        exact ⟨_, _, hn, rfl⟩
      · exact hs.stored ha
  entry a e he := by
    obtain ⟨h, parent, hn, hf⟩ := hs.entry he
    exact ⟨_, hn, rfl, rfl, hf⟩
  root i n hi := by
    obtain ⟨rest, hchain, -, hnodup, htrail⟩ := hs.chain hi
    have hlast : P.initial ∈ (n.state :: rest).getLast? := htrail.head?
    rcases hchain.parent_cases hi with ⟨hnone, hl⟩ | ⟨p, back, hp, hl, hback⟩
    · rw [hl] at hlast
      have hstate : n.state = P.initial := Option.some.inj hlast
      exact ⟨⟨fun _ => hstate, fun _ => hnone⟩, fun _ => hs.knows_unique ⟨i, n, hi, hstate, rfl⟩ hstart⟩
    · obtain ⟨-, rfl⟩ := List.cons.inj hl
      -- The initial state comes last, and not twice.
      have hmem : P.initial ∈ rest := by
        cases hback <;> exact List.mem_of_getLast? (by simpa using hlast)
      have hne : n.state ≠ P.initial := fun heq => (List.nodup_cons.mp hnodup).1 (heq ▸ hmem)
      simp [hp, hne]
  parent i n p hi hp := hstepped hi hp
  path i n hi := by
    obtain ⟨rest, hchain, -, hnodup, htrail⟩ := hs.chain hi
    exact ⟨_, hchain, rfl, hnodup, htrail.head?, Arena.pathTo?_of_chain hchain hnodup⟩

theorem Stepped.round (hstepped : Stepped P prune s) (hs : Searching P prune level (fun _ _ => False) s)
    (h : BestFirst.round P prune deadline s = .next t) : Stepped P prune t := by
  obtain ⟨a, e, w, -, -, hopened, hall⟩ := opened_of_round hs h
  exact hopened.all (I := fun _ => Stepped P prune) (fun hs ht => hs.stepped ht) hall hstepped.close

end Progress

open Progress

variable [LawfulBEq σ]

theorem stepped_of_start {s : Progress σ} (h : start P prune = .next s) : Stepped P prune s := by
  rcases start_inv P prune with ⟨-, hdone⟩ | ⟨-, ⟨-, hdone⟩ | ⟨k, t, -, hnext, ht⟩⟩
  · cases h.symm.trans hdone
  · cases h.symm.trans hdone
  · cases h.symm.trans hnext
    unfold enqueue at ht
    split at ht
    · cases ht
    · cases ht
      intro i p n hi hp
      rw [Arena.get?_push] at hi
      split at hi
      · cases hi
        cases hp
      · simp [Arena.get?, Arena.empty] at hi

theorem searching_of_states : ∀ s ∈ states rounds P prune deadline,
    (∃ level, Searching P prune level (fun _ _ => False) s) ∧ Stepped P prune s := by
  unfold states
  cases hstart : start P prune with
  | done report => simp
  | next s =>
    refine Loop.forall_mem_states (fun s t ⟨⟨level, hs⟩, hstepped⟩ ht => ?_)
      ⟨searching_of_start hstart, stepped_of_start hstart⟩
    have hround := Option.some.inj ht
    exact ⟨searching_round hs hround, hstepped.round hs hround⟩

/-- Whenever a search looks at its queue, its parts are in step, and so they are when it has looked at some of the moves
    out of the state that it expands. -/
theorem inStep_of_states {s : Progress σ} (h : s ∈ states rounds P prune deadline) : InStep P prune s ∧
    ∀ a, expanded? P prune deadline s = some a → ∃ e w, s.waiting.popMin = .ok ((a, e), w) ∧
      ∀ seen rest, P.successors a = seen ++ rest →
        ∃ t, seen.foldlM (visit P prune a e) (s.close a w) = .ok t ∧ InStep P prune t := by
  obtain ⟨⟨level, hs⟩, hstepped⟩ := searching_of_states s h
  refine ⟨hs.linked.inStep hs.start hstepped, fun a ha => ?_⟩
  obtain ⟨_, _, t, -, hround⟩ := round_of_expanded ha
  obtain ⟨b, e, w, hpop, hb, hopened, -⟩ := opened_of_round hs hround
  cases ha.symm.trans hb
  refine ⟨e, w, hpop, fun seen rest hmoves => ?_⟩
  rw [hmoves] at hopened
  obtain ⟨u, hu, -, hopened', hu'⟩ := Opened.run (I := fun _ => Stepped P prune) (fun hs ht => hs.stepped ht) []
    hopened hstepped.close
  exact ⟨u, hu, hopened'.searching.linked.inStep hopened'.searching.start hu'⟩

end BestFirst

end Mapf
