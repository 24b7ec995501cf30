import Mapf.Proofs.Queue.Contents
import Mapf.Proofs.Search.Trail
import Mapf.Search.BestFirst

/-! # How the parts of a search stay in step

Between two looks at moves every met state has one node, it is either closed or waiting, a waiting
state and its node agree, and the chain of a node consists of closed states before its own one and is a
trail of the node's cost (`Linked`). The chain is what a cheaper predecessor could break: it does not,
because only waiting states are rerouted, and no chain passes through one. -/

namespace Mapf

theorem Merit.lt_iff {a b : Merit} : a < b ↔ a.f < b.f ∨ a.f = b.f ∧ b.g < a.g := Iff.rfl

instance : IsStrictTotalOrder Merit (· < ·) where
  irrefl a h := by
    rw [Merit.lt_iff] at h
    omega
  trans a b c h₁ h₂ := by
    rw [Merit.lt_iff] at *
    omega
  trichotomous a b h₁ h₂ := by
    rw [Merit.lt_iff] at h₁ h₂
    have hf : a.f = b.f := by omega
    have hg : a.g = b.g := by omega
    cases a
    cases b
    simp_all

namespace BestFirst

variable {σ : Type} [BEq σ] [Hashable σ]

namespace Progress

/-- State `a` was met, and `g` is its cost to come. -/
def Knows (s : Progress σ) (a : σ) (g : Nat) : Prop :=
  ∃ i n, s.arena.get? i = some n ∧ n.state = a ∧ n.g = g

/-- Arena, queue and closed states are in step. -/
structure Linked (P : Problem σ) (prune : Pruning σ) (s : Progress σ) : Prop where
  valid : s.waiting.Valid
  apart : ∀ {a : σ}, a ∈ s.closed → s.waiting.get? a = none
  entry : ∀ {a : σ} {e : OpenEntry}, s.waiting.get? a = some e →
    ∃ h parent, s.arena.get? e.node = some ⟨a, e.g, h, parent⟩ ∧ e.f = e.g + h
  unique : ∀ {i j : Nat} {m n : SearchNode σ}, s.arena.get? i = some m → s.arena.get? j = some n →
    m.state = n.state → i = j
  met : ∀ {i : Nat} {n : SearchNode σ}, s.arena.get? i = some n →
    n.state ∈ s.closed ∨ (s.waiting.get? n.state).isSome
  stored : ∀ {a : σ}, a ∈ s.closed → ∃ i n, s.arena.get? i = some n ∧ n.state = a
  estimate : ∀ {i : Nat} {n : SearchNode σ}, s.arena.get? i = some n → P.heuristic n.state = some n.h
  chain : ∀ {i : Nat} {n : SearchNode σ}, s.arena.get? i = some n → ∃ rest, s.arena.Chain i (n.state :: rest) ∧
    (∀ b ∈ rest, b ∈ s.closed) ∧ (n.state :: rest).Nodup ∧ P.Trail prune (n.state :: rest) n.g

section Facts

variable {P : Problem σ} {prune : Pruning σ} {s t : Progress σ} {a : σ} {g g' : Nat} {e : OpenEntry}

theorem knows_congr (h : t.arena = s.arena) : t.Knows a g ↔ s.Knows a g := by
  rw [Knows, h]
  rfl

theorem Linked.knows_unique (h : Linked P prune s) (h₁ : s.Knows a g) (h₂ : s.Knows a g') : g = g' := by
  obtain ⟨i, m, hi, hm, rfl⟩ := h₁
  obtain ⟨j, n, hj, hn, rfl⟩ := h₂
  obtain rfl := h.unique hi hj (hm.trans hn.symm)
  rw [Option.some.inj (hi.symm.trans hj)]

theorem Linked.knows_waiting (h : Linked P prune s) (hw : s.waiting.get? a = some e) : s.Knows a e.g := by
  obtain ⟨_, _, hn, -⟩ := h.entry hw
  exact ⟨_, _, hn, rfl, rfl⟩

theorem Linked.knows_closed (h : Linked P prune s) (ha : a ∈ s.closed) : ∃ g, s.Knows a g := by
  obtain ⟨i, n, hn, rfl⟩ := h.stored ha
  exact ⟨n.g, i, n, hn, rfl, rfl⟩

theorem Linked.f_eq (h : Linked P prune s) (hw : s.waiting.get? a = some e) :
    ∃ k, P.heuristic a = some k ∧ e.f = e.g + k := by
  obtain ⟨k, _, hn, hf⟩ := h.entry hw
  exact ⟨k, h.estimate hn, hf⟩

/-- A known state is closed or waits with its cost to come. -/
theorem Linked.closed_or_waiting (h : Linked P prune s) (hk : s.Knows a g) :
    a ∈ s.closed ∨ ∃ e, s.waiting.get? a = some e ∧ e.g = g := by
  obtain ⟨i, n, hn, rfl, hg⟩ := hk
  refine (h.met hn).imp id fun hw => ?_
  obtain ⟨e, he⟩ := Option.isSome_iff_exists.mp hw
  exact ⟨e, he, h.knows_unique (h.knows_waiting he) ⟨i, n, hn, rfl, hg⟩⟩

/-- What following predecessors meets has estimates. -/
theorem Linked.promising (h : Linked P prune s) {i : Nat} {l : List σ} (hl : s.arena.Chain i l) : P.Promising l := by
  intro a ha
  obtain ⟨_, _, hn, rfl⟩ := hl.mem a ha
  rw [h.estimate hn]
  rfl

/-- Counting does not matter. -/
theorem Linked.of_eq (h : Linked P prune s) (ha : t.arena = s.arena) (hw : t.waiting = s.waiting)
    (hc : t.closed = s.closed) : Linked P prune t := by
  cases s
  cases t
  cases ha
  cases hw
  cases hc
  exact ⟨h.valid, h.apart, h.entry, h.unique, h.met, h.stored, h.estimate, h.chain⟩

end Facts

/-! ### A new or cheaper way into a state -/

/-- From `s` to `t`, `child` got a way of cost `g` through node `parent`: under a new node, or under its
    old one when that was dearer. -/
structure Placed (s t : Progress σ) (child : σ) (g h parent : Nat) : Prop where
  valid : t.waiting.Valid
  closed : t.closed = s.closed
  others : ∀ {b : σ}, b ≠ child → t.waiting.get? b = s.waiting.get? b
  node : ∃ id, t.waiting.get? child = some ⟨id, g, g + h⟩ ∧
    t.arena.get? id = some ⟨child, g, h, some parent⟩ ∧
    (∀ {j : Nat}, j ≠ id → t.arena.get? j = s.arena.get? j) ∧
    (∀ {n : SearchNode σ}, s.arena.get? id = some n → n.state = child) ∧
    ∀ {j : Nat} {n : SearchNode σ}, s.arena.get? j = some n → n.state = child → j = id ∧ g < n.g

section Placed

variable {P : Problem σ} {prune : Pruning σ} {s t : Progress σ} {child : σ} {g h parent : Nat}

theorem Placed.get?_of_ne (hp : Placed s t child g h parent) {j : Nat} {n : SearchNode σ} (hn : n.state ≠ child)
    (hj : s.arena.get? j = some n) : t.arena.get? j = some n := by
  obtain ⟨id, -, -, hsame, hold, -⟩ := hp.node
  rw [hsame fun e => hn (hold (e ▸ hj)), hj]

theorem Placed.get?_cases (hp : Placed s t child g h parent) {j : Nat} {n : SearchNode σ}
    (hj : t.arena.get? j = some n) :
    n = ⟨child, g, h, some parent⟩ ∧ t.waiting.get? child = some ⟨j, g, g + h⟩ ∨
      s.arena.get? j = some n ∧ n.state ≠ child := by
  obtain ⟨id, hw, hid, hsame, hold, huniq⟩ := hp.node
  by_cases hji : j = id
  · subst hji
    exact .inl ⟨Option.some.inj (hj.symm.trans hid), hw⟩
  · rw [hsame hji] at hj
    exact .inr ⟨hj, fun e => hji (huniq hj e).1⟩

/-- A placed child keeps everything in step, if its way is a trail through a closed state. -/
theorem Linked.placed (hs : Linked P prune s) (hp : Placed s t child g h parent) (hnew : child ∉ s.closed)
    (hh : P.heuristic child = some h) {a : σ} {ga ha c : Nat} {pa : Option Nat}
    (hpar : s.arena.get? parent = some ⟨a, ga, ha, pa⟩) (hac : a ∈ s.closed) (hl : P.Leads prune a child c)
    (hg : g = ga + c) : Linked P prune t := by
  have hclosed : ∀ {b}, b ∈ s.closed → b ≠ child := fun hb e => hnew (e ▸ hb)
  -- Chains of closed states are not touched.
  have hchain : ∀ {i n}, s.arena.get? i = some n → n.state ≠ child → ∃ rest,
      t.arena.Chain i (n.state :: rest) ∧ (∀ b ∈ rest, b ∈ s.closed) ∧ (n.state :: rest).Nodup ∧
        P.Trail prune (n.state :: rest) n.g := fun {i n} hi hn => by
    obtain ⟨rest, hch, hcl, hnd, htr⟩ := hs.chain hi
    refine ⟨rest, hch.congr fun hj hm => hp.get?_of_ne ?_ hj, hcl, hnd, htr⟩
    rcases List.mem_cons.mp hm with heq | hm
    · rwa [heq]
    · exact hclosed (hcl _ hm)
  refine ⟨hp.valid, fun hb => ?_, fun {b e} he => ?_, fun {i j m n} hi hj hmn => ?_, fun {i n} hi => ?_,
    fun hb => ?_, fun {i n} hi => ?_, fun {i n} hi => ?_⟩
  · rw [hp.closed] at hb
    rw [hp.others (hclosed hb)]
    exact hs.apart hb
  · by_cases hb : b = child
    · subst hb
      obtain ⟨id, hw, hid, -⟩ := hp.node
      obtain rfl := Option.some.inj (hw.symm.trans he)
      exact ⟨h, some parent, hid, rfl⟩
    · rw [hp.others hb] at he
      obtain ⟨k, par, hn, hf⟩ := hs.entry he
      exact ⟨k, par, hp.get?_of_ne hb hn, hf⟩
  · rcases hp.get?_cases hi with ⟨rfl, hw⟩ | ⟨hi', hm⟩ <;> rcases hp.get?_cases hj with ⟨rfl, hw'⟩ | ⟨hj', hn⟩
    · exact (OpenEntry.mk.inj (Option.some.inj (hw.symm.trans hw'))).1
    · exact absurd hmn.symm hn
    · exact absurd hmn hm
    · exact hs.unique hi' hj' hmn
  · rcases hp.get?_cases hi with ⟨rfl, hw⟩ | ⟨hi', hn⟩
    · exact .inr (by simp [hw])
    · rw [hp.closed, hp.others hn]
      exact hs.met hi'
  · rw [hp.closed] at hb
    obtain ⟨i, n, hi, rfl⟩ := hs.stored hb
    exact ⟨i, n, hp.get?_of_ne (hclosed hb) hi, rfl⟩
  · rcases hp.get?_cases hi with ⟨rfl, -⟩ | ⟨hi', -⟩
    · exact hh
    · exact hs.estimate hi'
  · rcases hp.get?_cases hi with ⟨rfl, -⟩ | ⟨hi', hn⟩
    · obtain ⟨rest, hch, hcl, hnd, htr⟩ := hchain hpar (hclosed hac)
      have hall : ∀ b ∈ a :: rest, b ∈ s.closed := fun b hb => by
        rcases List.mem_cons.mp hb with rfl | hb
        · exact hac
        · exact hcl b hb
      refine ⟨a :: rest, .step hi rfl hch, fun b hb => hp.closed ▸ hall b hb, ?_, hg ▸ htr.step hl⟩
      exact List.nodup_cons.mpr ⟨fun hm => hnew (hall _ hm), hnd⟩
    · rw [hp.closed]
      exact hchain hi' hn

/-- A known state stays known at no greater cost, a closed one at the same cost. -/
theorem Placed.knows (hp : Placed s t child g h parent) {b : σ} {gb : Nat} (hb : s.Knows b gb) :
    ∃ g', t.Knows b g' ∧ g' ≤ gb ∧ (b ≠ child → g' = gb) := by
  obtain ⟨i, n, hi, rfl, rfl⟩ := hb
  by_cases hn : n.state = child
  · obtain ⟨id, -, hid, -, -, huniq⟩ := hp.node
    exact ⟨g, ⟨id, _, hid, hn.symm, rfl⟩, Nat.le_of_lt (huniq hi hn).2, fun h => absurd hn h⟩
  · exact ⟨n.g, ⟨i, n, hp.get?_of_ne hn hi, rfl, rfl⟩, Nat.le_refl _, fun _ => rfl⟩

theorem Placed.knows_child (hp : Placed s t child g h parent) : t.Knows child g := by
  obtain ⟨id, -, hid, -⟩ := hp.node
  exact ⟨id, _, hid, rfl, rfl⟩

end Placed

end Progress

end BestFirst

end Mapf
