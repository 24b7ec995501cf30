import Mapf.Search.Arena
import Mapf.Search.Problem
import Mathlib.Data.List.Nodup
import Mathlib.Data.List.Perm.Subperm

/-! # Trails and chains

A trail is a way through a state space along moves that are not pruned, its last state first. A chain
is what following predecessors in an arena meets, again the last state first. A chain of different
states is shorter than the arena, so walking back finds it (`pathTo?_of_chain`). -/

namespace Mapf

namespace Problem

variable {σ : Type}

/-- A listed move from `a` to `b` of cost `c` that is not pruned. -/
def Leads (P : Problem σ) (prune : Pruning σ) (a b : σ) (c : Nat) : Prop :=
  (b, c) ∈ P.successors a ∧ prune b (some a) = false

/-- A way from the initial state that is never pruned, with its cost; the last state comes first. -/
inductive Trail (P : Problem σ) (prune : Pruning σ) : List σ → Nat → Prop
  | root : prune P.initial none = false → Trail P prune [P.initial] 0
  | step {a b : σ} {rest : List σ} {g c : Nat} : Trail P prune (a :: rest) g → P.Leads prune a b c →
      Trail P prune (b :: a :: rest) (g + c)

/-- A move lowers the estimate by no more than its cost. -/
def Consistent (P : Problem σ) (prune : Pruning σ) : Prop :=
  ∀ {a b : σ} {c h k : Nat}, P.Leads prune a b c → P.heuristic a = some h → P.heuristic b = some k → h ≤ c + k

/-- Every state of a list has an estimate. -/
def Promising (P : Problem σ) (states : List σ) : Prop := ∀ a ∈ states, (P.heuristic a).isSome

theorem Trail.initial {P : Problem σ} {prune : Pruning σ} {l : List σ} {g : Nat} (h : P.Trail prune l g) :
    prune P.initial none = false ∧ P.initial ∈ l := by
  induction h with
  | root hp => exact ⟨hp, List.mem_cons_self⟩
  | step _ _ ih => exact ⟨ih.1, List.mem_cons_of_mem _ ih.2⟩

end Problem

namespace Arena

variable {σ : Type} {a b : Arena σ}

/-- What following predecessors from a node meets. -/
inductive Chain (a : Arena σ) : Nat → List σ → Prop
  | root {i : Nat} {n : SearchNode σ} : a.get? i = some n → n.parent = none → Chain a i [n.state]
  | step {i p : Nat} {n : SearchNode σ} {l : List σ} : a.get? i = some n → n.parent = some p → Chain a p l →
      Chain a i (n.state :: l)

/-- A chain survives if the nodes of its states do. -/
theorem Chain.congr {i : Nat} {l : List σ} (h : a.Chain i l)
    (hsame : ∀ {j n}, a.get? j = some n → n.state ∈ l → b.get? j = some n) : b.Chain i l := by
  induction h with
  | root hi hp => exact .root (hsame hi List.mem_cons_self) hp
  | step hi hp _ ih =>
    exact .step (hsame hi List.mem_cons_self) hp (ih fun hj hn => hsame hj (List.mem_cons_of_mem _ hn))

theorem Chain.mem {i : Nat} {l : List σ} (h : a.Chain i l) : ∀ x ∈ l, ∃ j n, a.get? j = some n ∧ n.state = x := by
  induction h with
  | root hi _ =>
    intro x hx
    exact ⟨_, _, hi, (List.mem_singleton.mp hx).symm⟩
  | step hi _ _ ih =>
    intro x hx
    rcases List.mem_cons.mp hx with rfl | hx
    · exact ⟨_, _, hi, rfl⟩
    · exact ih x hx

theorem walkBack_of_chain {i : Nat} {l : List σ} (h : a.Chain i l) {limit : Nat} (hl : l.length ≤ limit)
    (rest : List σ) : a.walkBack limit i rest = some (l.reverse ++ rest) := by
  induction h generalizing limit rest with
  | root hi hp =>
    obtain ⟨limit, rfl⟩ := Nat.exists_eq_succ_of_ne_zero (show limit ≠ 0 by simp at hl; omega)
    simp [walkBack, hi, hp]
  | step hi hp _ ih =>
    obtain ⟨limit, rfl⟩ := Nat.exists_eq_succ_of_ne_zero (show limit ≠ 0 by simp at hl; omega)
    simp only [walkBack, hi, hp]
    rw [ih (by simpa using hl)]
    simp

/-- A chain of different states is shorter than the arena. -/
theorem Chain.length_le {i : Nat} {l : List σ} (h : a.Chain i l) (hl : l.Nodup) : l.length ≤ a.size := by
  have hsub : l ⊆ a.nodes.toList.map SearchNode.state := fun x hx => by
    obtain ⟨j, n, hj, rfl⟩ := h.mem x hx
    exact List.mem_map_of_mem (Array.mem_toList_iff.mpr (Array.mem_of_getElem? hj))
  simpa [size] using (List.subperm_of_subset hl hsub).length_le

theorem pathTo?_of_chain {i : Nat} {l : List σ} (h : a.Chain i l) (hl : l.Nodup) : a.pathTo? i = some l.reverse := by
  rw [pathTo?, walkBack_of_chain h (h.length_le hl), List.append_nil]

theorem get?_push (a : Arena σ) (node : SearchNode σ) (i : Nat) :
    (a.push node).get? i = if i = a.size then some node else a.get? i := by
  show (a.nodes.push node)[i]? = _
  rw [Array.getElem?_push]
  rfl

theorem get?_size (a : Arena σ) : a.get? a.size = none := by
  simp [get?, size]

theorem get?_reroute (a : Arena σ) (id g i : Nat) (parent : Option Nat) :
    (a.reroute id g parent).get? i =
      if id = i then (a.get? i).map fun node => { node with g := g, parent := parent } else a.get? i := by
  simp [get?, reroute, Array.getElem?_modify]

end Arena

end Mapf
