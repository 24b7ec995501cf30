import Mapf.Random.Draw
import Mathlib.Data.List.Nodup
import Mathlib.Data.List.Perm.Lattice

/-! # What is drawn

Whoever draws relies on no more than that what is drawn is what was asked for (`Random.Draws.Sound`), and, to get it at
all, that every draw comes to an end (`Random.Draws.Ends`).

Draws from words are sound whatever the words are (`Random.Draws.sound_ofWords`): an exchange of drawn places keeps all
elements, and a selection is a part of all numbers that are so exchanged or grows by one new number after the other. -/

namespace Mapf.Random

/-- Different numbers below `size`, as many as wanted. -/
structure Selection (size amount : Nat) (chosen : List Nat) : Prop where
  nodup : chosen.Nodup
  length : chosen.length = amount
  below : ∀ i ∈ chosen, i < size

namespace Draws

variable {ρ : Type}

/-- What is drawn is an element of a list that has one, all elements of a list, or as many different numbers as
    wanted. -/
structure Sound (draws : Draws ρ) : Prop where
  choose {α : Type} {xs : List α} {source rest : ρ} {drawn : Option α} :
    draws.choose xs source = some (drawn, rest) → (∃ x ∈ xs, drawn = some x) ∨ xs = [] ∧ drawn = none
  shuffle {α : Type} {xs ys : List α} {source rest : ρ} : draws.shuffle xs source = some (ys, rest) → ys.Perm xs
  select {size amount : Nat} {chosen : List Nat} {source rest : ρ} : amount ≤ size →
    draws.select size amount source = some (chosen, rest) → Selection size amount chosen

/-- Every draw comes to an end. -/
structure Ends (draws : Draws ρ) : Prop where
  choose {α : Type} (xs : List α) (source : ρ) : ∃ drawn, draws.choose xs source = some drawn
  shuffle {α : Type} (xs : List α) (source : ρ) : ∃ drawn, draws.shuffle xs source = some drawn
  select {size amount : Nat} (h : amount ≤ size) (source : ρ) : ∃ drawn, draws.select size amount source = some drawn

end Draws

variable {size amount count first rounds n : Nat} {chosen : List Nat} {s s' : Source}

/-! ### Numbers and elements -/

theorem lt_of_attempts {limit i : Nat} (hn : 0 < n) (h : Loop.run (attempt limit n) rounds s = some (i, s')) :
    i < n := by
  obtain ⟨t, -, hlast⟩ := Loop.run_invariant (I := fun _ => True) (fun _ _ _ _ => trivial) trivial h
  unfold attempt at hlast
  dsimp only at hlast
  split at hlast
  · cases hlast
    rw [Nat.div_lt_iff_lt_mul (by decide), Nat.mul_comm n]
    exact Nat.mul_lt_mul_of_pos_right t.next.1.toNat_lt hn
  · cases hlast

theorem mem_of_choose {α : Type} {xs : List α} {drawn : Option α} (h : choose rounds xs s = some (drawn, s')) :
    (∃ x ∈ xs, drawn = some x) ∨ xs = [] ∧ drawn = none := by
  unfold choose at h
  split at h
  case isTrue hempty =>
    cases h
    exact .inr ⟨List.isEmpty_iff.mp hempty, rfl⟩
  case isFalse hne =>
    obtain ⟨⟨i, t⟩, hi, h⟩ := Option.bind_eq_some_iff.mp h
    cases h
    have hlt : i < xs.length := lt_of_attempts (List.length_pos_iff.mpr (by simpa using hne)) hi
    exact .inl ⟨xs[i], List.getElem_mem hlt, List.getElem?_eq_getElem hlt⟩

/-! ### Exchanges -/

theorem perm_swapIfInBounds {α : Type} (xs : Array α) (i j : Nat) :
    (xs.swapIfInBounds i j).toList.Perm xs.toList := by
  rw [Array.swapIfInBounds_def]
  split
  · split
    · exact (Array.swap_perm _ _).toList
    · exact .refl _
  · exact .refl _

variable {α : Type} {xs ys : Array α}

theorem perm_shuffleFront {i : Nat} (h : shuffleFront rounds count i xs s = some (ys, s')) :
    ys.toList.Perm xs.toList := by
  induction count generalizing i xs s with
  | zero =>
    cases h
    exact .refl _
  | succ count ih =>
    obtain ⟨⟨j, s₁⟩, -, h⟩ := Option.bind_eq_some_iff.mp h
    exact (ih h).trans (perm_swapIfInBounds xs _ _)

theorem perm_shuffleFrom {i : Nat} (h : shuffleFrom rounds i xs s = some (ys, s')) : ys.toList.Perm xs.toList := by
  induction i generalizing xs s with
  | zero =>
    cases h
    exact .refl _
  | succ i ih =>
    obtain ⟨⟨j, s₁⟩, -, h⟩ := Option.bind_eq_some_iff.mp h
    exact (ih h).trans (perm_swapIfInBounds xs _ _)

theorem perm_shuffle {xs ys : List α} (h : shuffle rounds xs s = some (ys, s')) : ys.Perm xs := by
  obtain ⟨⟨zs, t⟩, hfrom, h⟩ := Option.bind_eq_some_iff.mp h
  cases h
  exact perm_shuffleFrom hfrom

/-! ### Selections -/

/-- A new number that is greater than all before may be put at any place. -/
theorem Selection.insert (h : Selection first amount chosen) (i : Nat) :
    Selection (first + 1) (amount + 1) (chosen.take i ++ first :: chosen.drop i) := by
  have hperm : (chosen.take i ++ first :: chosen.drop i).Perm (first :: chosen) := by
    have hsplit := List.take_append_drop i chosen
    calc (chosen.take i ++ first :: chosen.drop i).Perm (first :: (chosen.take i ++ chosen.drop i)) :=
        List.perm_middle
      _ = first :: chosen := by rw [hsplit]
  have hfresh : first ∉ chosen := fun hm => Nat.lt_irrefl _ (h.below first hm)
  refine ⟨hperm.nodup_iff.mpr (List.nodup_cons.mpr ⟨hfresh, h.nodup⟩), ?_, fun j hj => ?_⟩
  · rw [hperm.length_eq, List.length_cons, h.length]
  · rcases List.mem_cons.mp (hperm.mem_iff.mp hj) with rfl | hj
    · exact Nat.lt_succ_self j
    · exact Nat.lt_succ_of_lt (h.below j hj)

/-- A new number below the bound may be put at the end. -/
theorem Selection.snoc (h : Selection size amount chosen) {t : Nat} (ht : t < size) (hnew : t ∉ chosen) :
    Selection size (amount + 1) (chosen ++ [t]) := by
  refine ⟨?_, ?_, fun j hj => ?_⟩
  · have hswap : (chosen ++ [t]).Perm (t :: chosen) := List.perm_append_singleton t chosen
    exact hswap.nodup_iff.mpr (List.nodup_cons.mpr ⟨hnew, h.nodup⟩)
  · rw [List.length_append, h.length]
    rfl
  · rcases List.mem_append.mp hj with hj | hj
    · exact h.below j hj
    · exact List.mem_singleton.mp hj ▸ ht

theorem Selection.widen (h : Selection size amount chosen) : Selection (size + 1) amount chosen :=
  ⟨h.nodup, h.length, fun j hj => Nat.lt_succ_of_lt (h.below j hj)⟩

theorem Selection.perm {others : List Nat} (h : Selection size amount chosen) (hperm : others.Perm chosen) :
    Selection size amount others :=
  ⟨hperm.nodup_iff.mpr h.nodup, hperm.length_eq.trans h.length, fun j hj => h.below j (hperm.mem_iff.mp hj)⟩

/-- Every round of the selection one by one selects one more number, below a bound that is greater by one. -/
theorem selection_selectRising {mixed : Bool} {selected : List Nat} (h : Selection first amount chosen)
    (hs : selectRising rounds mixed count first chosen s = some (selected, s')) :
    Selection (first + count) (amount + count) selected := by
  induction count generalizing first amount chosen s with
  | zero =>
    cases hs
    exact h
  | succ count ih =>
    obtain ⟨⟨t, s₁⟩, hbelow, hs⟩ := Option.bind_eq_some_iff.mp hs
    have ht : t < first + 1 := lt_of_attempts (Nat.succ_pos first) hbelow
    rw [← Nat.succ_add_eq_add_succ, ← Nat.succ_add_eq_add_succ]
    dsimp only at hs
    split at hs
    · exact ih (h.insert _) hs
    case isFalse hnot =>
      exact ih (h.widen.snoc ht fun hm => hnot (List.contains_iff_mem.mpr hm)) hs

theorem selection_selectFew (h : amount ≤ size) (hs : selectFew rounds size amount s = some (chosen, s')) :
    Selection size amount chosen := by
  have hrising : ∀ {mixed : Bool} {selected : List Nat} {t : Source},
      selectRising rounds mixed amount (size - amount) [] s = some (selected, t) → Selection size amount selected := by
    intro mixed selected t hs
    have hnone : Selection (size - amount) 0 [] := ⟨.nil, rfl, nofun⟩
    have hall := selection_selectRising hnone hs
    rwa [Nat.sub_add_cancel h, Nat.zero_add] at hall
  unfold selectFew at hs
  split at hs
  · exact hrising hs
  · obtain ⟨⟨selected, t⟩, hselected, hs⟩ := Option.bind_eq_some_iff.mp hs
    exact (hrising hselected).perm (perm_shuffle hs)

theorem selection_selectFront (h : amount ≤ size) (hs : selectFront rounds size amount s = some (chosen, s')) :
    Selection size amount chosen := by
  obtain ⟨⟨xs, t⟩, hfront, hs⟩ := Option.bind_eq_some_iff.mp hs
  cases hs
  have hperm : xs.toList.Perm (List.range size) := by simpa using perm_shuffleFront hfront
  refine ⟨(hperm.nodup_iff.mpr List.nodup_range).sublist (List.take_sublist _ _), ?_, fun i hi => ?_⟩
  · rw [List.length_take, hperm.length_eq, List.length_range, Nat.min_eq_left h]
  · exact List.mem_range.mp (hperm.mem_iff.mp (List.mem_of_mem_take hi))

/-- What is tried again until it is new is new at last. -/
theorem fresh_of_attempts {i : Nat} (hsize : 0 < size)
    (h : Loop.run (attemptFresh rounds size chosen) n s = some (i, s')) : i < size ∧ i ∉ chosen := by
  obtain ⟨t, -, hlast⟩ := Loop.run_invariant (I := fun _ => True) (fun _ _ _ _ => trivial) trivial h
  obtain ⟨⟨j, u⟩, hdrawn, hlast⟩ := Option.bind_eq_some_iff.mp hlast
  dsimp only at hlast
  split at hlast
  · cases hlast
  case isFalse hnot =>
    cases hlast
    exact ⟨lt_of_attempts hsize hdrawn, fun hm => hnot (List.contains_iff_mem.mpr hm)⟩

theorem selection_selectFresh {selected : List Nat} (h : Selection size amount chosen) (hsize : 0 < size)
    (hs : selectFresh rounds size count chosen s = some (selected, s')) : Selection size (amount + count) selected := by
  induction count generalizing amount chosen s with
  | zero =>
    cases hs
    exact h
  | succ count ih =>
    obtain ⟨⟨i, s₁⟩, hfresh, hs⟩ := Option.bind_eq_some_iff.mp hs
    obtain ⟨hlt, hnew⟩ := fresh_of_attempts hsize hfresh
    rw [← Nat.succ_add_eq_add_succ]
    exact ih (h.snoc hlt hnew) hs

/-- In whichever way they are selected. -/
theorem selection_selectIndices (h : amount ≤ size) (hs : selectIndices rounds size amount s = some (chosen, s')) :
    Selection size amount chosen := by
  unfold selectIndices at hs
  split at hs
  · exact selection_selectFew h hs
  · split at hs
    · exact selection_selectFront h hs
    · split at hs
      · exact selection_selectFew h hs
      · have hnone : Selection size 0 [] := ⟨.nil, rfl, nofun⟩
        have hfresh := selection_selectFresh hnone (by omega) hs
        rwa [Nat.zero_add] at hfresh

/-- Whatever the words are, and however many may be tried for a number. -/
theorem Draws.sound_ofWords (rounds : Nat) : (Draws.ofWords rounds).Sound where
  choose := mem_of_choose
  shuffle := perm_shuffle
  select := selection_selectIndices

end Mapf.Random
