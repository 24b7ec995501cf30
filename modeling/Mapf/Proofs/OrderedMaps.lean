import Mapf.OrderedMap
import Mathlib.Algebra.GroupWithZero.Nat
import Mathlib.Data.List.Nodup
import Mathlib.Data.List.Perm.Lattice
import Mathlib.Data.List.Sort

/-! # Finding entries of ordered maps

What a map finds is what it lists (`get?_eq_some_iff`), and a map made of entries with different keys lists
just these (`toList_ofList_perm`). As the order of the entries is fixed, a map is determined by what it finds
(`ext_get?`). -/

namespace Mapf

/-- Two lists in strict order with the same elements are equal. -/
theorem eq_of_pairwise_of_mem {α : Type} {R : α → α → Prop} (asymm : ∀ {a b}, R a b → ¬R b a) {l l' : List α}
    (h : l.Pairwise R) (h' : l'.Pairwise R) (hmem : ∀ a, a ∈ l ↔ a ∈ l') : l = l' := by
  have : Std.Irrefl R := ⟨fun a haa => asymm haa haa⟩
  have : Std.Antisymm R := ⟨fun a b hab hba => absurd hba (asymm hab)⟩
  exact h.eq_of_mem_iff h' hmem

namespace OrderedMap

variable {κ ν : Type} [Ord κ] [Std.LawfulEqOrd κ] {m : OrderedMap κ ν} {k : κ} {v : ν}

theorem nodup_keys (m : OrderedMap κ ν) : (m.toList.map Prod.fst).Nodup := by
  rw [List.Nodup, List.pairwise_map]
  refine m.ascending.imp fun {a b} hlt he => ?_
  simp [he] at hlt

theorem get?_eq_some_iff : m.get? k = some v ↔ (k, v) ∈ m.toList := by
  unfold get?
  rw [Option.map_eq_some_iff]
  have hkey : ∀ {e}, m.toList.find? (fun e => compare k e.1 == .eq) = some e → k = e.1 := fun he => by
    have := List.find?_some he
    exact Std.LawfulEqOrd.eq_of_compare (eq_of_beq this)
  constructor
  · rintro ⟨e, he, rfl⟩
    obtain rfl := hkey he
    exact List.mem_of_find?_eq_some he
  · intro hm
    have hsome : (m.toList.find? fun e => compare k e.1 == .eq).isSome := by
      rw [List.find?_isSome]
      exact ⟨_, hm, by simp⟩
    obtain ⟨e, he⟩ := Option.isSome_iff_exists.mp hsome
    obtain rfl := List.inj_on_of_nodup_map m.nodup_keys hm (List.mem_of_find?_eq_some he) (hkey he)
    exact ⟨_, he, rfl⟩

theorem mem_keys_iff : k ∈ m.keys ↔ m.contains k = true := by
  rw [keys, List.mem_map, contains, Option.isSome_iff_exists]
  constructor
  · rintro ⟨⟨_, v⟩, hm, rfl⟩
    exact ⟨v, get?_eq_some_iff.mpr hm⟩
  · rintro ⟨v, hv⟩
    exact ⟨_, get?_eq_some_iff.mp hv, rfl⟩

variable [Std.TransOrd κ]

/-- A map lists nothing but what it finds, in a fixed order. -/
theorem ext_get? {n : OrderedMap κ ν} (h : ∀ k, m.get? k = n.get? k) : m = n := by
  refine OrderedMap.ext (eq_of_pairwise_of_mem (fun {a b} hab hba => ?_) m.ascending n.ascending fun e => ?_)
  · rw [Std.OrientedCmp.gt_of_lt hab] at hba
    cases hba
  · rw [← get?_eq_some_iff, h, get?_eq_some_iff]

theorem keys_eq {ν' : Type} {n : OrderedMap κ ν'} (h : ∀ k, m.contains k = true ↔ n.contains k = true) :
    m.keys = n.keys := by
  refine eq_of_pairwise_of_mem (R := fun a b => compare a b = .lt) (fun {a b} hab hba => ?_)
    (List.pairwise_map.mpr m.ascending) (List.pairwise_map.mpr n.ascending) fun k => ?_
  · rw [Std.OrientedCmp.gt_of_lt hab] at hba
    cases hba
  · rw [mem_keys_iff, mem_keys_iff, h]

theorem get?_insert [DecidableEq κ] (m : OrderedMap κ ν) (k j : κ) (v : ν) :
    (m.insert k v).get? j = if j = k then some v else m.get? j := by
  split
  case isTrue h => rw [h, get?_insert_self]
  case isFalse h => rw [get?_insert_of_ne m v h]

theorem get?_alter [DecidableEq κ] (m : OrderedMap κ ν) (k j : κ) (f : Option ν → ν) :
    (m.alter k f).get? j = if j = k then some (f (m.get? k)) else m.get? j :=
  get?_insert m k j _

theorem get?_foldl_insert {entries : List (κ × ν)} (h : (entries.map Prod.fst).Nodup) (m : OrderedMap κ ν) :
    (entries.foldl (fun m e => m.insert e.1 e.2) m).get? k = some v ↔
      (k, v) ∈ entries ∨ k ∉ entries.map Prod.fst ∧ m.get? k = some v := by
  induction entries generalizing m with
  | nil => simp
  | cons e rest ih =>
    obtain ⟨hnot, hrest⟩ := List.nodup_cons.mp h
    rw [List.foldl_cons, ih hrest, List.mem_cons, List.map_cons, List.mem_cons, not_or]
    by_cases hk : k = e.1
    · subst hk
      rw [get?_insert_self, Option.some.injEq]
      have hno : (e.1, v) ∉ rest := fun hm => hnot (List.mem_map.mpr ⟨_, hm, rfl⟩)
      simp only [hno, hnot, not_false_eq_true, true_and, false_or, not_true_eq_false, false_and, or_false]
      exact ⟨fun hv => by rw [← hv], fun hv => (Prod.mk.inj hv).2.symm⟩
    · rw [get?_insert_of_ne m e.2 hk]
      have hne : (k, v) ≠ e := fun he => hk (by rw [← he])
      simp only [hne, hk, not_false_eq_true, true_and, false_or]

theorem get?_ofList {entries : List (κ × ν)} (h : (entries.map Prod.fst).Nodup) :
    (ofList entries).get? k = some v ↔ (k, v) ∈ entries := by
  rw [ofList, get?_foldl_insert h]
  simp

theorem toList_ofList_perm {entries : List (κ × ν)} (h : (entries.map Prod.fst).Nodup) :
    (ofList entries).toList.Perm entries := by
  refine (List.perm_ext_iff_of_nodup (nodup_keys _).of_map h.of_map).mpr fun e => ?_
  rw [← get?_ofList h, get?_eq_some_iff]

omit [Std.LawfulEqOrd κ] in
/-- A new entry counts in place of the one with its key. -/
theorem sum_insertEntry {l : List (κ × ν)} (h : Ascending l) (k : κ) (v : ν) (g : κ × ν → Nat) :
    ((insertEntry k v l).map g).sum + ((l.find? fun e => compare k e.1 == .eq).map g).getD 0 =
      (l.map g).sum + g (k, v) := by
  induction l with
  | nil => simp [insertEntry]
  | cons e rest ih =>
    obtain ⟨he, hrest⟩ := List.pairwise_cons.mp h
    rw [insertEntry, List.find?_cons]
    cases hk : compare k e.1 with
    | lt =>
      have hnone : rest.find? (fun e => compare k e.1 == .eq) = none := by
        rw [List.find?_eq_none]
        intro d hd heq
        rw [Std.TransCmp.lt_trans hk (he d hd)] at heq
        cases heq
      show (g (k, v) :: g e :: rest.map g).sum + ((rest.find? fun e => compare k e.1 == .eq).map g).getD 0 = _
      rw [hnone, List.sum_cons, Nat.add_comm (g (k, v))]
      rfl
    | eq =>
      show (g (k, v) :: rest.map g).sum + g e = (g e :: rest.map g).sum + g (k, v)
      rw [List.sum_cons, List.sum_cons]
      omega
    | gt =>
      have hrest := ih hrest
      show (g e :: (insertEntry k v rest).map g).sum + ((rest.find? fun e => compare k e.1 == .eq).map g).getD 0 =
        (g e :: rest.map g).sum + g (k, v)
      rw [List.sum_cons, List.sum_cons]
      omega

theorem sum_values_insert (m : OrderedMap κ ν) (k : κ) (v : ν) (f : ν → Nat) :
    ((m.insert k v).values.map f).sum + ((m.get? k).map f).getD 0 = (m.values.map f).sum + f v := by
  rw [values, values, get?, List.map_map, List.map_map, Option.map_map]
  exact sum_insertEntry m.ascending k v (f ∘ Prod.snd)

end OrderedMap

end Mapf
