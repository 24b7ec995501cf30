/-! # Maps listed by ascending key

A map is the list of its entries, strictly ascending by key. The order is part of the type, so two
maps with the same contents are equal and a listing never depends on the order of insertions.

Main statements: what is found after an insertion (`get?_insert_self`, `get?_insert_of_ne`). -/

namespace Mapf

/-- Entries strictly ascending by key. -/
def Ascending {κ ν : Type} [Ord κ] (entries : List (κ × ν)) : Prop :=
  entries.Pairwise fun a b => compare a.1 b.1 = .lt

/-- A finite map whose entries are listed by ascending key. -/
structure OrderedMap (κ ν : Type) [Ord κ] where
  toList : List (κ × ν)
  ascending : Ascending toList

namespace OrderedMap

variable {κ ν : Type} [Ord κ]

instance [DecidableEq κ] [DecidableEq ν] : DecidableEq (OrderedMap κ ν) := fun m n =>
  if h : m.toList = n.toList then
    .isTrue (by cases m; cases n; cases h; rfl)
  else
    .isFalse fun e => h (e ▸ rfl)

def empty : OrderedMap κ ν := ⟨[], .nil⟩

instance : EmptyCollection (OrderedMap κ ν) := ⟨empty⟩

instance : Inhabited (OrderedMap κ ν) := ⟨empty⟩

@[ext] theorem ext {m n : OrderedMap κ ν} (h : m.toList = n.toList) : m = n := by
  cases m; cases n; cases h; rfl

/-- Puts an entry at its place, replacing an entry of the same key. -/
def insertEntry (k : κ) (v : ν) : List (κ × ν) → List (κ × ν)
  | [] => [(k, v)]
  | e :: rest =>
    match compare k e.1 with
    | .lt => (k, v) :: e :: rest
    | .eq => (k, v) :: rest
    | .gt => e :: insertEntry k v rest

theorem mem_insertEntry {k : κ} {v : ν} {l : List (κ × ν)} {e : κ × ν} (h : e ∈ insertEntry k v l) :
    e = (k, v) ∨ e ∈ l := by
  induction l with
  | nil => simpa [insertEntry] using h
  | cons x rest ih =>
    unfold insertEntry at h
    split at h
    · simpa using h
    · rcases List.mem_cons.mp h with h | h
      · exact .inl h
      · exact .inr (List.mem_cons_of_mem _ h)
    · rcases List.mem_cons.mp h with h | h
      · exact .inr (h ▸ List.mem_cons_self)
      · exact (ih h).imp id (List.mem_cons_of_mem _)

section Lawful

variable [Std.TransOrd κ] [Std.LawfulEqOrd κ]

theorem ascending_insertEntry (k : κ) (v : ν) {l : List (κ × ν)} (h : Ascending l) :
    Ascending (insertEntry k v l) := by
  induction l with
  | nil => exact List.pairwise_singleton _ _
  | cons x rest ih =>
    obtain ⟨hx, hrest⟩ := List.pairwise_cons.mp h
    unfold insertEntry
    split
    case h_1 hlt =>
      refine List.pairwise_cons.mpr ⟨fun e he => ?_, h⟩
      rcases List.mem_cons.mp he with rfl | he
      · exact hlt
      · exact Std.TransCmp.lt_trans hlt (hx e he)
    case h_2 heq =>
      have : k = x.1 := Std.LawfulEqOrd.eq_of_compare heq
      exact List.pairwise_cons.mpr ⟨fun e he => this ▸ hx e he, hrest⟩
    case h_3 hgt =>
      refine List.pairwise_cons.mpr ⟨fun e he => ?_, ih hrest⟩
      rcases mem_insertEntry he with rfl | he
      · exact Std.OrientedCmp.lt_of_gt hgt
      · exact hx e he

def insert (m : OrderedMap κ ν) (k : κ) (v : ν) : OrderedMap κ ν :=
  ⟨insertEntry k v m.toList, ascending_insertEntry k v m.ascending⟩

/-- The map of `entries`, where the last entry of a key counts. -/
def ofList (entries : List (κ × ν)) : OrderedMap κ ν :=
  entries.foldl (fun m e => m.insert e.1 e.2) ∅

end Lawful

def get? (m : OrderedMap κ ν) (k : κ) : Option ν :=
  (m.toList.find? fun e => compare k e.1 == .eq).map (·.2)

def contains (m : OrderedMap κ ν) (k : κ) : Bool :=
  (m.get? k).isSome

def size (m : OrderedMap κ ν) : Nat := m.toList.length

def keys (m : OrderedMap κ ν) : List κ := m.toList.map (·.1)

def values (m : OrderedMap κ ν) : List ν := m.toList.map (·.2)

@[simp] theorem toList_empty : (∅ : OrderedMap κ ν).toList = [] := rfl

@[simp] theorem get?_empty (k : κ) : (∅ : OrderedMap κ ν).get? k = none := rfl

section Lawful

variable [Std.TransOrd κ] [Std.LawfulEqOrd κ]

/-- Binds `k` to what `f` makes of its present value. -/
def alter (m : OrderedMap κ ν) (k : κ) (f : Option ν → ν) : OrderedMap κ ν :=
  m.insert k (f (m.get? k))

@[simp] theorem toList_insert (m : OrderedMap κ ν) (k : κ) (v : ν) :
    (m.insert k v).toList = insertEntry k v m.toList := rfl

theorem get?_insert_self (m : OrderedMap κ ν) (k : κ) (v : ν) : (m.insert k v).get? k = some v := by
  have key : ∀ l : List (κ × ν), (insertEntry k v l).find? (fun e => compare k e.1 == .eq) = some (k, v) := by
    intro l
    induction l with
    | nil => simp [insertEntry]
    | cons x rest ih =>
      unfold insertEntry
      split
      · simp
      · simp
      case h_3 hgt => simp [hgt, ih]
  simp [get?, key]

theorem get?_insert_of_ne (m : OrderedMap κ ν) {k j : κ} (v : ν) (h : j ≠ k) :
    (m.insert k v).get? j = m.get? j := by
  have hjk : (compare j k == .eq) = false := by
    cases hc : compare j k == .eq
    · rfl
    · exact absurd (Std.LawfulEqOrd.eq_of_compare (eq_of_beq hc)) h
  have key : ∀ l : List (κ × ν), (insertEntry k v l).find? (fun e => compare j e.1 == .eq) =
      l.find? (fun e => compare j e.1 == .eq) := by
    intro l
    induction l with
    | nil => simp [insertEntry, hjk]
    | cons x rest ih =>
      unfold insertEntry
      split
      · simp [List.find?_cons, hjk]
      case h_2 heq =>
        have : k = x.1 := Std.LawfulEqOrd.eq_of_compare heq
        simp [hjk, ← this]
      · simp [List.find?_cons, ih]
  simp [get?, key]

end Lawful

end OrderedMap

end Mapf
