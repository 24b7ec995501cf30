import Mapf.Proofs.Queue.Sift
import Mathlib.Data.List.Nodup

/-! # What a queue holds

A queue holds a finite map from keys to entries (`find?`). Every operation of a valid queue keeps it
valid and changes that map as its name says: `insert` adds an entry with the next number, `update`
changes one payload, and the entry taken out first is one that no other entry precedes. -/

namespace Mapf.Queue

section View

variable {κ π : Type} [BEq κ] [Hashable κ]

/-- The entries in the order of the heap. -/
def toList (q : Queue κ π) : List (Entry κ π) := q.heap.toList

/-- The entry of key `k`. -/
def find? (q : Queue κ π) (k : κ) : Option (Entry κ π) := q.index[k]?.bind fun pos => q.heap[pos]?

theorem get?_eq_map (q : Queue κ π) (k : κ) : q.get? k = (q.find? k).map Entry.payload := by
  unfold get? find?
  cases q.index[k]? with
  | none => rfl
  | some pos => cases h : q.heap[pos]? <;> simp [h]

theorem Indexed.find?_eq_some_iff {q : Queue κ π} (hq : q.Indexed) {k : κ} {e : Entry κ π} :
    q.find? k = some e ↔ e ∈ q.toList ∧ e.key = k := by
  unfold find? toList
  rw [Option.bind_eq_some_iff, List.mem_iff_getElem?]
  constructor
  · rintro ⟨pos, hpos, he⟩
    have := (hq k pos).mp hpos
    rw [he] at this
    exact ⟨⟨pos, by simpa using he⟩, Option.some.inj this⟩
  · rintro ⟨⟨pos, hpos⟩, rfl⟩
    have he : q.heap[pos]? = some e := by simpa using hpos
    exact ⟨pos, (hq _ pos).mpr (by rw [he]; rfl), he⟩

theorem Indexed.index_eq_none {q : Queue κ π} (hq : q.Indexed) {k : κ} (hk : q.find? k = none) :
    q.index[k]? = none := by
  cases h : q.index[k]? with
  | none => rfl
  | some pos =>
    obtain ⟨e, he, -⟩ := Option.map_eq_some_iff.mp ((hq k pos).mp h)
    simp [find?, h, he] at hk

theorem Indexed.contains_eq [LawfulBEq κ] {q : Queue κ π} (hq : q.Indexed) (k : κ) :
    q.contains k = (q.find? k).isSome := by
  unfold contains find?
  rw [Std.HashMap.contains_eq_isSome_getElem?]
  cases h : q.index[k]? with
  | none => rfl
  | some pos =>
    obtain ⟨e, he, -⟩ := Option.map_eq_some_iff.mp ((hq k pos).mp h)
    simp [he]

/-- The same entries give the same map. -/
theorem find?_congr {q q' : Queue κ π} (hq : q.Indexed) (hq' : q'.Indexed)
    (h : ∀ e, e ∈ q'.toList ↔ e ∈ q.toList) (k : κ) : q'.find? k = q.find? k := by
  ext e
  rw [hq.find?_eq_some_iff, hq'.find?_eq_some_iff, h]

theorem Rearranged.find?_eq {q q' : Queue κ π} (h : Rearranged q q') (hq : q.Indexed) (k : κ) :
    q'.find? k = q.find? k :=
  find?_congr hq (h.indexed hq) (fun _ => h.perm.mem_iff) k

theorem precedes_congr {ρ : Type} [Prioritized π ρ] [LT ρ] [DecidableLT ρ] {q q' : Queue κ π} {i j : Nat}
    (hi : q'.heap[i]? = q.heap[i]?) (hj : q'.heap[j]? = q.heap[j]?) : q'.precedes i j = q.precedes i j := by
  simp only [precedes, hi, hj]

theorem precedes_of_size_le {ρ : Type} [Prioritized π ρ] [LT ρ] [DecidableLT ρ] {q : Queue κ π} {i : Nat}
    (h : q.heap.size ≤ i) (j : Nat) : q.precedes i j = false := by
  simp [precedes, Array.getElem?_eq_none h]

/-- A heap in order that was changed at one position, or lost its last ones, is in order around that position. -/
theorem Ordered.around_of_same {ρ : Type} [Prioritized π ρ] [LT ρ] [DecidableLT ρ] [IsStrictTotalOrder ρ (· < ·)]
    {q q' : Queue κ π} {pos : Nat} (h : q.Ordered) (hpos : pos < q.heap.size)
    (hsame : ∀ i, i ≠ pos → i < q'.heap.size → q'.heap[i]? = q.heap[i]?) : OrderedAround q' pos := by
  obtain ⟨hoff, hgrand⟩ := h.around pos hpos
  constructor
  · intro c p hc hcp hpp
    by_cases hlt : c < q'.heap.size
    · have hp : p < q'.heap.size := by rw [isChild_iff] at hc; omega
      rw [precedes_congr (hsame c hcp hlt) (hsame p hpp hp)]
      exact hoff hc hcp hpp
    · exact precedes_of_size_le (by omega) _
  · intro c p hc hp
    by_cases hlt : c < q'.heap.size
    · have hcp : c ≠ pos ∧ p ≠ pos ∧ p < q'.heap.size := by rw [isChild_iff] at hc hp; omega
      rw [precedes_congr (hsame c hcp.1 hlt) (hsame p hcp.2.1 hcp.2.2)]
      exact hgrand hc hp
    · exact precedes_of_size_le (by omega) _

end View

variable {κ π ρ : Type} [BEq κ] [Hashable κ] [LawfulBEq κ] [Prioritized π ρ] [LT ρ] [DecidableLT ρ]

/-- The index is right, the heap is in order, and every entry has a number of its own that was given
    out before. -/
structure Valid (q : Queue κ π) : Prop where
  indexed : q.Indexed
  ordered : q.Ordered
  numbered : ∀ e ∈ q.toList, e.seq < q.nextSeq
  distinct : (q.toList.map Entry.seq).Nodup

theorem valid_clear (q : Queue κ π) : q.clear.Valid where
  indexed k i := by simp [clear]
  ordered c p _ := by simp [precedes, clear]
  numbered e he := by simp [toList, clear] at he
  distinct := by simp [toList, clear]

theorem find?_clear (q : Queue κ π) (k : κ) : q.clear.find? k = none := by
  simp [find?, clear]

theorem valid_empty : (empty : Queue κ π).Valid := valid_clear empty

theorem find?_empty (k : κ) : (empty : Queue κ π).find? k = none := find?_clear empty k

omit [LawfulBEq κ] in
/-- No two entries share a key. -/
theorem Valid.nodup_keys {q : Queue κ π} (hq : q.Valid) : (q.toList.map Entry.key).Nodup := by
  refine (List.nodup_map_iff_inj_on (List.Nodup.of_map _ hq.distinct)).mpr fun a ha b hb hab => ?_
  have h₁ := hq.indexed.find?_eq_some_iff.mpr ⟨ha, rfl⟩
  have h₂ := hq.indexed.find?_eq_some_iff.mpr ⟨hb, hab.symm⟩
  exact Option.some.inj (h₁.symm.trans h₂)

omit [LawfulBEq κ] in
/-- One entry more or less leaves the entries of the other keys. -/
theorem Valid.find?_of_perm {q q' : Queue κ π} (hq : q.Valid) (hq' : q'.Valid) {e : Entry κ π}
    (h : q.toList.Perm (e :: q'.toList)) : q.find? e.key = some e ∧ q'.find? e.key = none ∧
      ∀ j, j ≠ e.key → q'.find? j = q.find? j := by
  refine ⟨hq.indexed.find?_eq_some_iff.mpr ⟨h.mem_iff.mpr List.mem_cons_self, rfl⟩, ?_, fun j hj => ?_⟩
  · rw [Option.eq_none_iff_forall_ne_some]
    intro d hd
    obtain ⟨hmem, hkey⟩ := hq'.indexed.find?_eq_some_iff.mp hd
    have hnodup := (h.map Entry.key).nodup_iff.mp hq.nodup_keys
    exact (List.nodup_cons.mp hnodup).1 (hkey ▸ List.mem_map_of_mem hmem)
  · ext d
    rw [hq.indexed.find?_eq_some_iff, hq'.indexed.find?_eq_some_iff, h.mem_iff, List.mem_cons]
    constructor
    · rintro ⟨hd, hkey⟩
      exact ⟨.inr hd, hkey⟩
    · rintro ⟨rfl | hd, hkey⟩
      · exact absurd hkey.symm hj
      · exact ⟨hd, hkey⟩

/-! ### Insertion -/

section Insert

variable {q : Queue κ π} {k : κ} {p : π}

/-- The queue with a new entry at the end of the heap, not yet in order. -/
private def append (q : Queue κ π) (k : κ) (p : π) : Queue κ π where
  heap := q.heap.push ⟨k, p, q.nextSeq⟩
  index := q.index.insert k q.heap.size
  nextSeq := q.nextSeq + 1

omit [LawfulBEq κ] in
private theorem toList_append : (q.append k p).toList = q.toList ++ [⟨k, p, q.nextSeq⟩] := by
  simp [append, toList]

private theorem indexed_append (hq : q.Indexed) (hk : q.find? k = none) : (q.append k p).Indexed := by
  have hfresh : ∀ e ∈ q.toList, e.key ≠ k := fun e he hek => by
    simp [hq.find?_eq_some_iff.mpr ⟨he, hek⟩] at hk
  intro j i
  show (q.index.insert k q.heap.size)[j]? = some i ↔ (q.heap.push _)[i]?.map Entry.key = some j
  rw [Std.HashMap.getElem?_insert, Array.getElem?_push]
  by_cases hkj : k = j
  · subst hkj
    simp only [beq_self_eq_true, ↓reduceIte, Option.some.injEq]
    constructor
    · rintro rfl
      simp
    · intro h
      by_contra hne
      rw [if_neg (Ne.symm hne)] at h
      obtain ⟨e, he, hek⟩ := Option.map_eq_some_iff.mp h
      exact hfresh e (Array.mem_toList_iff.mpr (Array.mem_of_getElem? he)) hek
  · rw [if_neg (by simpa using hkj), hq j i]
    by_cases hi : i = q.heap.size
    · simp [hi, hkj]
    · rw [if_neg hi]

omit [LawfulBEq κ] in
private theorem orderedAround_append (hq : q.Ordered) :
    OrderedAround (q.append k p) q.heap.size ∧ Below (q.append k p) q.heap.size := by
  have hsize : (q.append k p).heap.size = q.heap.size + 1 := by simp [append]
  have hsame : ∀ i, i ≠ q.heap.size → (q.append k p).heap[i]? = q.heap[i]? := fun i hi => by
    simp [append, Array.getElem?_push, hi]
  have hout : ∀ c, IsChild c q.heap.size → (q.append k p).heap.size ≤ c := fun c hc => by
    rw [isChild_iff] at hc
    omega
  refine ⟨⟨fun hc hcs hps => ?_, fun hc _ => precedes_of_size_le (hout _ hc) _⟩,
    fun c hc => precedes_of_size_le (hout c hc) _⟩
  rw [precedes_congr (hsame _ hcs) (hsame _ hps)]
  exact hq _ _ hc

theorem insert_of_present (hq : q.Indexed) (hk : (q.find? k).isSome) : q.insert k p = .error .duplicateKey := by
  have : q.index.contains k = true := by
    have := hq.contains_eq k
    rwa [hk] at this
  simp [Queue.insert, this]

variable [IsStrictTotalOrder ρ (· < ·)]

/-- A fresh key can be inserted; its entry takes the next number. -/
theorem Valid.insert (hq : q.Valid) (hk : q.find? k = none) (p : π) :
    ∃ q', q.insert k p = .ok q' ∧ q'.Valid ∧ q'.nextSeq = q.nextSeq + 1 ∧
      q'.toList.Perm (⟨k, p, q.nextSeq⟩ :: q.toList) := by
  have hr : Rearranged (q.append k p) ((q.append k p).siftUp q.heap.size).1 := rearranged_siftUp _ _
  have hperm : ((q.append k p).siftUp q.heap.size).1.toList.Perm (⟨k, p, q.nextSeq⟩ :: q.toList) := by
    refine hr.perm.trans ?_
    rw [← toList, toList_append]
    exact List.perm_append_singleton _ _
  obtain ⟨ha, hb⟩ := orderedAround_append (k := k) (p := p) hq.ordered
  refine ⟨_, ?_, ⟨hr.indexed (indexed_append hq.indexed hk), ordered_siftUp ha hb, fun e he => ?_, ?_⟩,
    hr.nextSeq, hperm⟩
  · have hnc : q.index.contains k = false := by
      have := hq.indexed.contains_eq k
      rwa [hk] at this
    simp only [Queue.insert, hnc, Bool.false_eq_true, ↓reduceIte]
    rfl
  · rw [hr.nextSeq]
    show e.seq < q.nextSeq + 1
    rcases List.mem_cons.mp (hperm.mem_iff.mp he) with rfl | he
    · exact Nat.lt_succ_self _
    · exact Nat.lt_succ_of_lt (hq.numbered e he)
  · refine (hperm.map Entry.seq).nodup_iff.mpr (List.nodup_cons.mpr ⟨fun hmem => ?_, hq.distinct⟩)
    obtain ⟨e, he, heq⟩ := List.mem_map.mp hmem
    have := hq.numbered e he
    have : e.seq = q.nextSeq := heq
    omega

end Insert

/-! ### Change -/

section Update

variable {q : Queue κ π} {k : κ} {f : π → π} {pos : Nat}

/-- The queue with another payload at a position, not yet in order. -/
private def modifyAt (q : Queue κ π) (pos : Nat) (f : π → π) : Queue κ π :=
  { q with heap := q.heap.modify pos fun entry => { entry with payload := f entry.payload } }

omit [LawfulBEq κ] in
private theorem getElem?_modifyAt (i : Nat) : (q.modifyAt pos f).heap[i]? =
    q.heap[i]?.map fun e => if pos = i then { e with payload := f e.payload } else e := by
  simp only [modifyAt, Array.getElem?_modify]
  split <;> simp

omit [LawfulBEq κ] in
private theorem indexed_modifyAt (hq : q.Indexed) : (q.modifyAt pos f).Indexed := by
  intro j i
  rw [getElem?_modifyAt, Option.map_map, show (q.modifyAt pos f).index = q.index from rfl, hq j i]
  suffices Entry.key ∘ (fun e => if pos = i then { e with payload := f e.payload } else e) =
      (Entry.key : Entry κ π → κ) by rw [this]
  funext e
  simp only [Function.comp_apply]
  split <;> rfl

omit [LawfulBEq κ] in
private theorem map_seq_modifyAt : (q.modifyAt pos f).toList.map Entry.seq = q.toList.map Entry.seq := by
  refine List.ext_getElem? fun i => ?_
  have h : (q.modifyAt pos f).heap[i]? = _ := getElem?_modifyAt i
  simp only [toList, List.getElem?_map, Array.getElem?_toList] at h ⊢
  rw [h, Option.map_map]
  congr 1
  funext e
  simp only [Function.comp_apply]
  split <;> rfl

omit [LawfulBEq κ] in
private theorem orderedAround_modifyAt [IsStrictTotalOrder ρ (· < ·)] (hq : q.Ordered)
    (hpos : pos < q.heap.size) : OrderedAround (q.modifyAt pos f) pos :=
  hq.around_of_same hpos fun i hi _ => by simp [getElem?_modifyAt, Ne.symm hi]

private theorem find?_modifyAt (hq : q.Indexed) (hpos : q.index[k]? = some pos) (j : κ) :
    (q.modifyAt pos f).find? j =
      (q.find? j).map fun e => if e.key == k then { e with payload := f e.payload } else e := by
  unfold find?
  rw [show (q.modifyAt pos f).index = q.index from rfl]
  cases hj : q.index[j]? with
  | none => rfl
  | some i =>
    obtain ⟨e, he, hek⟩ := Option.map_eq_some_iff.mp ((hq j i).mp hj)
    obtain ⟨e', he', hek'⟩ := Option.map_eq_some_iff.mp ((hq k pos).mp hpos)
    have hiff : pos = i ↔ e.key = k := by
      constructor
      · rintro rfl
        rw [← hek', Option.some.inj (he.symm.trans he')]
      · intro h
        rw [← hek, h, hpos] at hj
        exact Option.some.inj hj
    simp only [Option.bind_some, getElem?_modifyAt, he, Option.map_some]
    by_cases h : pos = i
    · rw [if_pos h, if_pos (by simpa using hiff.mp h)]
    · rw [if_neg h, if_neg (by simpa using mt hiff.mpr h)]

omit [LawfulBEq κ] in
theorem update_of_absent {q : Queue κ π} {k : κ} (hq : q.Indexed) (hk : q.find? k = none) (f : π → π) :
    q.update k f = .error .missingKey := by
  simp [Queue.update, hq.index_eq_none hk]

theorem length_update {q q' : Queue κ π} {k : κ} {f : π → π} (h : q.update k f = .ok q') :
    q'.toList.length = q.toList.length := by
  unfold Queue.update at h
  split at h
  · cases h
  case h_2 pos hpos =>
    cases h
    have hr : Rearranged (q.modifyAt pos f) ((q.modifyAt pos f).repair pos) := rearranged_repair _ _
    refine hr.perm.length_eq.trans ?_
    simp [modifyAt, toList]

variable [IsStrictTotalOrder ρ (· < ·)]

/-- The payload of a present key can be changed; the entry keeps its number. -/
theorem Valid.update (hq : q.Valid) (hk : (q.find? k).isSome) (f : π → π) :
    ∃ q', q.update k f = .ok q' ∧ q'.Valid ∧ q'.nextSeq = q.nextSeq ∧
      ∀ j, q'.find? j = (q.find? j).map fun e => if e.key == k then { e with payload := f e.payload } else e := by
  obtain ⟨e, he⟩ := Option.isSome_iff_exists.mp hk
  obtain ⟨pos, hpos, hget⟩ := Option.bind_eq_some_iff.mp he
  have hsize : pos < q.heap.size := (Array.getElem?_eq_some_iff.mp hget).1
  have hi : (q.modifyAt pos f).Indexed := indexed_modifyAt hq.indexed
  have hr : Rearranged (q.modifyAt pos f) ((q.modifyAt pos f).repair pos) := rearranged_repair _ _
  have hseq : (((q.modifyAt pos f).repair pos).toList.map Entry.seq).Perm (q.toList.map Entry.seq) := by
    have := hr.perm.map Entry.seq
    rwa [← toList, ← toList, map_seq_modifyAt] at this
  refine ⟨(q.modifyAt pos f).repair pos, by simp only [Queue.update, hpos]; rfl,
    ⟨hr.indexed hi, ordered_repair (orderedAround_modifyAt hq.ordered hsize) (by simpa [modifyAt] using hsize),
      fun e he => ?_, hseq.nodup_iff.mpr hq.distinct⟩, hr.nextSeq, fun j => ?_⟩
  · obtain ⟨e', he', heq⟩ := List.mem_map.mp (hseq.mem_iff.mp (List.mem_map_of_mem he))
    rw [hr.nextSeq, ← heq]
    exact hq.numbered e' he'
  · rw [hr.find?_eq hi, find?_modifyAt hq.indexed hpos]

end Update

/-! ### Removal -/

section Remove

variable {q : Queue κ π} {pos : Nat}

/-- The queue without its last entry, that of key `k`. -/
private def dropLast (q : Queue κ π) (k : κ) : Queue κ π :=
  { q with heap := q.heap.pop, index := q.index.erase k }

private theorem indexed_dropLast (hq : q.Indexed) {e : Entry κ π} (he : q.heap.back? = some e) :
    (q.dropLast e.key).Indexed := by
  rw [Array.back?_eq_getElem?] at he
  have hlast : q.index[e.key]? = some (q.heap.size - 1) := (hq _ _).mpr (by rw [he]; rfl)
  intro j i
  show (q.index.erase e.key)[j]? = some i ↔ q.heap.pop[i]?.map Entry.key = some j
  rw [Std.HashMap.getElem?_erase, Array.getElem?_pop]
  by_cases hj : e.key = j
  · subst hj
    rw [if_pos (by simp)]
    refine ⟨(nomatch ·), fun h => ?_⟩
    split at h
    case isTrue hi =>
      have := Option.some.inj (((hq _ i).mpr h).symm.trans hlast)
      omega
    case isFalse => cases h
  · rw [if_neg (by simpa using hj), hq j i]
    split
    case isTrue => rfl
    case isFalse hi =>
      refine ⟨fun h => ?_, (nomatch ·)⟩
      have : i = q.heap.size - 1 := by
        obtain ⟨e', he', -⟩ := Option.map_eq_some_iff.mp h
        have := (Array.getElem?_eq_some_iff.mp he').1
        omega
      rw [this, he] at h
      exact absurd (Option.some.inj h) hj

omit [LawfulBEq κ] in
private theorem orderedAround_dropLast [IsStrictTotalOrder ρ (· < ·)] (hq : q.Ordered) (k : κ)
    (hpos : pos < q.heap.size) : OrderedAround ((q.swap pos (q.heap.size - 1)).dropLast k) pos := by
  have hlast : q.heap.size - 1 < q.heap.size := by omega
  refine hq.around_of_same hpos fun i hi hlt => ?_
  -- Away from `pos`, what is left of the heap is as it was.
  have hlt' : i < q.heap.size - 1 := by simpa [dropLast] using hlt
  show (q.swap pos (q.heap.size - 1)).heap.pop[i]? = _
  rw [Array.getElem?_pop, size_heap_swap, if_pos hlt', getElem?_heap_swap hpos hlast,
    Equiv.swap_apply_of_ne_of_ne hi (by omega)]

variable [IsStrictTotalOrder ρ (· < ·)]

/-- Taking out the entry at a position leaves exactly the others. -/
theorem Valid.removeAt (hq : q.Valid) (hpos : pos < q.heap.size) :
    ∃ q', q.removeAt pos = some (q.heap[pos], q') ∧ q'.Valid ∧ q'.nextSeq = q.nextSeq ∧
      q.toList.Perm (q.heap[pos] :: q'.toList) := by
  have hlast : q.heap.size - 1 < q.heap.size := by omega
  have hback : (q.swap pos (q.heap.size - 1)).heap.back? = some q.heap[pos] := by
    rw [Array.back?_eq_getElem?, size_heap_swap, getElem?_heap_swap hpos hlast, Equiv.swap_apply_right,
      Array.getElem?_eq_getElem hpos]
  have hswap := rearranged_swap (q := q) hpos hlast
  have hi := indexed_dropLast (hswap.indexed hq.indexed) hback
  have ha := orderedAround_dropLast hq.ordered q.heap[pos].key hpos
  have hsize : ((q.swap pos (q.heap.size - 1)).dropLast q.heap[pos].key).heap.size = q.heap.size - 1 := by
    simp [dropLast]
  have hperm : q.toList.Perm
      (q.heap[pos] :: ((q.swap pos (q.heap.size - 1)).dropLast q.heap[pos].key).toList) := by
    refine hswap.perm.symm.trans ?_
    obtain ⟨xs, hxs⟩ := Array.back?_eq_some_iff.mp hback
    rw [toList, dropLast, hxs]
    simp only [Array.toList_push, Array.pop_push]
    exact List.perm_append_singleton _ _
  -- The place of the last entry stays in order by itself; any other place is repaired.
  obtain ⟨q', hq', hr, ho⟩ : ∃ q', q.removeAt pos = some (q.heap[pos], q') ∧
      Rearranged ((q.swap pos (q.heap.size - 1)).dropLast q.heap[pos].key) q' ∧ q'.Ordered := by
    by_cases hlt : pos < q.heap.size - 1
    · refine ⟨((q.swap pos (q.heap.size - 1)).dropLast q.heap[pos].key).repair pos, ?_, rearranged_repair _ _,
        ordered_repair ha (by omega)⟩
      simp only [Queue.removeAt, hback, Option.bind_eq_bind, Option.bind_some]
      rw [if_pos (by simpa using hlt)]
      rfl
    · refine ⟨(q.swap pos (q.heap.size - 1)).dropLast q.heap[pos].key, ?_, .refl _, fun c p hc => ?_⟩
      · simp only [Queue.removeAt, hback, Option.bind_eq_bind, Option.bind_some]
        rw [if_neg (by simpa using hlt)]
        rfl
      · by_cases hcp : c < q.heap.size - 1
        · have hpc : p < c := by rw [isChild_iff] at hc; omega
          exact ha.off hc (by omega) (by omega)
        · exact precedes_of_size_le (by omega) _
  have hall : q.toList.Perm (q.heap[pos] :: q'.toList) := hperm.trans (hr.perm.symm.cons _)
  have hnext : q'.nextSeq = q.nextSeq := hr.nextSeq.trans hswap.nextSeq
  refine ⟨q', hq', ⟨hr.indexed hi, ho, fun e he => ?_, ?_⟩, hnext, hall⟩
  · rw [hnext]
    exact hq.numbered e (hall.mem_iff.mpr (List.mem_cons_of_mem _ he))
  · exact (List.nodup_cons.mp ((hall.map Entry.seq).nodup_iff.mp hq.distinct)).2

omit [LawfulBEq κ] in
theorem precedes_root {q : Queue κ π} (hq : q.Ordered) (i : Nat) : q.precedes i 0 = false := by
  induction i using Nat.strongRecOn with
  | ind i ih =>
    rcases Nat.eq_zero_or_pos i with rfl | hi
    · exact precedes_irrefl q 0
    by_cases hsize : i < q.heap.size
    · exact not_precedes_trans (by omega) (hq i _ ⟨hi, rfl⟩) (ih ((i - 1) / 2) (by omega))
    · exact precedes_of_size_le (by omega) _

/-- The entry that is popped is one that no entry precedes, and exactly the others are left. -/
theorem Valid.popMin (hq : q.Valid) {k : κ} {p : π} {q' : Queue κ π} (h : q.popMin = .ok ((k, p), q')) :
    q'.Valid ∧ q'.nextSeq = q.nextSeq ∧ ∃ seq, q.toList.Perm (⟨k, p, seq⟩ :: q'.toList) ∧
      ∀ e ∈ q.toList, e.precedes ⟨k, p, seq⟩ = false := by
  have hpos : 0 < q.heap.size := by
    by_contra hn
    have : q.heap = #[] := Array.eq_empty_of_size_eq_zero (by omega)
    simp [Queue.popMin, Queue.removeAt, Queue.swap, this] at h
  obtain ⟨r, hr, hv, hn, hperm⟩ := hq.removeAt hpos
  simp only [Queue.popMin, hr, Except.ok.injEq, Prod.mk.injEq] at h
  obtain ⟨⟨rfl, rfl⟩, rfl⟩ := h
  refine ⟨hv, hn, q.heap[0].seq, hperm, fun e he => ?_⟩
  obtain ⟨i, hi⟩ := List.mem_iff_getElem?.mp he
  have hi' : q.heap[i]? = some e := by simpa [toList] using hi
  have := precedes_root hq.ordered i
  simpa [precedes, hi', hpos] using this

/-- Popping fails exactly when nothing is left. -/
theorem Valid.popMin_eq_error_iff (hq : q.Valid) {err : QueueError} :
    q.popMin = .error err ↔ q.toList = [] ∧ err = .empty := by
  by_cases hpos : 0 < q.heap.size
  · obtain ⟨r, hr, -⟩ := hq.removeAt hpos
    have : q.toList ≠ [] := by
      simpa [toList, ← List.length_eq_zero_iff] using Nat.pos_iff_ne_zero.mp hpos
    simp [Queue.popMin, hr, this]
  · have : q.heap = #[] := Array.eq_empty_of_size_eq_zero (by omega)
    simp [Queue.popMin, Queue.removeAt, Queue.swap, this, toList, eq_comm]

/-- Popping says that nothing is left, or takes out the entry that leaves before all others. -/
theorem Valid.popMin_cases (hq : q.Valid) : q.popMin = .error .empty ∧ q.toList = [] ∨
    ∃ e q', q.popMin = .ok ((e.key, e.payload), q') ∧ q'.Valid ∧ q'.nextSeq = q.nextSeq ∧
      q.toList.Perm (e :: q'.toList) ∧ ∀ d ∈ q'.toList, e.precedes d = true := by
  cases hpop : q.popMin with
  | error err =>
    obtain ⟨hnil, rfl⟩ := hq.popMin_eq_error_iff.mp hpop
    exact .inl ⟨rfl, hnil⟩
  | ok popped =>
    obtain ⟨⟨k, p⟩, q'⟩ := popped
    obtain ⟨hv, hn, seq, hperm, hmin⟩ := hq.popMin hpop
    refine .inr ⟨⟨k, p, seq⟩, q', rfl, hv, hn, hperm, fun d hd => ?_⟩
    -- Entries that do not precede each other would share a number.
    by_contra hnot
    have hlevel := Entry.level (by simpa using hnot) (hmin d (hperm.mem_iff.mpr (List.mem_cons_of_mem _ hd)))
    have hnodup := (hperm.map Entry.seq).nodup_iff.mp hq.distinct
    exact (List.nodup_cons.mp hnodup).1 (hlevel.2 ▸ List.mem_map_of_mem hd)

/-- Looking at the first entry shows what popping takes out. -/
theorem Valid.peekMin_eq (hq : q.Valid) : q.peekMin = q.popMin.map Prod.fst := by
  unfold peekMin
  by_cases hpos : 0 < q.heap.size
  · obtain ⟨r, hr, -⟩ := hq.removeAt hpos
    rw [Array.getElem?_eq_getElem hpos]
    simp only [Queue.popMin, hr, Except.map]
  · have hnil : q.heap = #[] := Array.eq_empty_of_size_eq_zero (by omega)
    rw [hq.popMin_eq_error_iff.mpr ⟨by rw [toList, hnil], rfl⟩, hnil]
    rfl

omit [LawfulBEq κ] [IsStrictTotalOrder ρ (· < ·)] in
theorem remove_of_absent {q : Queue κ π} {k : κ} (hq : q.Indexed) (hk : q.find? k = none) : q.remove k = none := by
  rw [Queue.remove, hq.index_eq_none hk]
  rfl

/-- Removing a key takes out its entry and leaves exactly the others. -/
theorem Valid.remove {k : κ} {e : Entry κ π} (hq : q.Valid) (hk : q.find? k = some e) :
    ∃ q', q.remove k = some (e.payload, q') ∧ q'.Valid ∧ q'.nextSeq = q.nextSeq ∧
      q.toList.Perm (e :: q'.toList) := by
  obtain ⟨pos, hpos, hget⟩ := Option.bind_eq_some_iff.mp hk
  obtain ⟨hlt, rfl⟩ := Array.getElem?_eq_some_iff.mp hget
  obtain ⟨q', hr, hrest⟩ := hq.removeAt hlt
  refine ⟨q', ?_, hrest⟩
  simp only [Queue.remove, hpos, hr, Option.bind_eq_bind, Option.bind_some]
  rfl

end Remove

/-! ### Payloads by key -/

section Payloads

variable {q q' : Queue κ π} {k j : κ} {p : π}

omit [LawfulBEq κ] [Prioritized π ρ] [LT ρ] [DecidableLT ρ] in
theorem get?_eq_none_iff : q.get? k = none ↔ q.find? k = none := by
  rw [get?_eq_map, Option.map_eq_none_iff]

theorem get?_empty (k : κ) : (empty : Queue κ π).get? k = none :=
  get?_eq_none_iff.mpr (find?_empty k)

omit [Prioritized π ρ] [LT ρ] [DecidableLT ρ] in
theorem Indexed.contains_iff (hq : q.Indexed) : q.contains k = true ↔ (q.get? k).isSome := by
  rw [hq.contains_eq, get?_eq_map, Option.isSome_map]

omit [LawfulBEq κ] in
theorem Valid.get?_eq_some_iff (hq : q.Valid) : q.get? k = some p ↔ ∃ e ∈ q.toList, e.key = k ∧ e.payload = p := by
  rw [get?_eq_map, Option.map_eq_some_iff]
  constructor
  · rintro ⟨e, he, hp⟩
    obtain ⟨hmem, hk⟩ := hq.indexed.find?_eq_some_iff.mp he
    exact ⟨e, hmem, hk, hp⟩
  · rintro ⟨e, hmem, hk, hp⟩
    exact ⟨e, hq.indexed.find?_eq_some_iff.mpr ⟨hmem, hk⟩, hp⟩

omit [LawfulBEq κ] in
/-- One entry more or less leaves the payloads of the other keys. -/
theorem Valid.get?_of_perm (hq : q.Valid) (hq' : q'.Valid) {e : Entry κ π} (h : q.toList.Perm (e :: q'.toList))
    (hj : j ≠ e.key) : q'.get? j = q.get? j := by
  rw [get?_eq_map, get?_eq_map, (hq.find?_of_perm hq' h).2.2 j hj]

variable [IsStrictTotalOrder ρ (· < ·)]

theorem Valid.get?_insert (hq : q.Valid) (hk : q.get? k = none) (p : π) :
    ∃ q', q.insert k p = .ok q' ∧ q'.Valid ∧ q'.get? k = some p ∧ ∀ j, j ≠ k → q'.get? j = q.get? j := by
  obtain ⟨q', hi, hv, -, hperm⟩ := hq.insert (get?_eq_none_iff.mp hk) p
  exact ⟨q', hi, hv, hv.get?_eq_some_iff.mpr ⟨_, hperm.mem_iff.mpr List.mem_cons_self, rfl, rfl⟩,
    fun j hj => (hv.get?_of_perm hq hperm hj).symm⟩

theorem Valid.get?_update (hq : q.Valid) (hk : q.get? k = some p) (f : π → π) :
    ∃ q', q.update k f = .ok q' ∧ q'.Valid ∧ q'.get? k = some (f p) ∧ ∀ j, j ≠ k → q'.get? j = q.get? j := by
  rw [get?_eq_map] at hk
  obtain ⟨e, he, rfl⟩ := Option.map_eq_some_iff.mp hk
  obtain ⟨-, rfl⟩ := hq.indexed.find?_eq_some_iff.mp he
  obtain ⟨q', hu, hv, -, hentry⟩ := hq.update (Option.isSome_iff_exists.mpr ⟨e, he⟩) f
  refine ⟨q', hu, hv, by simp [get?_eq_map, hentry, he], fun j hj => ?_⟩
  rw [get?_eq_map, get?_eq_map, hentry]
  cases hq' : q.find? j with
  | none => rfl
  | some e' =>
    have : e'.key ≠ e.key := (hq.indexed.find?_eq_some_iff.mp hq').2 ▸ hj
    simp [this]

theorem Valid.get?_popMin (hq : q.Valid) (h : q.popMin = .ok ((k, p), q')) :
    q'.Valid ∧ q.get? k = some p ∧ q'.get? k = none ∧ (∀ j, j ≠ k → q'.get? j = q.get? j) ∧
      ∀ j p', q.get? j = some p' → ¬Prioritized.priority p' < Prioritized.priority p := by
  obtain ⟨hv, -, seq, hperm, hmin⟩ := hq.popMin h
  have hk : q.get? k = some p := hq.get?_eq_some_iff.mpr ⟨_, hperm.mem_iff.mpr List.mem_cons_self, rfl, rfl⟩
  refine ⟨hv, hk, get?_eq_none_iff.mpr (hq.find?_of_perm hv hperm).2.1,
    fun j hj => hq.get?_of_perm hv hperm hj, fun j p' hj hlt => ?_⟩
  obtain ⟨e, he, -, rfl⟩ := hq.get?_eq_some_iff.mp hj
  have := hmin e he
  rw [Entry.precedes_iff.mpr (.inl hlt)] at this
  cases this

theorem Valid.get?_of_popMin_error (hq : q.Valid) {err : QueueError} (h : q.popMin = .error err) (k : κ) :
    q.get? k = none := by
  rw [Option.eq_none_iff_forall_ne_some]
  intro p hp
  obtain ⟨e, he, -⟩ := hq.get?_eq_some_iff.mp hp
  rw [(hq.popMin_eq_error_iff.mp h).1] at he
  cases he

end Payloads

end Mapf.Queue
