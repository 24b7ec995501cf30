import Mapf.Proofs.Strict.Queue
import Mathlib.Data.Nat.Log

/-! # Another entry in the place of one

A heap is in order but for one position, whose entry was replaced by any other. Moving this entry up, and down from
where it came to, takes no more rounds than the heap has levels (`repairWithin_eq`). It restores the order everywhere,
keeps every entry once, and leaves the index with the positions of all keys and nothing else
(`repair_of_replaced`). -/

namespace Mapf.Queue

section Rounds

variable {κ π ρ : Type} [BEq κ] [Hashable κ] [Prioritized π ρ] [LT ρ] [DecidableLT ρ]
  {q : Queue κ π} {pos rounds : Nat}

/-- Moves the entry at a position up by one level, or says where it has come to. -/
def rise (s : Queue κ π × Nat) : Option (Round (Queue κ π × Nat) (Queue κ π × Nat)) :=
  let (q, pos) := s
  if 0 < pos ∧ q.precedes pos ((pos - 1) / 2) then some (.next (q.swap pos ((pos - 1) / 2), (pos - 1) / 2))
  else some (.done (q, pos))

/-- Moves the entry at a position down by one level, or ends. -/
def sink (s : Queue κ π × Nat) : Option (Round (Queue κ π × Nat) (Queue κ π)) :=
  let (q, pos) := s
  if q.leastOf pos = pos then some (.done q) else some (.next (q.swap pos (q.leastOf pos), q.leastOf pos))

/-- Moves the entry at a position up and then down, in at most `rounds` rounds each. -/
def repairWithin (rounds : Nat) (q : Queue κ π) (pos : Nat) : Option (Queue κ π) := do
  let s ← Loop.run rise rounds (q, pos)
  Loop.run sink rounds s

/-- The level of a position lies one below that of its parent. -/
theorem log_of_isChild {c p : Nat} (h : IsChild c p) : Nat.log 2 (c + 1) = Nat.log 2 (p + 1) + 1 := by
  rw [isChild_iff] at h
  rw [Nat.log_of_one_lt_of_le Nat.one_lt_two (by omega), show (c + 1) / 2 = p + 1 by omega]

theorem run_rise (h : Nat.log 2 (pos + 1) < rounds) : Loop.run rise rounds (q, pos) = some (q.siftUp pos) := by
  obtain ⟨rounds, rfl⟩ := Nat.exists_eq_succ_of_ne_zero (Nat.ne_zero_of_lt h)
  fun_induction siftUp q pos generalizing rounds with
  | case1 q pos hlt ih =>
    have hlevel : Nat.log 2 (pos + 1) = Nat.log 2 ((pos - 1) / 2 + 1) + 1 := log_of_isChild ⟨hlt.1, rfl⟩
    have hround : rise (q, pos) = some (.next (q.swap pos ((pos - 1) / 2), (pos - 1) / 2)) := by
      simp only [rise, if_pos hlt]
    obtain ⟨rest, rfl⟩ : ∃ rest, rounds = rest + 1 := ⟨rounds - 1, by omega⟩
    rw [Loop.run_next hround]
    exact ih rest (by omega)
  | case2 q pos hstop => exact Loop.run_done (by simp only [rise, if_neg hstop]) rounds

variable [IsStrictTotalOrder ρ (· < ·)]

theorem run_sink (hpos : pos < q.heap.size) (h : Nat.log 2 q.heap.size < rounds + Nat.log 2 (pos + 1)) :
    Loop.run sink rounds (q, pos) = some (q.siftDown pos) := by
  fun_induction siftDown q pos generalizing rounds with
  | case1 q pos hstop =>
    have hlevel : Nat.log 2 (pos + 1) ≤ Nat.log 2 q.heap.size := Nat.log_mono_right hpos
    obtain ⟨rest, rfl⟩ : ∃ rest, rounds = rest + 1 := ⟨rounds - 1, by omega⟩
    exact Loop.run_done (by simp only [sink, if_pos hstop]) rest
  | case2 q pos hgo ih =>
    obtain ⟨hchild, hlt⟩ := isChild_leastOf hgo
    have hsize := (lt_size_of_precedes hlt).1
    have hlevel := log_of_isChild hchild
    have hdeep : Nat.log 2 (q.leastOf pos + 1) ≤ Nat.log 2 q.heap.size := Nat.log_mono_right hsize
    have hround : sink (q, pos) = some (.next (q.swap pos (q.leastOf pos), q.leastOf pos)) := by
      simp only [sink, if_neg hgo]
    obtain ⟨rest, rfl⟩ : ∃ rest, rounds = rest + 1 := ⟨rounds - 1, by omega⟩
    rw [Loop.run_next hround]
    exact ih (by simpa using hsize) (by rw [size_heap_swap]; omega)

/-- One round for each level of the heap is enough in either direction. -/
theorem repairWithin_eq [LawfulBEq κ] (hpos : pos < q.heap.size) (h : Nat.log 2 q.heap.size < rounds) :
    repairWithin rounds q pos = some (q.repair pos) := by
  have hlevel : Nat.log 2 (pos + 1) ≤ Nat.log 2 q.heap.size := Nat.log_mono_right hpos
  have hsize : (q.siftUp pos).1.heap.size = q.heap.size := by
    simpa using (rearranged_siftUp q pos).perm.length_eq
  rw [repairWithin, run_rise (by omega)]
  exact run_sink (siftUp_lt_size hpos) (by rw [hsize]; omega)

end Rounds

section Replaced

variable {κ π ρ : Type} [BEq κ] [Hashable κ] [LawfulBEq κ] [Prioritized π ρ] [LT ρ] [DecidableLT ρ]
  [IsStrictTotalOrder ρ (· < ·)] {q r : Queue κ π} {pos : Nat} {entry : Entry κ π}

omit [LawfulBEq κ] in
/-- In a heap in order whose entries have numbers of their own, every parent leaves before its children. -/
theorem Ordered.precedes_child (h : q.Ordered) (distinct : (q.toList.map Entry.seq).Nodup) {c p : Nat}
    (hc : IsChild c p) (hsize : c < q.heap.size) : q.precedes p c = true := by
  have hlt : p < c := by rw [isChild_iff] at hc; omega
  have hsize' : p < q.heap.size := Nat.lt_trans hlt hsize
  by_contra hnot
  rw [Bool.not_eq_true] at hnot
  have hnot' := h c p hc
  simp only [precedes, Array.getElem?_eq_getElem hsize, Array.getElem?_eq_getElem hsize'] at hnot hnot'
  -- Of two entries one leaves before the other, unless they share a number.
  have hseq : q.heap[p].seq = q.heap[c].seq := (Entry.level hnot hnot').2
  exact List.pairwise_iff_getElem.mp distinct p c (by simpa [toList] using hsize') (by simpa [toList] using hsize) hlt
    (by simpa [toList] using hseq)

/-- Whatever entry takes the place of another one in a heap in order, moving it up and then down ends within one round
    for each level, looks at no place outside the heap, and restores the order everywhere: no entry leaves before its
    parent, and each parent before its children where no two entries share a number. All entries are kept, each once,
    and the index holds the positions of all keys and nothing else. -/
theorem repair_of_replaced (ordered : q.Ordered) (inside : pos < q.heap.size) (replaced : r.heap = q.heap.set pos entry)
    (indexed : r.Indexed) :
    (∀ rounds, Nat.log 2 q.heap.size < rounds → repairWithin rounds r pos = some (r.repair pos)) ∧
      Strict.repair r pos = .ok (r.repair pos) ∧
      (r.repair pos).Ordered ∧
      ((r.toList.map Entry.seq).Nodup →
        ∀ c p, IsChild c p → c < q.heap.size → (r.repair pos).precedes p c = true) ∧
      (r.repair pos).toList.Perm r.toList ∧ (r.repair pos).Indexed := by
  have hsize : r.heap.size = q.heap.size := by rw [replaced, Array.size_set]
  have hpos : pos < r.heap.size := hsize ▸ inside
  have haround : OrderedAround r pos := ordered.around_of_same inside fun i hi _ => by
    rw [replaced, Array.getElem?_set_ne inside (Ne.symm hi)]
  have hr : Rearranged r (r.repair pos) := rearranged_repair r pos
  have hordered : (r.repair pos).Ordered := ordered_repair haround hpos
  refine ⟨fun rounds h => repairWithin_eq hpos (hsize ▸ h), Strict.repair_eq hpos, hordered,
    fun distinct c p hc hlt => ?_, hr.perm, hr.indexed indexed⟩
  have hsize' : (r.repair pos).heap.size = r.heap.size := by simpa using hr.perm.length_eq
  exact hordered.precedes_child ((hr.perm.map Entry.seq).nodup_iff.mpr distinct) hc (by omega)

/-- A heap in order, whose keys are their positions. -/
def pyramid : Queue Nat Nat where
  heap := #[⟨0, 1, 0⟩, ⟨1, 10, 1⟩, ⟨2, 2, 2⟩, ⟨3, 11, 3⟩, ⟨4, 12, 4⟩]
  index := ((((∅ : Std.HashMap Nat Nat).insert 0 0).insert 1 1).insert 2 2 |>.insert 3 3).insert 4 4
  nextSeq := 6

/-- Key 3 has given way to key 5, which should leave before its parent. -/
def patched : Queue Nat Nat where
  heap := pyramid.heap.set 3 ⟨5, 3, 5⟩
  index := (pyramid.index.erase 3).insert 5 3
  nextSeq := 6

theorem ordered_pyramid : pyramid.Ordered := by
  have h : ∀ c, c < 5 → 0 < c → pyramid.precedes c ((c - 1) / 2) = false := by decide
  rintro c p ⟨hc, rfl⟩
  by_cases hlt : c < 5
  · exact h c hlt hc
  · exact precedes_of_size_le (Nat.le_of_not_lt hlt) _

theorem indexed_patched : patched.Indexed := by
  have hheap : patched.heap = #[⟨0, 1, 0⟩, ⟨1, 10, 1⟩, ⟨2, 2, 2⟩, ⟨5, 3, 5⟩, ⟨4, 12, 4⟩] := rfl
  intro k i
  -- The index as a case distinction on the key, then one place of the heap after the other.
  rw [hheap]
  simp only [patched, pyramid, Std.HashMap.getElem?_insert, Std.HashMap.getElem?_erase, Std.HashMap.getElem?_empty]
  rcases i with _ | _ | _ | _ | _ | i <;> simp <;> grind

/-- After key 3 was taken out of the middle, the last entry of the heap does not sink in its place: it rises. -/
theorem repair_patched : pyramid.Ordered ∧ patched.Indexed ∧ repairWithin 3 patched 3 = some (patched.repair 3) ∧
    (patched.repair 3).toList.map Entry.key = [0, 5, 2, 1, 4] ∧ (patched.repair 3).Ordered ∧
      (patched.repair 3).toList.Perm patched.toList ∧ (patched.repair 3).Indexed := by
  have hinside : 3 < pyramid.heap.size := by decide
  have hreplaced : patched.heap = pyramid.heap.set 3 ⟨5, 3, 5⟩ := rfl
  obtain ⟨hends, -, hordered, -, hperm, hindexed⟩ :=
    repair_of_replaced ordered_pyramid hinside hreplaced indexed_patched
  have hrun : repairWithin 3 patched 3 = some (patched.repair 3) := hends 3 (by decide)
  have hkeys : (repairWithin 3 patched 3).map (fun q => q.toList.map Entry.key) = some [0, 5, 2, 1, 4] := by decide
  rw [hrun] at hkeys
  exact ⟨ordered_pyramid, indexed_patched, hrun, Option.some.inj hkeys, hordered, hperm, hindexed⟩

end Replaced

end Mapf.Queue
