import Mapf.Queue.Basic
import Mathlib.Logic.Equiv.Basic
import Mathlib.Order.Defs.Unbundled

/-! # Repairing a heap

The order of leaving is a strict order in which entries with different numbers are comparable, and
exchanging two entries permutes the comparisons between positions. When the entry at one position has
been replaced, the order is broken around that position only (`OrderedAround`). Moving the entry up
and then down restores it everywhere (`ordered_repair`), and neither loses an entry or leaves the
index behind (`Rearranged`). -/

namespace Mapf.Queue

section Entries

variable {κ π ρ : Type} [Prioritized π ρ] [LT ρ] [DecidableLT ρ] [IsStrictTotalOrder ρ (· < ·)]

/-! ### The order of leaving -/

theorem Entry.precedes_iff {a b : Entry κ π} :
    a.precedes b = true ↔ Prioritized.priority a.payload < Prioritized.priority b.payload ∨
      Prioritized.priority a.payload = Prioritized.priority b.payload ∧ a.seq < b.seq := by
  simp only [Entry.precedes, Bool.or_eq_true, Bool.and_eq_true, Bool.not_eq_true', decide_eq_true_eq,
    decide_eq_false_iff_not]
  constructor
  · rintro (h | ⟨hle, hseq⟩)
    · exact .inl h
    · rcases trichotomous_of (· < ·) (Prioritized.priority a.payload) (Prioritized.priority b.payload)
        with h | h | h
      · exact .inl h
      · exact .inr ⟨h, hseq⟩
      · exact absurd h hle
  · rintro (h | ⟨heq, hseq⟩)
    · exact .inl h
    · exact .inr ⟨heq ▸ irrefl_of (· < ·) _, hseq⟩

theorem Entry.precedes_trans {a b c : Entry κ π} (hab : a.precedes b = true) (hbc : b.precedes c = true) :
    a.precedes c = true := by
  rw [Entry.precedes_iff] at hab hbc ⊢
  rcases hab with hab | ⟨hab, h₁⟩ <;> rcases hbc with hbc | ⟨hbc, h₂⟩
  · exact .inl (trans_of (· < ·) hab hbc)
  · exact .inl (hbc ▸ hab)
  · exact .inl (hab ▸ hbc)
  · exact .inr ⟨hab.trans hbc, by omega⟩

theorem Entry.precedes_irrefl (a : Entry κ π) : a.precedes a = false := by
  by_contra h
  rw [Bool.not_eq_false, Entry.precedes_iff] at h
  rcases h with h | ⟨-, h⟩
  · exact irrefl_of (· < ·) _ h
  · omega

theorem Entry.precedes_asymm {a b : Entry κ π} (h : a.precedes b = true) : b.precedes a = false := by
  by_contra h'
  rw [Bool.not_eq_false] at h'
  simpa [Entry.precedes_irrefl] using Entry.precedes_trans h h'

/-- Entries that do not precede each other are level: same priority, same number. -/
theorem Entry.level {a b : Entry κ π} (hab : a.precedes b = false) (hba : b.precedes a = false) :
    Prioritized.priority a.payload = Prioritized.priority b.payload ∧ a.seq = b.seq := by
  have hab' : ¬a.precedes b = true := by simp [hab]
  have hba' : ¬b.precedes a = true := by simp [hba]
  rw [Entry.precedes_iff, not_or, not_and] at hab' hba'
  rcases trichotomous_of (· < ·) (Prioritized.priority a.payload) (Prioritized.priority b.payload)
    with h | h | h
  · exact absurd h hab'.1
  · exact ⟨h, by have := hab'.2 h; have := hba'.2 h.symm; omega⟩
  · exact absurd h hba'.1

theorem Entry.not_precedes_trans {a b c : Entry κ π} (hab : a.precedes b = false)
    (hbc : b.precedes c = false) : a.precedes c = false := by
  by_contra hac
  rw [Bool.not_eq_false] at hac
  cases hba : b.precedes a
  · obtain ⟨hp, hs⟩ := Entry.level hab hba
    have : b.precedes c = true := by
      rw [Entry.precedes_iff] at hac ⊢
      rwa [← hp, ← hs]
    simp [this] at hbc
  · simp [Entry.precedes_trans hba hac] at hbc

end Entries

variable {κ π ρ : Type} [BEq κ] [Hashable κ]

/-! ### Exchanging two positions -/

theorem getElem?_heap_swap {q : Queue κ π} {i j : Nat} (hi : i < q.heap.size) (hj : j < q.heap.size) (k : Nat) :
    (q.swap i j).heap[k]? = q.heap[Equiv.swap i j k]? := by
  unfold swap
  by_cases hij : i = j
  · simp [hij]
  · rw [dif_pos ⟨hi, hj, hij⟩, Array.getElem?_swap, Equiv.swap_apply_def]
    by_cases hjk : j = k
    · have : ¬k = i := fun h => hij (h ▸ hjk.symm)
      simp [hjk, this, hi]
    · by_cases hik : i = k
      · simp [hik, hjk, hj]
      · simp [hjk, hik, Ne.symm hjk, Ne.symm hik]

/-- The index holds exactly the positions of the keys, so keys are distinct. -/
def Indexed (q : Queue κ π) : Prop :=
  ∀ (k : κ) (i : Nat), q.index[k]? = some i ↔ q.heap[i]?.map Entry.key = some k

/-- `q'` holds the entries of `q` in another order, with an index that is as good as that of `q`. -/
structure Rearranged (q q' : Queue κ π) : Prop where
  perm : q'.heap.toList.Perm q.heap.toList
  nextSeq : q'.nextSeq = q.nextSeq
  indexed : q.Indexed → q'.Indexed

namespace Rearranged

theorem refl (q : Queue κ π) : Rearranged q q := ⟨.refl _, rfl, id⟩

theorem trans {q r s : Queue κ π} (h₁ : Rearranged q r) (h₂ : Rearranged r s) : Rearranged q s :=
  ⟨h₂.perm.trans h₁.perm, h₂.nextSeq.trans h₁.nextSeq, h₂.indexed ∘ h₁.indexed⟩

end Rearranged

theorem Indexed.index_swap [LawfulBEq κ] {q : Queue κ π} (hq : q.Indexed) {i j : Nat} (hi : i < q.heap.size)
    (hj : j < q.heap.size) (k : κ) : (q.swap i j).index[k]? = q.index[k]?.map (Equiv.swap i j) := by
  have hpos : ∀ a (ha : a < q.heap.size), q.heap[a].key = k → q.index[k]? = some a := fun a ha h =>
    (hq k a).mpr (by simp [ha, h])
  unfold swap
  by_cases hij : i = j
  · simp [hij]
  rw [dif_pos ⟨hi, hj, hij⟩, Std.HashMap.getElem?_insert, Std.HashMap.getElem?_insert]
  by_cases hki : q.heap[i].key = k
  · simp [hki, hpos i hi hki]
  by_cases hkj : q.heap[j].key = k
  · simp [hkj, hki, hpos j hj hkj]
  rw [if_neg (by simpa using hki), if_neg (by simpa using hkj)]
  cases hk : q.index[k]? with
  | none => rfl
  | some m =>
    -- The key sits at neither of the two positions, so its place is not touched.
    have hm : q.heap[m]?.map Entry.key = some k := (hq k m).mp hk
    have hmi : m ≠ i := by rintro rfl; simp [hi, hki] at hm
    have hmj : m ≠ j := by rintro rfl; simp [hj, hkj] at hm
    rw [Option.map_some, Equiv.swap_apply_of_ne_of_ne hmi hmj]

theorem Indexed.swap [LawfulBEq κ] {q : Queue κ π} (hq : q.Indexed) {i j : Nat} (hi : i < q.heap.size)
    (hj : j < q.heap.size) : (q.swap i j).Indexed := by
  intro k m
  rw [hq.index_swap hi hj, getElem?_heap_swap hi hj, ← hq k, Option.map_eq_some_iff]
  constructor
  · rintro ⟨n, hn, rfl⟩
    rwa [Equiv.swap_apply_self]
  · intro h
    exact ⟨_, h, Equiv.swap_apply_self i j m⟩

theorem rearranged_swap [LawfulBEq κ] {q : Queue κ π} {i j : Nat} (hi : i < q.heap.size) (hj : j < q.heap.size) :
    Rearranged q (q.swap i j) := by
  refine ⟨?_, ?_, fun hq => hq.swap hi hj⟩
  · unfold Queue.swap
    split
    · exact (Array.swap_perm hi hj).toList
    · exact .refl _
  · unfold Queue.swap
    split <;> rfl

section Order

variable [Prioritized π ρ] [LT ρ] [DecidableLT ρ]

theorem precedes_swap {q : Queue κ π} {i j : Nat} (hi : i < q.heap.size) (hj : j < q.heap.size) (a b : Nat) :
    (q.swap i j).precedes a b = q.precedes (Equiv.swap i j a) (Equiv.swap i j b) := by
  simp only [precedes, getElem?_heap_swap hi hj]

theorem rearranged_siftUp [LawfulBEq κ] (q : Queue κ π) (pos : Nat) : Rearranged q (q.siftUp pos).1 := by
  fun_induction siftUp q pos with
  | case1 q pos h ih =>
    obtain ⟨hpos, hpar⟩ := lt_size_of_precedes h.2
    exact (rearranged_swap hpos hpar).trans ih
  | case2 q pos _ => exact .refl q

theorem rearranged_siftDown [LawfulBEq κ] (q : Queue κ π) (pos : Nat) : Rearranged q (q.siftDown pos) := by
  fun_induction siftDown q pos with
  | case1 q pos _ => exact .refl q
  | case2 q pos h ih =>
    obtain ⟨hlt, hsize⟩ := (q.leastOf_eq_or pos).resolve_left h
    exact (rearranged_swap (Nat.lt_trans hlt hsize) hsize).trans ih

theorem rearranged_repair [LawfulBEq κ] (q : Queue κ π) (pos : Nat) : Rearranged q (q.repair pos) :=
  (rearranged_siftUp q pos).trans (rearranged_siftDown _ _)

/-- Moving up never leaves the heap. -/
theorem siftUp_lt_size {q : Queue κ π} {pos : Nat} (hpos : pos < q.heap.size) :
    (q.siftUp pos).2 < (q.siftUp pos).1.heap.size := by
  fun_induction siftUp q pos with
  | case1 q pos hlt ih => exact ih (by simpa using (lt_size_of_precedes hlt.2).2)
  | case2 q pos _ => exact hpos

/-! ### Order around a position -/

/-- Position `c` is a child of position `p`; position 0 is nobody's child. -/
def IsChild (c p : Nat) : Prop := 0 < c ∧ (c - 1) / 2 = p

theorem isChild_iff {c p : Nat} : IsChild c p ↔ c = 2 * p + 1 ∨ c = 2 * p + 2 := by
  unfold IsChild
  omega

/-- No entry precedes its parent. -/
def Ordered (q : Queue κ π) : Prop := ∀ c p : Nat, IsChild c p → q.precedes c p = false

/-- The order may be broken between `pos` and its neighbors only, and the entries on both sides of
    `pos` are still in order. -/
structure OrderedAround (q : Queue κ π) (pos : Nat) : Prop where
  off : ∀ {c p : Nat}, IsChild c p → c ≠ pos → p ≠ pos → q.precedes c p = false
  grand : ∀ {c p : Nat}, IsChild c pos → IsChild pos p → q.precedes c p = false

/-- The order may be broken below `pos` only. -/
structure OrderedAbove (q : Queue κ π) (pos : Nat) : Prop extends OrderedAround q pos where
  above : ∀ {p : Nat}, IsChild pos p → q.precedes pos p = false

/-- No child of `pos` precedes it. -/
def Below (q : Queue κ π) (pos : Nat) : Prop := ∀ c : Nat, IsChild c pos → q.precedes c pos = false

theorem OrderedAbove.ordered {q : Queue κ π} {pos : Nat} (h : OrderedAbove q pos) (hb : Below q pos) :
    q.Ordered := by
  intro c p hc
  by_cases hcp : c = pos
  · subst hcp
    exact h.above hc
  by_cases hpp : p = pos
  · subst hpp
    exact hb c hc
  exact h.off hc hcp hpp

variable [IsStrictTotalOrder ρ (· < ·)]

theorem precedes_irrefl (q : Queue κ π) (i : Nat) : q.precedes i i = false := by
  unfold precedes
  split
  case h_1 ha hb =>
    obtain rfl := Option.some.inj (ha.symm.trans hb)
    exact Entry.precedes_irrefl _
  case h_2 => rfl

theorem precedes_asymm {q : Queue κ π} {i j : Nat} (h : q.precedes i j = true) : q.precedes j i = false := by
  unfold precedes at h ⊢
  split at h
  case h_1 ha hb =>
    simp only [ha, hb]
    exact Entry.precedes_asymm h
  case h_2 => cases h

theorem not_precedes_trans {q : Queue κ π} {i j k : Nat} (hj : j < q.heap.size) (hij : q.precedes i j = false)
    (hjk : q.precedes j k = false) : q.precedes i k = false := by
  unfold precedes at hij hjk ⊢
  rw [Array.getElem?_eq_getElem hj] at hij hjk
  split
  case h_1 ha hc =>
    simp only [ha] at hij
    simp only [hc] at hjk
    exact Entry.not_precedes_trans hij hjk
  case h_2 => rfl

theorem Ordered.around {q : Queue κ π} (h : q.Ordered) (pos : Nat) (hpos : pos < q.heap.size) :
    OrderedAround q pos :=
  ⟨fun hc _ _ => h _ _ hc, fun hc hp => not_precedes_trans hpos (h _ _ hc) (h _ _ hp)⟩

/-! ### Moving up and down -/

theorem OrderedAround.swap_parent {q : Queue κ π} {pos p : Nat} (h : OrderedAround q pos) (hp : IsChild pos p)
    (hpos : pos < q.heap.size) : OrderedAround (q.swap pos p) p := by
  rw [isChild_iff] at hp
  have hpp : p < q.heap.size := by omega
  constructor
  · intro c g hc hcp hgp
    rw [isChild_iff] at hc
    rw [precedes_swap hpos hpp, Equiv.swap_apply_of_ne_of_ne (by omega) hcp]
    by_cases hg : g = pos
    · subst hg
      rw [Equiv.swap_apply_left]
      exact h.grand (isChild_iff.mpr hc) (isChild_iff.mpr hp)
    · rw [Equiv.swap_apply_of_ne_of_ne hg hgp]
      exact h.off (isChild_iff.mpr hc) (by omega) hg
  · intro c g hc hg
    rw [isChild_iff] at hc hg
    have hpg : q.precedes p g = false := h.off (isChild_iff.mpr hg) (by omega) (by omega)
    rw [precedes_swap hpos hpp, Equiv.swap_apply_of_ne_of_ne (x := g) (by omega) (by omega)]
    by_cases hcp : c = pos
    · rwa [hcp, Equiv.swap_apply_left]
    · rw [Equiv.swap_apply_of_ne_of_ne hcp (by omega)]
      exact not_precedes_trans hpp (h.off (isChild_iff.mpr hc) hcp (by omega)) hpg

theorem orderedAbove_siftUp {q : Queue κ π} {pos : Nat} (h : OrderedAround q pos) :
    OrderedAbove (q.siftUp pos).1 (q.siftUp pos).2 := by
  fun_induction siftUp q pos with
  | case1 q pos hlt ih => exact ih (h.swap_parent ⟨hlt.1, rfl⟩ (lt_size_of_precedes hlt.2).1)
  | case2 q pos hlt =>
    refine ⟨h, fun hp => ?_⟩
    obtain ⟨hpos, rfl⟩ := hp
    simpa [hpos] using hlt

theorem below_siftUp {q : Queue κ π} {pos : Nat} (h : OrderedAround q pos) (hb : Below q pos) :
    Below (q.siftUp pos).1 (q.siftUp pos).2 := by
  fun_induction siftUp q pos with
  | case1 q pos hlt ih =>
    obtain ⟨hpos, hpar⟩ := lt_size_of_precedes hlt.2
    have hchild : IsChild pos ((pos - 1) / 2) := ⟨hlt.1, rfl⟩
    refine ih (h.swap_parent hchild hpos) fun c hc => ?_
    rw [precedes_swap hpos hpar, Equiv.swap_apply_right]
    by_cases hcp : c = pos
    · rw [hcp, Equiv.swap_apply_left]
      exact precedes_asymm hlt.2
    · rw [isChild_iff] at hc
      rw [Equiv.swap_apply_of_ne_of_ne hcp (by omega)]
      exact not_precedes_trans hpar (h.off (isChild_iff.mpr hc) hcp (by omega)) (precedes_asymm hlt.2)
  | case2 q pos _ => exact hb

theorem isChild_leastOf {q : Queue κ π} {pos : Nat} (h : q.leastOf pos ≠ pos) :
    IsChild (q.leastOf pos) pos ∧ q.precedes (q.leastOf pos) pos = true := by
  rw [isChild_iff]
  unfold leastOf at h ⊢
  dsimp only at h ⊢
  cases hl : q.precedes (2 * pos + 1) pos
  · simp only [hl, Bool.false_eq_true, ↓reduceIte] at h ⊢
    cases hr : q.precedes (2 * pos + 2) pos <;> simp_all
  · simp only [hl, ↓reduceIte] at h ⊢
    cases hr : q.precedes (2 * pos + 2) (2 * pos + 1)
    · simp [hl]
    · simp only [↓reduceIte, or_true, true_and]
      by_contra hn
      rw [Bool.not_eq_true] at hn
      have := not_precedes_trans (lt_size_of_precedes hl).2 hn (precedes_asymm hl)
      simp [this] at hr

theorem not_precedes_leastOf {q : Queue κ π} {pos c : Nat} (hpos : pos < q.heap.size) (hc : IsChild c pos) :
    q.precedes c (q.leastOf pos) = false := by
  rw [isChild_iff] at hc
  unfold leastOf
  dsimp only
  cases hl : q.precedes (2 * pos + 1) pos
  · simp only [Bool.false_eq_true, ↓reduceIte]
    cases hr : q.precedes (2 * pos + 2) pos
    · rcases hc with rfl | rfl
      · exact hl
      · exact hr
    · rcases hc with rfl | rfl
      · exact not_precedes_trans hpos hl (precedes_asymm hr)
      · exact precedes_irrefl q _
  · simp only [↓reduceIte]
    cases hr : q.precedes (2 * pos + 2) (2 * pos + 1)
    · rcases hc with rfl | rfl
      · exact precedes_irrefl q _
      · exact hr
    · rcases hc with rfl | rfl
      · exact precedes_asymm hr
      · exact precedes_irrefl q _

theorem OrderedAbove.swap_child {q : Queue κ π} {pos m : Nat} (h : OrderedAbove q pos) (hm : IsChild m pos)
    (hsize : m < q.heap.size) (hlt : q.precedes m pos = true)
    (hleast : ∀ {c}, IsChild c pos → q.precedes c m = false) : OrderedAbove (q.swap pos m) m := by
  rw [isChild_iff] at hm
  have hpos : pos < q.heap.size := by omega
  refine ⟨⟨?_, ?_⟩, ?_⟩
  · intro c p hc hcm hpm
    rw [isChild_iff] at hc
    rw [precedes_swap hpos hsize]
    by_cases hcp : c = pos
    · subst hcp
      rw [Equiv.swap_apply_left, Equiv.swap_apply_of_ne_of_ne (by omega) hpm]
      exact h.grand (isChild_iff.mpr hm) (isChild_iff.mpr hc)
    · rw [Equiv.swap_apply_of_ne_of_ne hcp hcm]
      by_cases hpp : p = pos
      · subst hpp
        rw [Equiv.swap_apply_left]
        exact hleast (isChild_iff.mpr hc)
      · rw [Equiv.swap_apply_of_ne_of_ne hpp hpm]
        exact h.off (isChild_iff.mpr hc) hcp hpp
  · intro c p hc hp
    rw [isChild_iff] at hc hp
    obtain rfl : p = pos := by omega
    rw [precedes_swap hpos hsize, Equiv.swap_apply_left, Equiv.swap_apply_of_ne_of_ne (by omega) (by omega)]
    exact h.off (isChild_iff.mpr hc) (by omega) (by omega)
  · intro p hp
    rw [isChild_iff] at hp
    obtain rfl : p = pos := by omega
    rw [precedes_swap hpos hsize, Equiv.swap_apply_left, Equiv.swap_apply_right]
    exact precedes_asymm hlt

theorem ordered_siftDown {q : Queue κ π} {pos : Nat} (h : OrderedAbove q pos) (hpos : pos < q.heap.size) :
    (q.siftDown pos).Ordered := by
  fun_induction siftDown q pos with
  | case1 q pos hstop =>
    refine h.ordered fun c hc => ?_
    have := not_precedes_leastOf hpos hc
    rwa [hstop] at this
  | case2 q pos hgo ih =>
    obtain ⟨hchild, hlt⟩ := isChild_leastOf hgo
    have hsize := (lt_size_of_precedes hlt).1
    exact ih (h.swap_child hchild hsize hlt (not_precedes_leastOf hpos)) (by simpa using hsize)

/-- Moving an entry up and then down restores an order that was broken around it only. -/
theorem ordered_repair {q : Queue κ π} {pos : Nat} (h : OrderedAround q pos) (hpos : pos < q.heap.size) :
    (q.repair pos).Ordered :=
  ordered_siftDown (orderedAbove_siftUp h) (siftUp_lt_size hpos)

/-- Moving an entry up restores an order that was broken between it and its ancestors only. -/
theorem ordered_siftUp {q : Queue κ π} {pos : Nat} (h : OrderedAround q pos) (hb : Below q pos) :
    (q.siftUp pos).1.Ordered :=
  (orderedAbove_siftUp h).ordered (below_siftUp h hb)

end Order

end Mapf.Queue
