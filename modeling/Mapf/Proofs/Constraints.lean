import Mapf.Constraint.Set
import Mathlib.Data.List.MinMax
import Mathlib.Data.List.Nodup

/-! # Constraint sets

A constraint forbids a cell or an edge at a time. The indexes of a set that was built by insertions say
what its constraints forbid and when (`Indexed`), and the set grows exactly by the constraints that it
does not cover. A path keeps a set if it never does what the set forbids, also while the agent stays at
its last cell (`Path.Keeps`). -/

namespace Mapf

theorem TimedEdge.between_comm (t : Nat) (p q : Position) : between t p q = between t q p := by
  unfold between
  split <;> split
  case isTrue.isTrue hpq hqp =>
    obtain rfl : p = q := by
      cases p
      cases q
      simp only [Position.le_iff, Position.mk.injEq] at hpq hqp ⊢
      omega
    rfl
  case isFalse.isFalse hpq hqp =>
    rw [Position.le_iff] at hpq hqp
    omega
  all_goals rfl

theorem TimedEdge.between_eq_iff {t u : Nat} {p q r s : Position} :
    between t p q = between u r s ↔ t = u ∧ (p = r ∧ q = s ∨ p = s ∧ q = r) := by
  constructor
  · unfold between
    intro h
    split at h <;> split at h <;> simp_all
  · rintro ⟨rfl, ⟨rfl, rfl⟩ | ⟨rfl, rfl⟩⟩
    · rfl
    · exact between_comm _ _ _

@[simp] theorem TimedEdge.timeStep_between (t : Nat) (p q : Position) : (between t p q).timeStep = t := by
  unfold between
  split <;> rfl

namespace Constraint

/-- What a constraint forbids: being at a cell, or using an edge at a time. -/
def forbids : Constraint → Cell ⊕ TimedEdge
  | .vertex _ position timeStep => .inl (position.atTime timeStep)
  | .edge _ source target timeStep => .inr (.between timeStep source target)

/-- The time at which a constraint forbids being at `p`. -/
def timeAt? (p : Position) : Constraint → Option Nat
  | .vertex _ position timeStep => if position = p then some timeStep else none
  | .edge _ _ _ _ => none

theorem timeAt?_eq_some_iff {c : Constraint} {p : Position} {t : Nat} :
    c.timeAt? p = some t ↔ c.forbids = .inl (p.atTime t) := by
  cases c with
  | vertex agent q u =>
    obtain ⟨x, y⟩ := p
    obtain ⟨x', y'⟩ := q
    simp only [timeAt?, forbids, Position.atTime, Position.mk.injEq, Sum.inl.injEq, Cell.mk.injEq]
    split <;> simp_all
  | edge => simp [timeAt?, forbids]

theorem timeStep_of_forbids {c : Constraint} : c.forbids.elim Cell.time TimedEdge.timeStep = c.timeStep := by
  cases c <;> simp [forbids, timeStep]

end Constraint

namespace ConstraintSet

/-- What the constraints of a set forbid. -/
def forbidden (s : ConstraintSet) : List (Cell ⊕ TimedEdge) := s.toList.map Constraint.forbids

/-- The indexes are those of the listed constraints, of which no two forbid the same. -/
structure Indexed (s : ConstraintSet) : Prop where
  distinct : s.forbidden.Nodup
  vertices : ∀ {cell : Cell}, cell ∈ s.vertices ↔ .inl cell ∈ s.forbidden
  edges : ∀ {e : TimedEdge}, e ∈ s.edges ↔ .inr e ∈ s.forbidden
  latest : ∀ {p : Position}, s.latestVertex[p]? = (s.toList.filterMap (·.timeAt? p)).max?
  latestOfAll : s.maxTimeStep = (s.toList.map Constraint.timeStep).max?

section Basic

variable {s : ConstraintSet} {c : Constraint}

theorem indexed_empty (agent : Nat) : (empty agent).Indexed where
  distinct := List.nodup_nil
  vertices := by simp [empty, forbidden]
  edges := by simp [empty, forbidden]
  latest := by simp [empty]
  latestOfAll := rfl

theorem Indexed.covers_iff (h : s.Indexed) : s.covers c = true ↔ c.forbids ∈ s.forbidden := by
  cases c with
  | vertex => exact Std.HashSet.contains_iff_mem.trans h.vertices
  | edge => exact Std.HashSet.contains_iff_mem.trans h.edges

theorem laterOf_max? (times : List Nat) (t : Nat) : some (laterOf times.max? t) = (times ++ [t]).max? := by
  cases times with
  | nil => rfl
  | cons u rest =>
    show some (max (rest.foldl max u) t) = some ((rest ++ [t]).foldl max u)
    rw [List.foldl_append]
    rfl

theorem toList_record (s : ConstraintSet) (c : Constraint) : (s.record c).toList = s.toList ++ [c] := by
  cases c <;> rfl

theorem forbidden_record (s : ConstraintSet) (c : Constraint) :
    (s.record c).forbidden = s.forbidden ++ [c.forbids] := by
  rw [forbidden, toList_record, List.map_append]
  rfl

theorem Indexed.record (h : s.Indexed) (hc : s.covers c = false) : (s.record c).Indexed where
  distinct := by
    rw [forbidden_record, List.nodup_append']
    refine ⟨h.distinct, List.nodup_singleton _, ?_⟩
    rw [List.disjoint_singleton]
    intro hm
    rw [h.covers_iff.mpr hm] at hc
    cases hc
  vertices {cell} := by
    rw [forbidden_record, List.mem_append, List.mem_singleton]
    cases c with
    | vertex agent p t =>
      show cell ∈ s.vertices.insert (p.atTime t) ↔ _
      rw [Std.HashSet.mem_insert, h.vertices, beq_iff_eq, or_comm, eq_comm]
      simp [Constraint.forbids]
    | edge =>
      show cell ∈ s.vertices ↔ _
      rw [h.vertices]
      simp [Constraint.forbids]
  edges {e} := by
    rw [forbidden_record, List.mem_append, List.mem_singleton]
    cases c with
    | vertex =>
      show e ∈ s.edges ↔ _
      rw [h.edges]
      simp [Constraint.forbids]
    | edge agent p q t =>
      show e ∈ s.edges.insert (.between t p q) ↔ _
      rw [Std.HashSet.mem_insert, h.edges, beq_iff_eq, or_comm, eq_comm]
      simp [Constraint.forbids]
  latest {q} := by
    rw [toList_record, List.filterMap_append]
    cases c with
    | vertex agent p t =>
      show (s.latestVertex.insert p _)[q]? = _
      rw [Std.HashMap.getElem?_insert]
      by_cases hq : p = q
      · subst hq
        rw [if_pos (beq_self_eq_true p), h.latest, laterOf_max?]
        simp [Constraint.timeAt?]
      · rw [if_neg (by simpa using hq), h.latest]
        simp [Constraint.timeAt?, hq]
    | edge =>
      show s.latestVertex[q]? = _
      rw [h.latest]
      simp [Constraint.timeAt?]
  latestOfAll := by
    rw [toList_record, List.map_append, List.map_singleton, ← laterOf_max?, ← h.latestOfAll]
    cases c <;> rfl

theorem insert_of_covers (h : s.covers c = true) : s.insert c = s := if_pos h

theorem insert_of_not_covers (h : s.covers c = false) : s.insert c = s.record c := if_neg (by simp [h])

theorem Indexed.insert (h : s.Indexed) (c : Constraint) : (s.insert c).Indexed := by
  cases hc : s.covers c with
  | true => rwa [insert_of_covers hc]
  | false =>
    rw [insert_of_not_covers hc]
    exact h.record hc

/-- A set forbids after an insertion what it forbade before and what the new constraint forbids. -/
theorem Indexed.mem_forbidden_insert (h : s.Indexed) {x : Cell ⊕ TimedEdge} :
    x ∈ (s.insert c).forbidden ↔ x ∈ s.forbidden ∨ x = c.forbids := by
  cases hc : s.covers c with
  | true =>
    rw [insert_of_covers hc]
    exact ⟨.inl, fun hx => hx.elim id fun hx => hx ▸ h.covers_iff.mp hc⟩
  | false =>
    rw [insert_of_not_covers hc, forbidden_record, List.mem_append, List.mem_singleton]

theorem Indexed.foldl_insert (h : s.Indexed) (constraints : List Constraint) :
    (constraints.foldl ConstraintSet.insert s).Indexed ∧ ∀ x, x ∈ (constraints.foldl ConstraintSet.insert s).forbidden ↔
      x ∈ s.forbidden ∨ ∃ c ∈ constraints, x = c.forbids := by
  induction constraints generalizing s with
  | nil => exact ⟨h, fun x => by simp⟩
  | cons c rest ih =>
    obtain ⟨hi, hmem⟩ := ih (h.insert c)
    refine ⟨hi, fun x => ?_⟩
    rw [List.foldl_cons, hmem, h.mem_forbidden_insert, or_assoc]
    simp

theorem indexed_ofList (agent : Nat) (constraints : List Constraint) : (ofList agent constraints).Indexed :=
  ((indexed_empty agent).foldl_insert constraints).1

/-- A set forbids exactly what the constraints that it was filled with forbid. -/
theorem mem_forbidden_ofList {agent : Nat} {constraints : List Constraint} {x : Cell ⊕ TimedEdge} :
    x ∈ (ofList agent constraints).forbidden ↔ ∃ c ∈ constraints, x = c.forbids :=
  (((indexed_empty agent).foldl_insert constraints).2 x).trans (or_iff_right (List.not_mem_nil))

end Basic

/-! ### Looking things up -/

section Lookup

variable {s : ConstraintSet}

theorem Indexed.violatesVertex_iff (h : s.Indexed) {cell : Cell} :
    s.violatesVertex cell = true ↔ .inl cell ∈ s.forbidden :=
  Std.HashSet.contains_iff_mem.trans h.vertices

theorem Indexed.violatesEdge_iff (h : s.Indexed) {t : Nat} {p q : Position} :
    s.violatesEdge t p q = true ↔ .inr (.between t p q) ∈ s.forbidden :=
  Std.HashSet.contains_iff_mem.trans h.edges

theorem violatesVertex_ofList {agent : Nat} {constraints : List Constraint} {p : Position} {t : Nat} :
    (ofList agent constraints).violatesVertex (p.atTime t) = false ↔
      ∀ o, .vertex o p t ∉ constraints := by
  rw [← Bool.not_eq_true, (indexed_ofList agent constraints).violatesVertex_iff,
    mem_forbidden_ofList]
  constructor
  · exact fun h o hc => h ⟨_, hc, rfl⟩
  · rintro h ⟨c, hc, hx⟩
    cases c with
    | vertex o q u =>
      cases p
      cases q
      cases hx
      exact h o hc
    | edge => cases hx

/-- Nothing is forbidden after the latest time of all. -/
theorem Indexed.le_maxTimeStep (h : s.Indexed) {x : Cell ⊕ TimedEdge} (hx : x ∈ s.forbidden) :
    ∃ m, s.maxTimeStep = some m ∧ x.elim Cell.time TimedEdge.timeStep ≤ m := by
  obtain ⟨c, hc, rfl⟩ := List.mem_map.mp hx
  cases hm : s.maxTimeStep with
  | none =>
    rw [h.latestOfAll, List.max?_eq_none_iff, List.map_eq_nil_iff] at hm
    rw [hm] at hc
    cases hc
  | some m =>
    rw [h.latestOfAll, List.max?_eq_some_iff] at hm
    exact ⟨m, rfl, hm.2 _ (List.mem_map.mpr ⟨c, hc, Constraint.timeStep_of_forbids.symm⟩)⟩

theorem Indexed.maxTimeStep_attained (h : s.Indexed) {m : Nat} (hm : s.maxTimeStep = some m) :
    ∃ x ∈ s.forbidden, x.elim Cell.time TimedEdge.timeStep = m := by
  rw [h.latestOfAll, List.max?_eq_some_iff] at hm
  obtain ⟨c, hc, rfl⟩ := List.mem_map.mp hm.1
  exact ⟨_, List.mem_map_of_mem hc, Constraint.timeStep_of_forbids⟩

theorem mem_timesAt_iff {p : Position} {t : Nat} :
    t ∈ s.toList.filterMap (·.timeAt? p) ↔ .inl (p.atTime t) ∈ s.forbidden := by
  rw [forbidden, List.mem_map, List.mem_filterMap]
  simp only [Constraint.timeAt?_eq_some_iff]

/-- A position is free from a time on if the last time at which it is forbidden lies before. -/
theorem Indexed.latest_lt_iff (h : s.Indexed) {p : Position} {t : Nat} :
    (s.latestVertexTime p).all (fun latest => latest < t) = true ↔
      ∀ u, t ≤ u → s.violatesVertex (p.atTime u) = false := by
  have hmem : ∀ {u}, u ∈ s.toList.filterMap (·.timeAt? p) ↔ s.violatesVertex (p.atTime u) = true :=
    mem_timesAt_iff.trans h.violatesVertex_iff.symm
  rw [latestVertexTime, h.latest]
  constructor
  · intro hall u hu
    rw [← Bool.not_eq_true]
    intro hviol
    rw [← hmem] at hviol
    cases hm : (s.toList.filterMap (·.timeAt? p)).max? with
    | none =>
      rw [List.max?_eq_none_iff] at hm
      rw [hm] at hviol
      cases hviol
    | some m =>
      have hle := (List.max?_eq_some_iff.mp hm).2 u hviol
      rw [hm] at hall
      simp only [Option.all_some, decide_eq_true_eq] at hall
      omega
  · intro hfree
    cases hm : (s.toList.filterMap (·.timeAt? p)).max? with
    | none => rfl
    | some m =>
      have hviol := hmem.mp (List.max?_eq_some_iff.mp hm).1
      simp only [Option.all_some, decide_eq_true_eq]
      by_contra hlt
      rw [hfree m (by omega)] at hviol
      cases hviol

end Lookup

end ConstraintSet

/-! ### Keeping constraints -/

namespace Path

/-- A path never stands on a cell, or never uses an edge at its time. -/
def Avoids (path : Path) : Cell ⊕ TimedEdge → Prop
  | .inl cell => path.positionAt cell.time ≠ some cell.position
  | .inr e => ∀ {p q : Position}, path.moveAt e.timeStep = some (p, q) → p ≠ q → .between e.timeStep p q ≠ e

/-- A path never does what a set forbids. -/
def Keeps (path : Path) (s : ConstraintSet) : Prop := ∀ x ∈ s.forbidden, path.Avoids x

theorem keeps_empty (path : Path) (agent : Nat) : path.Keeps (.empty agent) := fun _ hx => by cases hx

theorem keeps_insert {path : Path} {s : ConstraintSet} (h : s.Indexed) {c : Constraint} :
    path.Keeps (s.insert c) ↔ path.Keeps s ∧ path.Avoids c.forbids := by
  simp only [Keeps, h.mem_forbidden_insert]
  exact ⟨fun hk => ⟨fun x hx => hk x (.inl hx), hk _ (.inr rfl)⟩,
    fun hk x hx => hx.elim (hk.1 x) fun hx => hx ▸ hk.2⟩

theorem keeps_ofList_iff {path : Path} {agent : Nat} {constraints : List Constraint} :
    path.Keeps (.ofList agent constraints) ↔ ∀ c ∈ constraints, path.Avoids c.forbids := by
  simp only [Keeps, ConstraintSet.mem_forbidden_ofList]
  exact ⟨fun hk c hc => hk _ ⟨c, hc, rfl⟩, fun hk x ⟨c, hc, hx⟩ => hx ▸ hk c hc⟩

theorem keeps_iff {path : Path} {s : ConstraintSet} (h : s.Indexed) :
    path.Keeps s ↔ (∀ {t p}, path.positionAt t = some p → s.violatesVertex (p.atTime t) = false) ∧
      ∀ {t p q}, path.moveAt t = some (p, q) → p ≠ q → s.violatesEdge t p q = false := by
  constructor
  · refine fun hk => ⟨fun {t p} hp => ?_, fun {t p q} hm hne => ?_⟩
    · rw [← Bool.not_eq_true, h.violatesVertex_iff]
      exact fun hx => hk _ hx hp
    · rw [← Bool.not_eq_true, h.violatesEdge_iff]
      intro hx
      exact hk _ hx (by rwa [TimedEdge.timeStep_between]) hne (by rw [TimedEdge.timeStep_between])
  · rintro ⟨hpos, hmove⟩ (cell | e) hx
    · intro hp
      have := hpos hp
      rw [Cell.atTime_position, h.violatesVertex_iff.mpr hx] at this
      cases this
    · intro p q hm hne he
      have := hmove hm hne
      rw [← Bool.not_eq_true, h.violatesEdge_iff, he] at this
      exact this hx

end Path

end Mapf
