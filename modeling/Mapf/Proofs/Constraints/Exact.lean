import Mapf.Proofs.Constraints
import Mathlib

/-! # What a constraint set tells of its constraints

The indexes of a set tell of all constraints that were put into it, in any order and however often, what they forbid,
until when a position is forbidden and when the last of them ends. The list has of constraints that are alike up to the
direction of an edge the one that came first, and just these were new (`ConstraintSet.indexes_exact`).

An insertion goes by what a set forbids and membership by what it lists. So an edge that is listed in the opposite
direction is not new, and yet it is not in the set, neither before nor after its insertion
(`ConstraintSet.insertNew_iff_contains`). -/

namespace Mapf

namespace Constraint

variable {c d : Constraint}

/-- The same edge in the opposite direction. A constraint on a position has no direction. -/
def reversed : Constraint → Constraint
  | .vertex agent position timeStep => .vertex agent position timeStep
  | .edge agent source target timeStep => .edge agent target source timeStep

/-- Two constraints are alike if they are equal up to the direction of an edge. -/
def Alike (c d : Constraint) : Prop := c = d ∨ c = d.reversed

instance : DecidableRel Alike := fun c d => inferInstanceAs (Decidable (c = d ∨ c = d.reversed))

theorem inl_eq_forbids_iff {p : Position} {t : Nat} :
    .inl (p.atTime t) = c.forbids ↔ c = .vertex c.agent p t := by
  cases c with
  | vertex a q u =>
    obtain ⟨x, y⟩ := p
    obtain ⟨x', y'⟩ := q
    constructor <;> intro h <;> cases h <;> rfl
  | edge => simp [forbids]

theorem inr_eq_forbids_iff {u v : Position} {t : Nat} :
    .inr (.between t u v) = c.forbids ↔ c = .edge c.agent u v t ∨ c = .edge c.agent v u t := by
  cases c with
  | vertex => simp [forbids]
  | edge a p q s =>
    rw [forbids, Sum.inr.injEq, TimedEdge.between_eq_iff]
    constructor
    · rintro ⟨rfl, ⟨rfl, rfl⟩ | ⟨rfl, rfl⟩⟩
      · exact .inl rfl
      · exact .inr rfl
    · rintro (h | h) <;> cases h
      · exact ⟨rfl, .inl ⟨rfl, rfl⟩⟩
      · exact ⟨rfl, .inr ⟨rfl, rfl⟩⟩

/-- Constraints of one agent forbid the same exactly if they are alike. -/
theorem forbids_eq_iff (h : c.agent = d.agent) : c.forbids = d.forbids ↔ c.Alike d := by
  cases d with
  | vertex a p t =>
    rw [eq_comm, forbids, inl_eq_forbids_iff, h]
    exact (or_self_iff).symm
  | edge a u v t =>
    rw [eq_comm, forbids, inr_eq_forbids_iff, h]
    rfl

end Constraint

namespace ConstraintSet

variable {agent : Nat} {constraints : List Constraint} {s : ConstraintSet} {c : Constraint}

/-- What insertions one after the other answer: whether each constraint was new. -/
def replies (s : ConstraintSet) : List Constraint → List Bool
  | [] => []
  | c :: rest => (s.insertNew c).1 :: (s.insertNew c).2.replies rest

/-- What a set of an agent tells of the constraints that were put into it. -/
structure Reflects (s : ConstraintSet) (agent : Nat) (constraints : List Constraint) : Prop where
  vertex : ∀ p t, s.violatesVertex (p.atTime t) = true ↔ .vertex agent p t ∈ constraints
  edge : ∀ t u v, s.violatesEdge t u v = true ↔ .edge agent u v t ∈ constraints ∨ .edge agent v u t ∈ constraints
  latest : ∀ p t, s.latestVertexTime p = some t ↔ IsGreatest {u | .vertex agent p u ∈ constraints} t
  free : ∀ p, s.latestVertexTime p = none ↔ ∀ t, .vertex agent p t ∉ constraints
  last : ∀ t, s.maxTimeStep = some t ↔ IsGreatest {u | ∃ c ∈ constraints, c.timeStep = u} t
  unconstrained : s.maxTimeStep = none ↔ constraints = []
  once : s.toList.Pairwise fun c d => ¬c.Alike d
  listed : ∀ c ∈ constraints, ∃ d ∈ s.toList, c.Alike d

/-! ### The order of insertion -/

theorem length_replies (s : ConstraintSet) (constraints : List Constraint) :
    (s.replies constraints).length = constraints.length := by
  induction constraints generalizing s with
  | nil => rfl
  | cons c rest ih => exact congrArg (· + 1) (ih _)

theorem replies_append (s : ConstraintSet) (first second : List Constraint) :
    s.replies (first ++ second) = s.replies first ++ (first.foldl insert s).replies second := by
  induction first generalizing s with
  | nil => rfl
  | cons c rest ih => exact congrArg ((s.insertNew c).1 :: ·) (ih _)

/-- A set lists the constraints that were new, in the order of their insertion. -/
theorem toList_foldl_insert (s : ConstraintSet) (constraints : List Constraint) :
    (constraints.foldl insert s).toList =
      s.toList ++ ((constraints.zip (s.replies constraints)).filter Prod.snd).map Prod.fst := by
  induction constraints generalizing s with
  | nil => exact (List.append_nil _).symm
  | cons c rest ih =>
    rw [List.foldl_cons, ih, replies, List.zip_cons_cons, List.filter_cons]
    cases hc : s.covers c with
    | true => simp [insertNew, hc, insert_of_covers hc]
    | false => simp [insertNew, hc, insert_of_not_covers hc, toList_record]

theorem toList_ofList (agent : Nat) (constraints : List Constraint) : (ofList agent constraints).toList =
    ((constraints.zip ((empty agent).replies constraints)).filter Prod.snd).map Prod.fst :=
  toList_foldl_insert (empty agent) constraints

theorem mem_of_mem_ofList (h : c ∈ (ofList agent constraints).toList) : c ∈ constraints := by
  rw [toList_ofList, List.mem_map] at h
  obtain ⟨⟨_, new⟩, hmem, rfl⟩ := h
  exact (List.of_mem_zip (List.mem_of_mem_filter hmem)).1

/-- A constraint is new if none of those that came before forbids the same. -/
theorem insertNew_ofList : ((ofList agent constraints).insertNew c).1 = true ↔
    ∀ d ∈ constraints, c.forbids ≠ d.forbids := by
  rw [insertNew, Bool.not_eq_true', ← Bool.not_eq_true, (indexed_ofList agent constraints).covers_iff,
    mem_forbidden_ofList]
  exact ⟨fun h d hd heq => h ⟨d, hd, heq⟩, fun h ⟨d, hd, heq⟩ => h d hd heq⟩

/-! ### The indexes -/

theorem forbids_eq_iff_of_mem (own : ∀ c ∈ constraints, c.agent = agent) {d : Constraint} (hc : c ∈ constraints)
    (hd : d ∈ constraints) : c.forbids = d.forbids ↔ c.Alike d :=
  Constraint.forbids_eq_iff ((own c hc).trans (own d hd).symm)

theorem mem_vertex_iff (own : ∀ c ∈ constraints, c.agent = agent) {p : Position} {t : Nat} :
    .vertex agent p t ∈ constraints ↔ .inl (p.atTime t) ∈ (ofList agent constraints).forbidden := by
  rw [mem_forbidden_ofList]
  constructor
  · exact fun h => ⟨_, h, rfl⟩
  · rintro ⟨c, hc, hx⟩
    rwa [← own c hc, ← Constraint.inl_eq_forbids_iff.mp hx]

theorem mem_edge_iff (own : ∀ c ∈ constraints, c.agent = agent) {u v : Position} {t : Nat} :
    .edge agent u v t ∈ constraints ∨ .edge agent v u t ∈ constraints ↔
      .inr (.between t u v) ∈ (ofList agent constraints).forbidden := by
  rw [mem_forbidden_ofList]
  constructor
  · rintro (h | h)
    · exact ⟨_, h, rfl⟩
    · exact ⟨_, h, congrArg Sum.inr (TimedEdge.between_comm t u v)⟩
  · rintro ⟨c, hc, hx⟩
    rw [← own c hc]
    rcases Constraint.inr_eq_forbids_iff.mp hx with h | h
    · exact .inl (h ▸ hc)
    · exact .inr (h ▸ hc)

/-- What a constraint forbids that was put in, one that is listed forbids. -/
theorem exists_listed (hc : c ∈ constraints) : ∃ d ∈ (ofList agent constraints).toList, d.forbids = c.forbids := by
  have hforbidden : c.forbids ∈ (ofList agent constraints).forbidden := mem_forbidden_ofList.mpr ⟨c, hc, rfl⟩
  exact List.mem_map.mp hforbidden

/-- The times of the listed constraints are those of all constraints that were put in. -/
theorem mem_times_iff {t : Nat} :
    t ∈ (ofList agent constraints).toList.map Constraint.timeStep ↔ ∃ c ∈ constraints, c.timeStep = t := by
  rw [List.mem_map]
  constructor
  · rintro ⟨c, hc, rfl⟩
    exact ⟨c, mem_of_mem_ofList hc, rfl⟩
  · rintro ⟨c, hc, rfl⟩
    obtain ⟨d, hd, heq⟩ := exists_listed hc
    refine ⟨d, hd, ?_⟩
    rw [← Constraint.timeStep_of_forbids, heq, Constraint.timeStep_of_forbids]

theorem max?_eq_some_iff_isGreatest {times : List Nat} {S : Set Nat} (h : ∀ {u}, u ∈ times ↔ u ∈ S) {t : Nat} :
    times.max? = some t ↔ IsGreatest S t := by
  rw [List.max?_eq_some_iff, h]
  exact and_congr_right fun _ => ⟨fun hle u hu => hle u (h.mpr hu), fun hle u hu => hle (h.mp hu)⟩

theorem max?_eq_none_iff_forall {times : List Nat} {S : Set Nat} (h : ∀ {u}, u ∈ times ↔ u ∈ S) :
    times.max? = none ↔ ∀ u, u ∉ S := by
  rw [List.max?_eq_none_iff, List.eq_nil_iff_forall_not_mem]
  exact forall_congr' fun u => not_congr h

/-- The times at which the listed constraints forbid a position are those of all constraints that were put in. -/
theorem mem_timesAt_ofList (own : ∀ c ∈ constraints, c.agent = agent) {p : Position} {t : Nat} :
    t ∈ (ofList agent constraints).toList.filterMap (·.timeAt? p) ↔ t ∈ {u | .vertex agent p u ∈ constraints} :=
  mem_timesAt_iff.trans (mem_vertex_iff own).symm

theorem reflects_ofList (own : ∀ c ∈ constraints, c.agent = agent) :
    (ofList agent constraints).Reflects agent constraints where
  vertex p t := (indexed_ofList agent constraints).violatesVertex_iff.trans (mem_vertex_iff own).symm
  edge t u v := (indexed_ofList agent constraints).violatesEdge_iff.trans (mem_edge_iff own).symm
  latest p t := by
    rw [latestVertexTime, (indexed_ofList agent constraints).latest]
    exact max?_eq_some_iff_isGreatest (mem_timesAt_ofList own)
  free p := by
    rw [latestVertexTime, (indexed_ofList agent constraints).latest]
    exact max?_eq_none_iff_forall (mem_timesAt_ofList own)
  last t := by
    rw [(indexed_ofList agent constraints).latestOfAll]
    exact max?_eq_some_iff_isGreatest mem_times_iff
  unconstrained := by
    rw [(indexed_ofList agent constraints).latestOfAll,
      max?_eq_none_iff_forall (S := {u | ∃ c ∈ constraints, c.timeStep = u}) mem_times_iff,
      List.eq_nil_iff_forall_not_mem]
    constructor
    · exact fun h c hc => h _ ⟨c, hc, rfl⟩
    · rintro h _ ⟨c, hc, -⟩
      exact h c hc
  once := by
    have hdistinct := List.pairwise_map.mp (indexed_ofList agent constraints).distinct
    refine hdistinct.imp_of_mem fun {c d} hc hd hne halike => hne ?_
    exact (forbids_eq_iff_of_mem own (mem_of_mem_ofList hc) (mem_of_mem_ofList hd)).mpr halike
  listed c hc := by
    obtain ⟨d, hd, heq⟩ := exists_listed hc
    exact ⟨d, hd, (forbids_eq_iff_of_mem own hc (mem_of_mem_ofList hd)).mp heq.symm⟩

/-- Whatever is put into an empty set, and in whatever order, the indexes tell of all of it. In the order of insertion
    the set lists the constraints that were new, and a constraint is new if it is unlike all before it. -/
theorem indexes_exact (agent : Nat) (constraints : List Constraint) (own : ∀ c ∈ constraints, c.agent = agent) :
    (ofList agent constraints).Reflects agent constraints ∧
      (ofList agent constraints).toList =
        ((constraints.zip ((empty agent).replies constraints)).filter Prod.snd).map Prod.fst ∧
      ∀ before c after, constraints = before ++ c :: after →
        ((empty agent).replies constraints)[before.length]? = some (decide (∀ d ∈ before, ¬c.Alike d)) := by
  refine ⟨reflects_ofList own, toList_ofList agent constraints, ?_⟩
  rintro before c after rfl
  have hreply : ((empty agent).replies (before ++ c :: after))[before.length]? =
      some ((ofList agent before).insertNew c).1 := by
    rw [replies_append, List.getElem?_append_right (Nat.le_of_eq (length_replies _ _)), length_replies, Nat.sub_self]
    rfl
  rw [hreply, Option.some.injEq, Bool.eq_iff_iff, decide_eq_true_iff, insertNew_ofList]
  exact forall₂_congr fun d hd => not_congr (forbids_eq_iff_of_mem own (by simp) (by simp [hd]))

/-- A cell at two times and again at the first of them, and an edge in both directions. -/
def patrol : List Constraint :=
  [.vertex 3 ⟨0, 1⟩ 5, .edge 3 ⟨0, 0⟩ ⟨0, 1⟩ 2, .vertex 3 ⟨0, 1⟩ 2, .edge 3 ⟨0, 1⟩ ⟨0, 0⟩ 2, .vertex 3 ⟨0, 1⟩ 5]

/-- The later time of the cell counts although it came first, and the edge is not new in the opposite direction. -/
theorem indexes_patrol : (∀ c ∈ patrol, c.agent = 3) ∧ (ofList 3 patrol).latestVertexTime ⟨0, 1⟩ = some 5 ∧
    (ofList 3 patrol).latestVertexTime ⟨0, 0⟩ = none ∧ (ofList 3 patrol).violatesEdge 2 ⟨0, 1⟩ ⟨0, 0⟩ = true ∧
    ((empty 3).replies patrol)[2]? = some true ∧ ((empty 3).replies patrol)[3]? = some false := by
  have own : ∀ c ∈ patrol, c.agent = 3 := by decide
  obtain ⟨hreflects, -, hreplies⟩ := indexes_exact 3 patrol own
  refine ⟨own, (hreflects.latest _ _).mpr ⟨by decide, fun t ht => ?_⟩, (hreflects.free _).mpr fun t ht => ?_,
    (hreflects.edge _ _ _).mpr (by decide), ?_, ?_⟩
  · have htimes : t = 5 ∨ t = 2 ∨ t = 5 := by simpa [patrol] using ht
    omega
  · simp [patrol] at ht
  · exact hreplies (patrol.take 2) (.vertex 3 ⟨0, 1⟩ 2) (patrol.drop 3) rfl
  · exact hreplies (patrol.take 3) (.edge 3 ⟨0, 1⟩ ⟨0, 0⟩ 2) (patrol.drop 4) rfl

/-! ### Membership -/

theorem contains_iff : s.contains c = true ↔ c ∈ s.toList := List.contains_iff_mem

/-- A set covers what it lists in one direction or the other. -/
theorem covers_ofList_iff (own : ∀ d ∈ constraints, d.agent = agent) (hc : c.agent = agent) :
    (ofList agent constraints).covers c = true ↔
      (ofList agent constraints).contains c = true ∨ (ofList agent constraints).contains c.reversed = true := by
  rw [(indexed_ofList agent constraints).covers_iff, forbidden, List.mem_map, contains_iff, contains_iff]
  have hsame : ∀ d ∈ (ofList agent constraints).toList, (d.forbids = c.forbids ↔ d = c ∨ d = c.reversed) :=
    fun d hd => Constraint.forbids_eq_iff ((own d (mem_of_mem_ofList hd)).trans hc.symm)
  constructor
  · rintro ⟨d, hd, heq⟩
    rcases (hsame d hd).mp heq with rfl | rfl
    · exact .inl hd
    · exact .inr hd
  · rintro (hd | hd)
    · exact ⟨_, hd, rfl⟩
    · exact ⟨_, hd, (hsame _ hd).mpr (.inr rfl)⟩

/-- A constraint is not new if it, or its edge in the opposite direction, is in the set. It is in the set after its
    insertion unless only the edge in the opposite direction was there before. -/
theorem insertNew_iff_contains (own : ∀ d ∈ constraints, d.agent = agent) (hc : c.agent = agent) :
    (((ofList agent constraints).insertNew c).1 = false ↔
      (ofList agent constraints).contains c = true ∨ (ofList agent constraints).contains c.reversed = true) ∧
    (((ofList agent constraints).insertNew c).2.contains c = true ↔
      (ofList agent constraints).contains c = true ∨ (ofList agent constraints).contains c.reversed = false) := by
  have hcovers := covers_ofList_iff own hc
  refine ⟨by rw [insertNew, Bool.not_eq_false', hcovers], ?_⟩
  show ((ofList agent constraints).insert c).contains c = true ↔ _
  cases h : (ofList agent constraints).covers c with
  | true =>
    rw [insert_of_covers h]
    refine ⟨.inl, fun hor => hor.elim id fun hno => ?_⟩
    exact (hcovers.mp h).resolve_right (by simp [hno])
  | false =>
    have hno : ¬(ofList agent constraints).contains c.reversed = true := fun hrev => by
      simp [hcovers.mpr (.inr hrev)] at h
    rw [insert_of_not_covers h, contains_iff, toList_record]
    exact ⟨fun _ => .inr (Bool.eq_false_iff.mpr hno), fun _ => List.mem_append_right _ (List.mem_singleton_self c)⟩

/-- After the insertion of an edge the opposite direction is neither new nor in the set. -/
theorem insertNew_patrol : (∀ d ∈ patrol, d.agent = 3) ∧
    ((ofList 3 patrol).insertNew (.edge 3 ⟨0, 1⟩ ⟨0, 0⟩ 2)).1 = false ∧
    ((ofList 3 patrol).insertNew (.edge 3 ⟨0, 2⟩ ⟨0, 1⟩ 2)).2.contains (.edge 3 ⟨0, 2⟩ ⟨0, 1⟩ 2) = true := by
  have own : ∀ c ∈ patrol, c.agent = 3 := by decide
  have hlisted : (ofList 3 patrol).toList = patrol.take 3 := by cbv
  refine ⟨own, (insertNew_iff_contains own rfl).1.mpr (.inr ?_), (insertNew_iff_contains own rfl).2.mpr (.inr ?_)⟩
  · rw [contains, hlisted]
    decide
  · rw [contains, hlisted]
    decide

/-- An edge is refused as already present although the set contains only the opposite direction of it, and the set does
    not contain it afterwards. -/
theorem reversed_edge_not_contained :
    ((ofList 0 [.edge 0 ⟨0, 0⟩ ⟨0, 1⟩ 1]).insertNew (.edge 0 ⟨0, 1⟩ ⟨0, 0⟩ 1)).1 = false ∧
      (ofList 0 [.edge 0 ⟨0, 0⟩ ⟨0, 1⟩ 1]).contains (.edge 0 ⟨0, 1⟩ ⟨0, 0⟩ 1) = false ∧
      ((ofList 0 [.edge 0 ⟨0, 0⟩ ⟨0, 1⟩ 1]).insertNew (.edge 0 ⟨0, 1⟩ ⟨0, 0⟩ 1)).2.contains
        (.edge 0 ⟨0, 1⟩ ⟨0, 0⟩ 1) = false := by
  refine ⟨?_, ?_, ?_⟩ <;> cbv

end ConstraintSet

end Mapf
