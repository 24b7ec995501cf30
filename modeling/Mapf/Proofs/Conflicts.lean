import Mapf.Conflict
import Mapf.Proofs.Constraints

/-! # Conflicts

Two paths are apart if their agents never stand on the same position and never exchange places, at any
time and also after the end of either path (`Path.Apart`). The conflicts found among paths are real ones
(`mem_detect`), none are found exactly if every two paths are apart (`detect_eq_nil_iff`), and paths that
are apart keep at least one of the two constraints of any conflict (`avoids_of_apart`). -/

namespace Mapf

theorem foldl_max_le_iff {l : List Nat} {a b : Nat} : l.foldl max a ≤ b ↔ a ≤ b ∧ ∀ x ∈ l, x ≤ b := by
  induction l generalizing a with
  | nil => simp
  | cons x rest ih =>
    rw [List.foldl_cons, ih, List.forall_mem_cons, Nat.max_le, and_assoc]

namespace Path

variable {path a b : Path} {t : Nat} {p q : Position}

theorem positionAt_of_lt (h : t < path.length) : path.positionAt t = some path[t].position := by
  simp [positionAt, h]

theorem positionAt_of_le (h : path.length ≤ t) : path.positionAt t = path.getLast?.map Cell.position := by
  simp [positionAt, List.getElem?_eq_none h]

/-- From its last cell on the position of a path stays the same. -/
theorem positionAt_parked (h : path.length ≤ t + 1) : path.positionAt t = path.positionAt (path.length - 1) := by
  rcases Nat.lt_or_ge t path.length with hlt | hge
  · rw [show path.length - 1 = t by omega]
  · rw [positionAt_of_le hge]
    cases path with
    | nil => rfl
    | cons cell rest => simp [positionAt, List.getLast?_eq_getElem?]

theorem moveAt_eq_some_iff : path.moveAt t = some (p, q) ↔
    ∃ u, t = u + 1 ∧ t < path.length ∧ path.positionAt u = some p ∧ path.positionAt t = some q := by
  cases t with
  | zero => simp [moveAt]
  | succ u =>
    rcases Nat.lt_or_ge (u + 1) path.length with hlt | hge
    · have hu : u < path.length := by omega
      simp [moveAt, positionAt_of_lt, hu, hlt]
    · simp [moveAt, List.getElem?_eq_none hge]
      omega

theorem moveAt_of_ne (hp : path.positionAt t = some p)
    (hq : path.positionAt (t + 1) = some q) (hne : p ≠ q) : path.moveAt (t + 1) = some (p, q) := by
  refine moveAt_eq_some_iff.mpr ⟨t, rfl, ?_, hp, hq⟩
  by_contra hlt
  -- From its last cell on the agent does not move.
  have hparked : path.positionAt t = path.positionAt (path.length - 1) := positionAt_parked (by omega)
  rw [← positionAt_parked (t := t + 1) (by omega), hp, hq] at hparked
  exact hne (Option.some.inj hparked)

/-- Two agents never share a position and never exchange places, also after their paths have ended. -/
structure Apart (a b : Path) : Prop where
  position : ∀ {t : Nat} {p : Position}, a.positionAt t = some p → b.positionAt t ≠ some p
  swap : ∀ {t : Nat} {p q : Position}, a.moveAt t = some (p, q) → b.moveAt t ≠ some (q, p)

end Path

/-- A path, continued at its last cell for ever, does what a constraint forbids: it is at the position at that
    time, or it goes from one end of the edge to the other and arrives at that time. -/
def Path.Breaks (path : Path) : Constraint → Prop
  | .vertex _ position timeStep => path.positionAt timeStep = some position
  | .edge _ source target timeStep => ∃ before, timeStep = before + 1 ∧
      (path.positionAt before = some source ∧ path.positionAt timeStep = some target ∨
        path.positionAt before = some target ∧ path.positionAt timeStep = some source)

/-- A constraint on an edge with two different ends, or on a position. -/
def Constraint.Proper : Constraint → Prop
  | .vertex _ _ _ => True
  | .edge _ source target _ => source ≠ target

theorem Path.Avoids.not_breaks {path : Path} {c : Constraint} (h : path.Avoids c.forbids) (hc : c.Proper) :
    ¬path.Breaks c := by
  cases c with
  | vertex agent p t => exact h
  | edge agent u v t =>
    rintro ⟨before, rfl, hpos⟩
    have hmove : ∀ {p q}, path.moveAt (before + 1) = some (p, q) → p ≠ q →
        TimedEdge.between (before + 1) p q ≠ .between (before + 1) u v := fun hm hne => by
      have hav := @h
      simp only [Constraint.forbids, Avoids, TimedEdge.timeStep_between] at hav
      exact hav hm hne
    rcases hpos with ⟨hu, hv⟩ | ⟨hv, hu⟩
    · exact hmove (moveAt_of_ne hu hv hc) hc rfl
    · exact hmove (moveAt_of_ne hv hu hc.symm) hc.symm (TimedEdge.between_comm _ _ _)

namespace Conflict

variable {a b : Path} {t : Nat}

open Mapf.Path

theorem kindAt_eq_some_iff {kind : ConflictKind} : kindAt a b t = some kind ↔
    (∃ p, kind = .vertex p t ∧ a.positionAt t = some p ∧ b.positionAt t = some p) ∨
      ∃ p q, kind = .edge p q t ∧ p ≠ q ∧ a.moveAt t = some (p, q) ∧ b.moveAt t = some (q, p) := by
  have hends : ∀ {path : Path} {p q : Position}, path.moveAt t = some (p, q) → path.positionAt t = some q := by
    intro path p q hm
    obtain ⟨u, -, -, -, hq⟩ := moveAt_eq_some_iff.mp hm
    exact hq
  constructor
  · unfold kindAt
    intro h
    split at h
    case h_1 p₁ p₂ h₁ h₂ =>
      split at h
      case isTrue heq =>
        cases h
        exact .inl ⟨p₁, rfl, h₁, heq ▸ h₂⟩
      case isFalse hne =>
        split at h
        case h_1 source target move hm₁ hm₂ =>
          split at h
          case isTrue heq =>
            cases h
            refine .inr ⟨source, target, rfl, fun he => hne ?_, hm₁, heq ▸ hm₂⟩
            have e₁ := h₁.symm.trans (hends hm₁)
            have e₂ := h₂.symm.trans (hends (heq ▸ hm₂))
            rw [Option.some.inj e₁, Option.some.inj e₂, he]
          case isFalse => cases h
        case h_2 => cases h
    case h_2 => cases h
  · rintro (⟨p, rfl, h₁, h₂⟩ | ⟨p, q, rfl, hne, h₁, h₂⟩)
    · simp [kindAt, h₁, h₂]
    · simp [kindAt, hends h₁, hends h₂, h₁, h₂, hne.symm]

theorem timeStep_of_kindAt {c : Conflict} (h : kindAt a b t = some c.kind) : c.timeStep = t := by
  rcases kindAt_eq_some_iff.mp h with ⟨p, hk, -⟩ | ⟨p, q, hk, -⟩ <;> rw [timeStep, hk]

theorem apart_iff : Apart a b ↔ ∀ t, kindAt a b t = none := by
  constructor
  · intro h t
    rw [Option.eq_none_iff_forall_ne_some]
    intro kind hk
    rcases kindAt_eq_some_iff.mp hk with ⟨p, -, h₁, h₂⟩ | ⟨p, q, -, -, h₁, h₂⟩
    · exact h.position h₁ h₂
    · exact h.swap h₁ h₂
  · intro h
    have hpos : ∀ {t p}, a.positionAt t = some p → b.positionAt t ≠ some p := fun {t p} h₁ h₂ => by
      have := kindAt_eq_some_iff.mpr (.inl ⟨p, rfl, h₁, h₂⟩)
      rw [h t] at this
      cases this
    refine ⟨hpos, fun {t p q} h₁ h₂ => ?_⟩
    by_cases hpq : p = q
    · subst hpq
      obtain ⟨_, -, -, -, hp⟩ := moveAt_eq_some_iff.mp h₁
      obtain ⟨_, -, -, -, hp'⟩ := moveAt_eq_some_iff.mp h₂
      exact hpos hp hp'
    · have := kindAt_eq_some_iff.mpr (.inr ⟨p, q, rfl, hpq, h₁, h₂⟩)
      rw [h t] at this
      cases this

/-- Paths are apart for all time if they do not conflict before both have ended. -/
theorem apart_of_lt {n : Nat} (ha : a.length ≤ n) (hb : b.length ≤ n) (h : ∀ t < n, kindAt a b t = none) :
    Apart a b := by
  rw [apart_iff]
  intro t
  rcases Nat.lt_or_ge t n with ht | ht
  · exact h t ht
  rw [Option.eq_none_iff_forall_ne_some]
  intro kind hk
  rcases kindAt_eq_some_iff.mp hk with ⟨p, -, h₁, h₂⟩ | ⟨p, q, -, -, h₁, -⟩
  · -- Both agents were at `p` already at the last time that was looked at.
    have hn : n ≠ 0 := by
      rintro rfl
      rw [List.length_eq_zero_iff.mp (Nat.le_zero.mp ha)] at h₁
      cases h₁
    rw [positionAt_parked (by omega), ← positionAt_parked (t := n - 1) (by omega)] at h₁ h₂
    have := kindAt_eq_some_iff.mpr (.inl ⟨p, rfl, h₁, h₂⟩)
    rw [h _ (by omega)] at this
    cases this
  · obtain ⟨u, -, hlt, -⟩ := moveAt_eq_some_iff.mp h₁
    omega

/-! ### The scan -/

theorem mem_pairs {α : Type} {l : List α} {x y : α} :
    (x, y) ∈ pairs l ↔ ∃ i j : Nat, i < j ∧ l[i]? = some x ∧ l[j]? = some y := by
  induction l with
  | nil => simp [pairs]
  | cons z rest ih =>
    simp only [pairs, List.mem_append, List.mem_map, Prod.mk.injEq, ih]
    constructor
    · rintro (⟨w, hw, rfl, rfl⟩ | ⟨i, j, hij, hi, hj⟩)
      · obtain ⟨j, hj⟩ := List.mem_iff_getElem?.mp hw
        exact ⟨0, j + 1, by omega, rfl, hj⟩
      · exact ⟨i + 1, j + 1, by omega, hi, hj⟩
    · rintro ⟨i, j, hij, hi, hj⟩
      obtain ⟨j, rfl⟩ : ∃ k, j = k + 1 := ⟨j - 1, by omega⟩
      cases i with
      | zero => exact .inl ⟨y, List.mem_iff_getElem?.mpr ⟨j, hj⟩, Option.some.inj hi, rfl⟩
      | succ i => exact .inr ⟨i, j, by omega, hi, hj⟩

theorem mem_pairs_zipIdx {α : Type} {l : List α} {x y : α} {i j : Nat} :
    ((x, i), (y, j)) ∈ pairs l.zipIdx ↔ i < j ∧ l[i]? = some x ∧ l[j]? = some y := by
  rw [mem_pairs]
  simp only [List.getElem?_zipIdx, Nat.zero_add, Option.map_eq_some_iff, Prod.mk.injEq]
  constructor
  · rintro ⟨i', j', hij, ⟨_, hx, rfl, rfl⟩, ⟨_, hy, rfl, rfl⟩⟩
    exact ⟨hij, hx, hy⟩
  · rintro ⟨hij, hx, hy⟩
    exact ⟨i, j, hij, ⟨x, hx, rfl, rfl⟩, ⟨y, hy, rfl, rfl⟩⟩

theorem longest_le_iff {paths : List Path} {n : Nat} : longest paths ≤ n ↔ ∀ path ∈ paths, path.length ≤ n := by
  simp [longest, foldl_max_le_iff]

theorem mem_detect {paths : List Path} {c : Conflict} : c ∈ detect paths ↔
    c.agent1 < c.agent2 ∧ c.timeStep < longest paths ∧ ∃ a b, paths[c.agent1]? = some a ∧
      paths[c.agent2]? = some b ∧ kindAt a b c.timeStep = some c.kind := by
  simp only [detect, List.mem_flatMap, List.mem_range, List.mem_filterMap, Option.map_eq_some_iff]
  constructor
  · rintro ⟨t, ht, ⟨⟨a, i⟩, b, j⟩, hmem, kind, hk, rfl⟩
    obtain ⟨hij, ha, hb⟩ := mem_pairs_zipIdx.mp hmem
    rw [timeStep_of_kindAt (c := ⟨i, j, kind⟩) hk]
    exact ⟨hij, ht, a, b, ha, hb, hk⟩
  · rintro ⟨hij, ht, a, b, ha, hb, hk⟩
    exact ⟨c.timeStep, ht, ((a, c.agent1), b, c.agent2), mem_pairs_zipIdx.mpr ⟨hij, ha, hb⟩, c.kind, hk, rfl⟩

/-- No conflict is found exactly if every two paths are apart for all time. -/
theorem detect_eq_nil_iff {paths : List Path} : detect paths = [] ↔ paths.Pairwise Apart := by
  rw [List.eq_nil_iff_forall_not_mem, List.pairwise_iff_getElem]
  constructor
  · intro h i j hi hj hij
    have hle := longest_le_iff.mp (Nat.le_refl (longest paths))
    refine apart_of_lt (hle _ (List.getElem_mem hi)) (hle _ (List.getElem_mem hj)) fun t ht => ?_
    rw [Option.eq_none_iff_forall_ne_some]
    intro kind hk
    have htime := timeStep_of_kindAt (c := ⟨i, j, kind⟩) hk
    refine h ⟨i, j, kind⟩ (mem_detect.mpr ⟨hij, by rwa [htime], paths[i], paths[j], ?_, ?_, by rwa [htime]⟩)
    · exact List.getElem?_eq_getElem hi
    · exact List.getElem?_eq_getElem hj
  · intro h c hc
    obtain ⟨hij, -, a, b, ha, hb, hk⟩ := mem_detect.mp hc
    obtain ⟨hi, rfl⟩ := List.getElem?_eq_some_iff.mp ha
    obtain ⟨hj, rfl⟩ := List.getElem?_eq_some_iff.mp hb
    rw [apart_iff.mp (h c.agent1 c.agent2 hi hj hij)] at hk
    cases hk

/-! ### Resolving a conflict -/

theorem agent_constraints (c : Conflict) :
    c.constraints.1.agent = c.agent1 ∧ c.constraints.2.agent = c.agent2 := by
  obtain ⟨i, j, kind⟩ := c
  cases kind <;> exact ⟨rfl, rfl⟩

/-- Paths that are apart keep at least one of the two constraints of a conflict. -/
theorem avoids_of_apart (h : Apart a b) (c : Conflict) :
    a.Avoids c.constraints.1.forbids ∨ b.Avoids c.constraints.2.forbids := by
  obtain ⟨i, j, kind⟩ := c
  cases kind with
  | vertex p t =>
    by_cases hp : a.positionAt t = some p
    · exact .inr (h.position hp)
    · exact .inl hp
  | edge u v t =>
    by_contra hno
    rw [not_or] at hno
    simp only [constraints, Constraint.forbids, Avoids, TimedEdge.timeStep_between, not_forall] at hno
    obtain ⟨⟨p, q, hm₁, -, he₁⟩, r, s, hm₂, -, he₂⟩ := hno
    rw [not_not, TimedEdge.between_eq_iff] at he₁ he₂
    obtain ⟨_, -, -, -, hq⟩ := moveAt_eq_some_iff.mp hm₁
    obtain ⟨_, -, -, -, hs⟩ := moveAt_eq_some_iff.mp hm₂
    -- Both use the edge: in opposite directions they swap, in the same one they meet at its end.
    obtain ⟨-, ⟨rfl, rfl⟩ | ⟨rfl, rfl⟩⟩ := he₁ <;> obtain ⟨-, ⟨rfl, rfl⟩ | ⟨rfl, rfl⟩⟩ := he₂
    · exact h.swap hm₁ hm₂
    · exact h.position hq hs
    · exact h.position hq hs
    · exact h.swap hm₁ hm₂

/-- A conflict breaks both of its constraints. -/
theorem not_avoids_of_kindAt {c : Conflict} (h : kindAt a b c.timeStep = some c.kind) :
    ¬a.Avoids c.constraints.1.forbids ∧ ¬b.Avoids c.constraints.2.forbids := by
  rcases kindAt_eq_some_iff.mp h with ⟨p, hk, h₁, h₂⟩ | ⟨p, q, hk, hne, h₁, h₂⟩
  · simp only [constraints, hk]
    exact ⟨fun hav => hav h₁, fun hav => hav h₂⟩
  · simp only [constraints, hk, Constraint.forbids, Avoids, TimedEdge.timeStep_between]
    exact ⟨fun hav => hav h₁ hne rfl, fun hav => hav h₂ hne.symm rfl⟩

/-- The two sides of a conflict restrict positions, or edges with two different ends. -/
theorem proper_constraints {c : Conflict} (h : kindAt a b c.timeStep = some c.kind) :
    c.constraints.1.Proper ∧ c.constraints.2.Proper := by
  rcases kindAt_eq_some_iff.mp h with ⟨p, hk, -⟩ | ⟨p, q, hk, hne, -⟩
  · simp only [constraints, hk]
    exact ⟨trivial, trivial⟩
  · simp only [constraints, hk]
    exact ⟨hne, hne.symm⟩

end Conflict

end Mapf
