import Mapf.Proofs.Constraints.Exact
import Mapf.Proofs.Plans.Exact

/-! # Breaking constraints and being pruned

Two checks ask whether a path respects the constraints of its agent. One looks at the whole path, the other at each cell
as it is reached from the one before it. Both look at the same cells and moves, but the second one takes a wait for no
move at all, while the first one compares it with the constraints on edges like any other step. So they differ just
where an agent waits and an edge from its position to itself is forbidden (`SpaceTime.isViolatedBy_iff_rejects`). -/

namespace Mapf

namespace SpaceTime

open ConstraintSet

variable {path : Path} {set : ConstraintSet}

/-- Whether a pruning rejects the first cell of a path, or a later one after the cell before it. -/
def rejects (prune : Pruning Cell) (path : Path) : Bool :=
  path.head?.any (prune · none) || path.steps.any fun step => prune step.2 (some step.1)

/-- Whether a step is a wait that a constraint on an edge forbids. -/
def waitsOnEdge (set : ConstraintSet) (step : Cell × Cell) : Bool :=
  step.1.position = step.2.position && set.violatesEdge step.2.time step.1.position step.2.position

/-- A path meets what its first cell meets and what the cells meet to which its steps lead. -/
theorem any_eq_head_or_steps (path : Path) (test : Cell → Bool) :
    path.any test = (path.head?.any test || path.steps.any fun step => test step.2) := by
  cases path with
  | nil => rfl
  | cons first rest =>
    have hsteps : (Path.steps (first :: rest)).map Prod.snd = rest := List.map_snd_zip (by simp)
    calc (first :: rest).any test
      _ = (test first || rest.any test) := rfl
      _ = (test first || ((Path.steps (first :: rest)).map Prod.snd).any test) := by rw [hsteps]
      _ = (test first || (Path.steps (first :: rest)).any fun step => test step.2) := by rw [List.any_map]; rfl

theorem pruneConstraints_none (set : ConstraintSet) (c : Cell) :
    pruneConstraints set c none = set.violatesVertex c := by
  simp [pruneConstraints]

/-- What forbids a step by its cell or its edge is what prunes it, or it is a wait. -/
theorem violates_eq_prune_or_wait (set : ConstraintSet) (c d : Cell) :
    (set.violatesVertex d || set.violatesEdge d.time c.position d.position) =
      (pruneConstraints set d (some c) || waitsOnEdge set (c, d)) := by
  by_cases hwait : c.position = d.position <;> simp [pruneConstraints, waitsOnEdge, hwait]

theorem any_or {α : Type} (l : List α) (f g : α → Bool) : (l.any fun a => f a || g a) = (l.any f || l.any g) := by
  induction l with
  | nil => rfl
  | cons a rest ih =>
    rw [List.any_cons, List.any_cons, List.any_cons, ih]
    ac_rfl

/-- The check of a path finds what the pruning rejects, and the waits on forbidden edges. -/
theorem isViolatedBy_eq (set : ConstraintSet) (path : Path) : set.isViolatedBy path =
    (rejects (pruneConstraints set) path || path.steps.any (waitsOnEdge set)) := by
  have hcells : path.any set.violatesVertex =
      (path.head?.any set.violatesVertex || path.steps.any fun step => set.violatesVertex step.2) :=
    any_eq_head_or_steps path set.violatesVertex
  have hfirst : path.head?.any (pruneConstraints set · none) = path.head?.any set.violatesVertex := by
    simp only [pruneConstraints_none]
  have hsteps : ((path.steps.any fun step => set.violatesVertex step.2) ||
      path.steps.any fun step => set.violatesEdge step.2.time step.1.position step.2.position) =
      ((path.steps.any fun step => pruneConstraints set step.2 (some step.1)) || path.steps.any (waitsOnEdge set)) := by
    rw [← any_or, ← any_or]
    exact congrArg path.steps.any (funext fun step => violates_eq_prune_or_wait set step.1 step.2)
  rw [isViolatedBy, rejects, hcells, hfirst, Bool.or_assoc, hsteps, Bool.or_assoc]

/-- Whatever constraints were put into a set: a path breaks one of them if the pruning rejects its first cell or one of
    its steps, or if the path waits at a position when a constraint on the edge from there to itself forbids it. -/
theorem isViolatedBy_iff_rejects (agent : Nat) (constraints : List Constraint) (path : Path) :
    (ofList agent constraints).isViolatedBy path = true ↔
      rejects (pruneConstraints (ofList agent constraints)) path = true ∨
        ∃ c d, (c, d) ∈ path.steps ∧ c.position = d.position ∧
          ∃ o, .edge o d.position d.position d.time ∈ constraints := by
  have hforbids : ∀ p t, (ofList agent constraints).violatesEdge t p p = true ↔ ∃ o, .edge o p p t ∈ constraints :=
    fun p t => (indexed_ofList agent constraints).violatesEdge_iff.trans Plan.mem_forbidden_between_self
  have hwaits : path.steps.any (waitsOnEdge (ofList agent constraints)) = true ↔
      ∃ c d, (c, d) ∈ path.steps ∧ c.position = d.position ∧
        ∃ o, .edge o d.position d.position d.time ∈ constraints := by
    simp only [List.any_eq_true, Prod.exists, waitsOnEdge, Bool.and_eq_true, decide_eq_true_eq]
    refine exists₂_congr fun c d => and_congr_right fun _ => and_congr_right fun hwait => ?_
    rw [hwait, hforbids]
  rw [isViolatedBy_eq, Bool.or_eq_true, hwaits]

/-- A path that waits at its start before it moves on, under a constraint on the edge from the start to itself. The
    pruning rejects none of it, and yet the path breaks the constraint. -/
theorem breaks_unrejected :
    (ofList 0 [.vertex 0 ⟨0, 1⟩ 1, .edge 0 ⟨0, 0⟩ ⟨0, 0⟩ 1]).isViolatedBy
        (.ofPositions [⟨0, 0⟩, ⟨0, 0⟩, ⟨0, 1⟩]) = true ∧
      rejects (pruneConstraints (ofList 0 [.vertex 0 ⟨0, 1⟩ 1, .edge 0 ⟨0, 0⟩ ⟨0, 0⟩ 1]))
        (.ofPositions [⟨0, 0⟩, ⟨0, 0⟩, ⟨0, 1⟩]) = false := by
  refine ⟨?_, ?_⟩ <;> cbv

end SpaceTime

end Mapf
