import Mapf.Proofs.Tree.Launch

/-! # No joint plan is lost

As long as the tree search goes on, some waiting node admits a given joint plan: its constraints forbid
nothing that the plan does (`Solver.Covers`). Splitting keeps that, because conflict-free paths keep one of
the two constraints of every conflict, and because an agent that cannot be planned again has no route. A
node that admits a joint plan costs no more than the plan. Hence a solution is a cheapest one, and a search
that finds none leaves no joint plan. -/

namespace Mapf

theorem foldl_mono {f : Nat → Nat → Nat} (hf : ∀ {a b x y : Nat}, a ≤ b → x ≤ y → f a x ≤ f b y) {xs ys : List Nat}
    (h : List.Forall₂ (· ≤ ·) xs ys) {a b : Nat} (hab : a ≤ b) : xs.foldl f a ≤ ys.foldl f b := by
  induction h generalizing a b with
  | nil => exact hab
  | cons hxy _ ih => exact ih (hf hab hxy)

/-- The combined cost does not decrease when the costs of the agents increase. -/
theorem CostType.combine_mono (costType : CostType) {xs ys : List Nat} (h : List.Forall₂ (· ≤ ·) xs ys) :
    costType.combine xs ≤ costType.combine ys := by
  cases costType with
  | sumOfCosts => exact foldl_mono Nat.add_le_add h (Nat.le_refl 0)
  | makespan => exact foldl_mono (fun hab hxy => by omega) h (Nat.le_refl 0)

namespace JointPlan

variable {env : Environment} {agents : List Agent}

theorem length_routes (plan : JointPlan env agents) : plan.routes.length = agents.length := plan.travels.length_eq.symm

/-- The route of an agent, its path and its cost. -/
theorem route (plan : JointPlan env agents) {i : Nat} {agent : Agent} (h : agents[i]? = some agent) :
    ∃ ps cost, agent.Travels env ps cost ∧ plan.paths[i]? = some (Path.ofPositions ps) ∧
      plan.costs[i]? = some cost := by
  obtain ⟨hi, rfl⟩ := List.getElem?_eq_some_iff.mp h
  have hi' : i < plan.routes.length := plan.length_routes ▸ hi
  exact ⟨plan.routes[i].1, plan.routes[i].2, plan.travels.get hi hi', by simp [paths, hi'], by simp [costs, hi']⟩

theorem apart (plan : JointPlan env agents) {i j : Nat} (hij : i < j) {a b : Path} (ha : plan.paths[i]? = some a)
    (hb : plan.paths[j]? = some b) : a.Apart b := by
  obtain ⟨hi, rfl⟩ := List.getElem?_eq_some_iff.mp ha
  obtain ⟨hj, rfl⟩ := List.getElem?_eq_some_iff.mp hb
  exact List.pairwise_iff_getElem.mp (Conflict.detect_eq_nil_iff.mp plan.free) i j hi hj hij

end JointPlan

/-- The constraints of a node forbid nothing that the paths do. -/
def TreeNode.Admits (node : TreeNode) (paths : List Path) : Prop :=
  ∀ {i : Nat} {set : ConstraintSet} {path : Path}, node.constraints[i]? = some set → paths[i]? = some path →
    path.Keeps set

namespace Solver

variable {s : Solver} {node : TreeNode}

/-- The plans of a solver are best ones for all its agents. -/
def Knowing (s : Solver) : Prop :=
  ∀ {i : Nat} {agent : Agent} {table : DistanceTable}, s.agents[i]? = some agent → s.tables[i]? = some table →
    Informed s.env agent table

/-- A node that admits a joint plan costs no more than the plan. -/
theorem Fits.cost_le (h : s.Fits node) (hk : s.Knowing) {plan : JointPlan s.env s.agents}
    (ha : node.Admits plan.paths) : node.cost ≤ s.costType.combine plan.costs := by
  rw [h.cost]
  refine s.costType.combine_mono (List.forall₂_iff_get.mpr ⟨?_, fun i hi hi' => ?_⟩)
  · rw [h.costs_length, JointPlan.costs, List.length_map, plan.length_routes]
  · obtain ⟨agent, table, set, best, hh⟩ := h.holds (h.costs_length ▸ hi)
    obtain ⟨ps, cost, ht, hpath, hcost⟩ := plan.route hh.agent_eq
    have hle := hh.best.least (hk hh.agent_eq hh.table_eq) ht (ha hh.set_eq hpath)
    have h₁ := (List.getElem?_eq_some_iff.mp hh.cost_eq).2
    have h₂ := (List.getElem?_eq_some_iff.mp hcost).2
    rw [List.get_eq_getElem, List.get_eq_getElem, h₁, h₂]
    exact hle

/-- The child for a constraint that a joint plan keeps exists and admits the plan. -/
theorem Grown.admits {k : Constraint} {o : Option TreeNode} (hg : s.Grown node k o) (hk : s.Knowing)
    (hset : ∀ {set : ConstraintSet}, node.constraints[k.agent]? = some set → set.Indexed)
    {plan : JointPlan s.env s.agents} (ha : node.Admits plan.paths)
    (hav : ∀ {path : Path}, plan.paths[k.agent]? = some path → path.Avoids k.forbids) :
    ∃ child, o = some child ∧ child.Admits plan.paths := by
  have hkeeps : ∀ {set path}, node.constraints[k.agent]? = some set → plan.paths[k.agent]? = some path →
      path.Keeps (set.insert k) := fun hs hp => (Path.keeps_insert (hset hs)).mpr ⟨ha hs hp, hav hp⟩
  cases hg with
  | child hagent htable hs _ =>
    refine ⟨_, rfl, fun {i u path} hu hp => ?_⟩
    simp only [TreeNode.replace, List.getElem?_set] at hu
    split at hu
    case isTrue hi =>
      subst hi
      split at hu
      · cases hu
        exact hkeeps hs hp
      · cases hu
    case isFalse => exact ha hu hp
  | barren hagent htable hs hno =>
    obtain ⟨ps, cost, ht, hpath, -⟩ := plan.route hagent
    exact absurd (hkeeps hs hpath) (hno (hk hagent htable) ht)

/-- One of the children of a node that admits a joint plan admits it. -/
theorem Fits.admits_child (h : s.Fits node) (hk : s.Knowing) {c : Conflict} (hc : c ∈ node.conflicts)
    {plan : JointPlan s.env s.agents} (ha : node.Admits plan.paths) {first second : Option TreeNode}
    (hfirst : s.Grown node c.constraints.1 first) (hsecond : s.Grown node c.constraints.2 second) :
    ∃ child ∈ first.toList ++ second.toList, child.Admits plan.paths := by
  obtain ⟨_, _, _, _, hh₁, -⟩ := h.fresh hc (.inl rfl)
  obtain ⟨_, _, _, _, hh₂, -⟩ := h.fresh hc (.inr rfl)
  obtain ⟨hc₁, hc₂⟩ := c.agent_constraints
  obtain ⟨ps₁, _, -, hp₁, -⟩ := plan.route hh₁.agent_eq
  obtain ⟨ps₂, _, -, hp₂, -⟩ := plan.route hh₂.agent_eq
  have hlt : c.agent1 < c.agent2 := (Conflict.mem_detect.mp (h.conflicts ▸ hc)).1
  have hapart := plan.apart hlt (hc₁ ▸ hp₁) (hc₂ ▸ hp₂)
  rcases Conflict.avoids_of_apart hapart c with hav | hav
  · obtain ⟨child, rfl, hchild⟩ := hfirst.admits hk (fun hs => by cases hs.symm.trans hh₁.set_eq; exact hh₁.indexed)
      ha (fun hp => by cases hp.symm.trans hp₁; exact hav)
    exact ⟨child, by simp, hchild⟩
  · obtain ⟨child, rfl, hchild⟩ := hsecond.admits hk (fun hs => by cases hs.symm.trans hh₂.set_eq; exact hh₂.indexed)
      ha (fun hp => by cases hp.symm.trans hp₂; exact hav)
    exact ⟨child, by simp, hchild⟩

/-- Some waiting node admits the joint plan. -/
def Covers (t : Progress) {env : Environment} {agents : List Agent} (plan : JointPlan env agents) : Prop :=
  ∃ node ∈ t.nodes, node.Admits plan.paths

variable {clock : Clock} {budget : Budget} {t u : Progress}

theorem covers_root {r : Progress} (h : Launched s clock budget (.next r)) (plan : JointPlan s.env s.agents) :
    Covers r plan := by
  cases h with
  | rooted _ _ hnodes _ =>
    refine ⟨_, by rw [hnodes]; exact List.mem_singleton_self _, fun {i set path} hset _ => ?_⟩
    simp only [TreeNode.root, List.getElem?_map, Option.map_eq_some_iff] at hset
    obtain ⟨j, -, rfl⟩ := hset
    exact path.keeps_empty j

theorem covers_turn (ht : s.Growing t) (hk : s.Knowing) {plan : JointPlan s.env s.agents} (hc : Covers t plan)
    (h : Turn s clock budget t (.next u)) : Covers u plan := by
  obtain ⟨n, hn, ha⟩ := hc
  cases h with
  | @split node others c first second _ hperm _ hconf hfirst hsecond _ hu _ =>
    rcases List.mem_cons.mp (hperm.mem_iff.mp hn) with rfl | hn
    · obtain ⟨child, hchild, hadm⟩ := (ht.fits _ (hperm.mem_iff.mpr List.mem_cons_self)).admits_child hk hconf ha
        hfirst hsecond
      exact ⟨child, hu.mem_iff.mpr (List.mem_append_left _ hchild), hadm⟩
    · exact ⟨n, hu.mem_iff.mpr (List.mem_append_right _ hn), ha⟩

end Solver

end Mapf
