import Mapf.Proofs.Solutions

/-! # What the independent check decides

The check accepts a solution exactly if the agents have ids of their own, the ids are those that have a path, each
path guides its agent, and no two agents are ever at the same position or change places, where an agent stays at
its last cell for all time (`Solution.verify_decides`).

A node of a tree search that still has conflicts stands for a solution that passes the check in everything else
(`Solver.Fits.guided`). -/

namespace Mapf

namespace Path

variable {a b : Path}

theorem positionAt_isSome {path : Path} (h : path ≠ []) (t : Nat) : ∃ p, path.positionAt t = some p := by
  rcases Nat.lt_or_ge t path.length with hlt | hge
  · exact ⟨_, positionAt_of_lt hlt⟩
  · exact ⟨(path.getLast h).position, by rw [positionAt_of_le hge, List.getLast?_eq_some_getLast h, Option.map_some]⟩

theorem Apart.symm (h : a.Apart b) : b.Apart a where
  position hb ha := h.position ha hb
  swap hb ha := h.swap ha hb

/-- Two agents are apart if at no time they are at the same position, or each of them will be next where the other
    one is. -/
theorem apart_iff_positionAt (ha : a ≠ []) (hb : b ≠ []) : a.Apart b ↔ ∀ t, a.positionAt t ≠ b.positionAt t ∧
    ¬(a.positionAt (t + 1) = b.positionAt t ∧ b.positionAt (t + 1) = a.positionAt t) := by
  constructor
  · intro h t
    obtain ⟨p, hp⟩ := positionAt_isSome ha t
    obtain ⟨q, hq⟩ := positionAt_isSome hb t
    have hne : p ≠ q := fun heq => h.position hp (heq ▸ hq)
    rw [hp, hq]
    refine ⟨fun heq => hne (Option.some.inj heq), fun ⟨ha', hb'⟩ => ?_⟩
    exact h.swap (moveAt_of_ne hp ha' hne) (moveAt_of_ne hq hb' hne.symm)
  · intro h
    refine ⟨fun {t p} hp hq => (h t).1 (hp.trans hq.symm), fun {t p q} hm₁ hm₂ => ?_⟩
    obtain ⟨u, rfl, -, hp, hq⟩ := moveAt_eq_some_iff.mp hm₁
    obtain ⟨v, hv, -, hq', hp'⟩ := moveAt_eq_some_iff.mp hm₂
    obtain rfl : v = u := by omega
    exact (h v).2 ⟨hq.trans hq'.symm, hp'.trans hp.symm⟩

end Path

theorem Path.Guides.ne_nil {path : Path} {env : Environment} {agent : Agent} (h : path.Guides env agent) :
    path ≠ [] := by
  rintro rfl
  cases h.start

namespace Solution

variable {solution : Solution} {env : Environment} {agents : List Agent}

/-- The paths of all agents, in the order of the agents. -/
def inOrder (solution : Solution) (agents : List Agent) : List Path :=
  agents.filterMap fun agent => solution.paths.get? agent.id

/-- What the check asks of a solution, apart from the conflicts. -/
structure Guided (solution : Solution) (env : Environment) (agents : List Agent) : Prop where
  size : solution.paths.size = agents.length
  ids : (agents.map Agent.id).Nodup
  paths : ∀ agent ∈ agents, ∃ path, solution.paths.get? agent.id = some path ∧ connects path agent = true ∧
    staysInside path env = true ∧ followsEdges path env = true

theorem verify_iff_guided : solution.verify env agents = true ↔
    solution.Guided env agents ∧ Conflict.count (solution.inOrder agents) = 0 := by
  simp only [verify, Bool.and_eq_true, decide_eq_true_eq, List.all_eq_true, Option.any_eq_true, and_assoc]
  constructor
  · rintro ⟨hsize, hids, hpaths, hcount⟩
    exact ⟨⟨hsize, hids, hpaths⟩, hcount⟩
  · rintro ⟨h, hcount⟩
    exact ⟨h.size, h.ids, h.paths, hcount⟩

/-- The check decides whether the ids are distinct and just the ones that have a path, all paths guide their agents,
    and two agents are never at one position and never change places. -/
theorem verify_decides (solution : Solution) (env : Environment) (agents : List Agent) :
    solution.verify env agents = true ↔
      (agents.map Agent.id).Nodup ∧
      (∀ id, id ∈ solution.paths.keys ↔ id ∈ agents.map Agent.id) ∧
      (∀ agent ∈ agents, ∃ path, solution.paths.get? agent.id = some path ∧ path.Guides env agent) ∧
      ∀ a ∈ agents, ∀ b ∈ agents, a.id ≠ b.id → ∀ p q, solution.paths.get? a.id = some p →
        solution.paths.get? b.id = some q → ∀ t, p.positionAt t ≠ q.positionAt t ∧
          ¬(p.positionAt (t + 1) = q.positionAt t ∧ q.positionAt (t + 1) = p.positionAt t) := by
  rw [verify_eq_true_iff]
  -- A path that is found is the one that guides its agent, so it is not empty.
  have hne : (∀ agent ∈ agents, ∃ path, solution.paths.get? agent.id = some path ∧ path.Guides env agent) →
      ∀ a ∈ agents, ∀ p, solution.paths.get? a.id = some p → p ≠ [] := by
    intro hguided a ha p hp
    obtain ⟨path, hpath, hguides⟩ := hguided a ha
    cases hp.symm.trans hpath
    exact hguides.ne_nil
  constructor
  · intro h
    have : Std.Symm fun a b : Agent => ∀ {p q : Path}, solution.paths.get? a.id = some p →
        solution.paths.get? b.id = some q → p.Apart q := ⟨fun a b hab _ _ hq hp => (hab hp hq).symm⟩
    refine ⟨h.ids, fun id => h.keys.mem_iff, h.guided, fun a ha b hb hab p q hp hq => ?_⟩
    exact (Path.apart_iff_positionAt (hne h.guided a ha p hp) (hne h.guided b hb q hq)).mp
      (h.apart.forall ha hb (fun heq => hab (heq ▸ rfl)) hp hq)
  · rintro ⟨hids, hkeys, hguided, hclear⟩
    refine ⟨hids, (List.perm_ext_iff_of_nodup solution.paths.nodup_keys hids).mpr hkeys, hguided, ?_⟩
    refine (List.pairwise_map.mp hids).imp_of_mem fun {a b} ha hb hab p q hp hq => ?_
    exact (Path.apart_iff_positionAt (hne hguided a ha p hp) (hne hguided b hb q hq)).mpr
      (hclear a ha b hb hab p q hp hq)

end Solution

namespace Solver

variable {s : Solver} {node : TreeNode}

/-- In the order of the agents the paths of a node's solution are those of the node. -/
theorem Fits.inOrder_toSolution (h : s.Fits node) (valid : ValidAgents s.env s.agents) :
    (s.toSolution node).inOrder s.agents = node.paths := by
  have hget : ∀ x ∈ s.agents.zip node.paths, (s.toSolution node).paths.get? x.1.id = some x.2 := by
    intro x hx
    obtain ⟨i, hi⟩ := List.mem_iff_getElem?.mp hx
    obtain ⟨hagent, hpath⟩ := List.getElem?_zip_eq_some.mp hi
    exact (h.get?_toSolution valid hagent).trans hpath
  calc (s.toSolution node).inOrder s.agents
      = ((s.agents.zip node.paths).map Prod.fst).filterMap fun agent => (s.toSolution node).paths.get? agent.id := by
        rw [List.map_fst_zip (Nat.le_of_eq h.paths_length.symm), Solution.inOrder]
    _ = (s.agents.zip node.paths).filterMap fun x => some x.2 := by
        rw [List.filterMap_map]
        exact List.filterMap_congr hget
    _ = (s.agents.zip node.paths).map Prod.snd := congrFun List.filterMap_eq_map _
    _ = node.paths := List.map_snd_zip (Nat.le_of_eq h.paths_length)

/-- The solution of a node passes the check in all but the conflicts. -/
theorem Fits.guided (h : s.Fits node) (valid : ValidAgents s.env s.agents) :
    (s.toSolution node).Guided s.env s.agents where
  size := by
    have hlength := (h.perm_keys valid).length_eq
    rwa [OrderedMap.keys, List.length_map, List.length_map] at hlength
  ids := valid.ids
  paths agent ha := by
    obtain ⟨path, hpath, hguides⟩ := h.guides valid ha
    have hchecks := Solution.guides_iff.mpr hguides
    rw [Bool.and_eq_true, Bool.and_eq_true, and_assoc] at hchecks
    exact ⟨path, hpath, hchecks⟩

end Solver

end Mapf
