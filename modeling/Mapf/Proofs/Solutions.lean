import Mapf.Proofs.Conflicts
import Mapf.Proofs.OrderedMaps
import Mapf.Proofs.Tree.Launch
import Mapf.Solution

/-! # Valid solutions

What it is for the paths of a solution to lead all agents to their goals (`Solution.Valid`). The independent
check accepts exactly the valid solutions, and a node without conflicts stands for one. -/

namespace Mapf

/-- A path of an agent: from its start to its goal, one cell for each time, inside the environment and along
    its edges. -/
structure Path.Guides (path : Path) (env : Environment) (agent : Agent) : Prop where
  start : path.head?.map Cell.position = some agent.start
  goal : path.getLast?.map Cell.position = some agent.goal
  timed : ∀ {t : Nat} {c : Cell}, path[t]? = some c → c.time = t
  inside : ∀ c ∈ path, env.contains c.position = true
  moves : ∀ {t : Nat} {c d : Cell}, path[t]? = some c → path[t + 1]? = some d → c.position = d.position ∨
    (env.edgeCost c.position d.position).isSome

/-- One path for each of the distinct ids, each guides its agent, and no two agents ever meet or exchange
    places. -/
structure Solution.Valid (solution : Solution) (env : Environment) (agents : List Agent) : Prop where
  ids : (agents.map Agent.id).Nodup
  keys : solution.paths.keys.Perm (agents.map Agent.id)
  guided : ∀ agent ∈ agents, ∃ path, solution.paths.get? agent.id = some path ∧ path.Guides env agent
  apart : agents.Pairwise fun a b => ∀ {p q : Path}, solution.paths.get? a.id = some p →
    solution.paths.get? b.id = some q → p.Apart q

namespace Solution

variable {solution : Solution} {env : Environment} {agents : List Agent} {agent : Agent} {path : Path}

/-! ### The check -/

theorem connects_iff : connects path agent = true ↔ path.head?.map Cell.position = some agent.start ∧
    path.getLast?.map Cell.position = some agent.goal := by
  rw [connects, Bool.and_eq_true, decide_eq_true_iff, decide_eq_true_iff]

theorem staysInside_iff : staysInside path env = true ↔
    (∀ {t : Nat} {c : Cell}, path[t]? = some c → c.time = t) ∧ ∀ c ∈ path, env.contains c.position = true := by
  simp only [staysInside, List.all_eq_true, Prod.forall, List.mk_mem_zipIdx_iff_getElem?, Bool.and_eq_true,
    decide_eq_true_eq]
  constructor
  · refine fun h => ⟨fun hc => (h _ _ hc).1, fun c hc => ?_⟩
    obtain ⟨t, ht⟩ := List.mem_iff_getElem?.mp hc
    exact (h c t ht).2
  · exact fun h c t hc => ⟨h.1 hc, h.2 c (List.mem_of_getElem? hc)⟩

theorem mem_steps {c d : Cell} : (c, d) ∈ path.steps ↔ ∃ t, path[t]? = some c ∧ path[t + 1]? = some d := by
  simp only [Path.steps, List.mem_iff_getElem?, List.getElem?_zip_eq_some, List.getElem?_tail]

theorem followsEdges_iff : followsEdges path env = true ↔
    ∀ {t : Nat} {c d : Cell}, path[t]? = some c → path[t + 1]? = some d → c.position = d.position ∨
      (env.edgeCost c.position d.position).isSome := by
  simp only [followsEdges, List.all_eq_true, Prod.forall, mem_steps, Bool.or_eq_true, decide_eq_true_eq]
  exact ⟨fun h _ _ _ hc hd => h _ _ ⟨_, hc, hd⟩, fun h _ _ ⟨_, hc, hd⟩ => h hc hd⟩

theorem guides_iff : (connects path agent && staysInside path env && followsEdges path env) = true ↔
    path.Guides env agent := by
  rw [Bool.and_eq_true, Bool.and_eq_true, connects_iff, staysInside_iff, followsEdges_iff]
  exact ⟨fun ⟨⟨⟨h₁, h₂⟩, h₃, h₄⟩, h₅⟩ => ⟨h₁, h₂, h₃, h₄, h₅⟩,
    fun h => ⟨⟨⟨h.start, h.goal⟩, h.timed, h.inside⟩, h.moves⟩⟩

/-- The check accepts exactly the valid solutions. -/
theorem verify_eq_true_iff : solution.verify env agents = true ↔ solution.Valid env agents := by
  have hguided : (agents.all fun agent => (solution.paths.get? agent.id).any fun path =>
      connects path agent && staysInside path env && followsEdges path env) = true ↔
      ∀ agent ∈ agents, ∃ path, solution.paths.get? agent.id = some path ∧ path.Guides env agent := by
    simp only [List.all_eq_true, Option.any_eq_true, guides_iff]
  have hapart : Conflict.count (agents.filterMap fun agent => solution.paths.get? agent.id) = 0 ↔
      agents.Pairwise fun a b => ∀ {p q : Path}, solution.paths.get? a.id = some p →
        solution.paths.get? b.id = some q → p.Apart q := by
    rw [Conflict.count, List.length_eq_zero_iff, Conflict.detect_eq_nil_iff, List.pairwise_filterMap]
    refine List.Pairwise.iff fun {a b} => ?_
    constructor
    · intro h p q hp hq
      exact h p hp q hq
    · intro h p hp q hq
      exact h hp hq
  rw [verify, Bool.and_eq_true, Bool.and_eq_true, Bool.and_eq_true, decide_eq_true_iff, decide_eq_true_iff, hguided,
    decide_eq_true_iff, hapart]
  constructor
  · rintro ⟨⟨⟨hsize, hids⟩, hpaths⟩, hap⟩
    refine ⟨hids, ?_, hpaths, hap⟩
    -- All ids are keys, and there are no more keys than ids.
    refine ((hids.subperm fun id hid => ?_).perm_of_length_le ?_).symm
    · obtain ⟨a, ha, rfl⟩ := List.mem_map.mp hid
      obtain ⟨path, hpath, -⟩ := hpaths a ha
      exact List.mem_map.mpr ⟨_, OrderedMap.get?_eq_some_iff.mp hpath, rfl⟩
    · rw [OrderedMap.keys, List.length_map, List.length_map]
      exact Nat.le_of_eq hsize
  · rintro ⟨hids, hkeys, hpaths, hap⟩
    refine ⟨⟨⟨?_, hids⟩, hpaths⟩, hap⟩
    have := hkeys.length_eq
    rwa [OrderedMap.keys, List.length_map, List.length_map] at this

end Solution

/-! ### Nodes without conflicts -/

theorem Plan.Serves.guides {plan : Plan} {env : Environment} {agent : Agent} {set : ConstraintSet}
    {ps : List Position} (h : plan.Serves env agent set ps) : plan.path.Guides env agent := by
  have hcell : ∀ {t : Nat} {c : Cell}, plan.path[t]? = some c → ∃ p, ps[t]? = some p ∧ c = p.atTime t := by
    intro t c hc
    rw [h.path, Path.getElem?_ofPositions, Option.map_eq_some_iff] at hc
    obtain ⟨p, hp, rfl⟩ := hc
    exact ⟨p, hp, rfl⟩
  refine ⟨?_, ?_, fun hc => ?_, fun c hc => ?_, fun hc hd => ?_⟩
  · rw [List.head?_eq_getElem?, h.path, Path.getElem?_ofPositions, ← List.head?_eq_getElem?, h.travels.start]
    rfl
  · rw [List.getLast?_eq_getElem?, h.path, Path.getElem?_ofPositions, Path.length_ofPositions,
      ← List.getLast?_eq_getElem?, h.travels.goal]
    rfl
  · obtain ⟨p, -, rfl⟩ := hcell hc
    rfl
  · obtain ⟨t, ht⟩ := List.mem_iff_getElem?.mp hc
    obtain ⟨p, hp, rfl⟩ := hcell ht
    exact h.inside p (List.mem_of_getElem? hp)
  · obtain ⟨p, hp, rfl⟩ := hcell hc
    obtain ⟨q, hq, rfl⟩ := hcell hd
    exact or_iff_not_imp_left.mpr fun hne => h.passable hp hq hne

namespace Solver

variable {s : Solver} {node : TreeNode}

theorem Fits.ids_zip (h : s.Fits node) :
    ((s.agents.zip node.paths).map fun x => (x.1.id, x.2)).map Prod.fst = s.agents.map Agent.id := by
  rw [List.map_map]
  show (s.agents.zip node.paths).map (Agent.id ∘ Prod.fst) = _
  rw [← List.map_map, List.map_fst_zip (Nat.le_of_eq h.paths_length.symm)]

/-- The solution of a node has the path of each agent under the agent's id. -/
theorem Fits.get?_toSolution (h : s.Fits node) (valid : ValidAgents s.env s.agents) {i : Nat} {agent : Agent}
    (ha : s.agents[i]? = some agent) : (s.toSolution node).paths.get? agent.id = node.paths[i]? := by
  have hlt : i < node.paths.length := h.paths_length ▸ (List.getElem?_eq_some_iff.mp ha).1
  rw [List.getElem?_eq_getElem hlt]
  refine (OrderedMap.get?_ofList (by rw [h.ids_zip]; exact valid.ids)).mpr ?_
  refine List.mem_map.mpr ⟨(agent, node.paths[i]), ?_, rfl⟩
  exact List.mem_iff_getElem?.mpr ⟨i, List.getElem?_zip_eq_some.mpr ⟨ha, List.getElem?_eq_getElem hlt⟩⟩

theorem Fits.perm_keys (h : s.Fits node) (valid : ValidAgents s.env s.agents) :
    (s.toSolution node).paths.keys.Perm (s.agents.map Agent.id) := by
  rw [← h.ids_zip]
  exact (OrderedMap.toList_ofList_perm (by rw [h.ids_zip]; exact valid.ids)).map Prod.fst

/-- The paths of a node lead the agents to their goals, whatever conflicts there are between them. -/
theorem Fits.guides (h : s.Fits node) (valid : ValidAgents s.env s.agents) {agent : Agent} (ha : agent ∈ s.agents) :
    ∃ path, (s.toSolution node).paths.get? agent.id = some path ∧ path.Guides s.env agent := by
  obtain ⟨i, hi⟩ := List.mem_iff_getElem?.mp ha
  obtain ⟨a, table, set, plan, hh⟩ := h.holds (List.getElem?_eq_some_iff.mp hi).1
  cases hi.symm.trans hh.agent_eq
  obtain ⟨ps, hserves⟩ := hh.best.serves
  exact ⟨plan.path, (h.get?_toSolution valid hi).trans hh.path_eq, hserves.guides⟩

/-- A node without conflicts stands for a valid solution. -/
theorem Fits.valid (h : s.Fits node) (valid : ValidAgents s.env s.agents) (hnone : node.conflicts = []) :
    (s.toSolution node).Valid s.env s.agents where
  ids := valid.ids
  keys := h.perm_keys valid
  guided _ ha := h.guides valid ha
  apart := by
    have hpaths : node.paths.Pairwise Path.Apart := Conflict.detect_eq_nil_iff.mp (h.conflicts ▸ hnone)
    rw [List.pairwise_iff_getElem] at hpaths ⊢
    intro i j hi hj hij p q hp hq
    rw [h.get?_toSolution valid (List.getElem?_eq_getElem hi)] at hp
    rw [h.get?_toSolution valid (List.getElem?_eq_getElem hj)] at hq
    obtain ⟨hi', rfl⟩ := List.getElem?_eq_some_iff.mp hp
    obtain ⟨hj', rfl⟩ := List.getElem?_eq_some_iff.mp hq
    exact hpaths i j hi' hj' hij

variable {rounds : Nat} {clock : Clock} {budget : Budget} {solution : Solution}

theorem valid_of_turn {t : Progress} (ht : s.Growing t) (valid : ValidAgents s.env s.agents) {report : SolveReport}
    (h : Turn s clock budget t (.done report)) (ok : report.result = .ok solution) :
    solution.Valid s.env s.agents := by
  obtain ⟨node, hmem, -, hnone, rfl⟩ := h.solved_of_ok ok
  exact (ht.fits node hmem).valid valid hnone

theorem Launched.valid {t : Progress} (h : Launched s clock budget (.next t)) :
    ValidAgents s.env s.agents ∧ s.Growing t := by
  cases h with
  | rooted hvalid hg _ _ => exact ⟨validate_eq_ok_iff.mp hvalid, hg⟩

/-- A solution stands for a node without conflicts. -/
theorem node_of_search {report : SolveReport} (h : s.search rounds clock budget = some report)
    (ok : report.result = .ok solution) :
    ValidAgents s.env s.agents ∧ ∃ node, s.Fits node ∧ node.conflicts = [] ∧ solution = s.toSolution node := by
  obtain ⟨r, hr, hend⟩ := search_cases (I := fun _ => ValidAgents s.env s.agents)
    (fun hl => hl.valid.1) (fun _ hv _ => hv) h
  rw [hr] at ok
  rcases hend with hl | ⟨t, ht, hv, hturn⟩
  · exact absurd ok hl.not_ok
  · obtain ⟨node, hmem, -, hnone, rfl⟩ := hturn.solved_of_ok ok
    exact ⟨hv, node, ht.fits node hmem, hnone, rfl⟩

theorem valid_of_search {report : SolveReport} (h : s.search rounds clock budget = some report)
    (ok : report.result = .ok solution) : solution.Valid s.env s.agents := by
  obtain ⟨valid, node, hfits, hnone, rfl⟩ := node_of_search h ok
  exact hfits.valid valid hnone

end Solver

end Mapf
