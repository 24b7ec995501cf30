import Mapf.Event
import Mapf.Solution
import Mapf.Stats
import Mapf.Stopwatch
import Mapf.Tree.Node

/-! # Conflict-based search

Every agent is first planned on its own. A node of the constraint tree whose paths still conflict is
split at its first conflict: each child restricts one of the two agents and replans it. Nodes wait in
a queue, cheapest first, so the first node without conflicts is a cheapest solution. A budget cuts the
search short; then the best node so far is reported, the one with the fewest conflicts and among those
the cheapest.

All inner loops of a solve are allowed the same number of rounds as the tree search itself, and a
solve has no result when one of them needs more. -/

namespace Mapf

/-- What makes a list of agents unfit to be planned. -/
inductive InvalidInput where
  | noAgents
  | outside (id : Nat)
  | duplicateId (id : Nat)
  | sharedStart (position : Position)
  | sharedGoal (position : Position)
  deriving DecidableEq

def InvalidInput.message : InvalidInput → String
  | .noAgents => "no agents"
  | .outside id => s!"agent {id} starts or ends outside the environment"
  | .duplicateId id => s!"agent id {id} is used twice"
  | .sharedStart position => s!"start {position.text} is shared by several agents"
  | .sharedGoal position => s!"goal {position.text} is shared by several agents"

/-- The paths of the best node of a search that was cut short. -/
structure BestEffort where
  solution : Solution
  remainingConflicts : Nat
  deriving DecidableEq

/-- Why a solve ended without a solution. -/
inductive Failure where
  /-- The reason is in words. -/
  | invalidInput (reason : String)
  | noSolutionFound
  | budgetExceeded (best : Option BestEffort)
  | search (error : SearchError)
  deriving DecidableEq

def Failure.message : Failure → String
  | .invalidInput reason => s!"invalid problem input: {reason}"
  | .noSolutionFound => "no conflict-free solution exists"
  | .budgetExceeded _ => "search budget exceeded"
  | .search error => s!"low-level search failed: {error.message}"

/-- Agents in an environment, with the distances to their goals and the way to plan them. -/
structure Solver where
  env : Environment
  agents : List Agent
  /-- The distances to each agent's goal. -/
  tables : List DistanceTable
  costType : CostType
  /-- Whether both children of a node are built at the same time. -/
  parallelBranching : Bool

/-- What a solve found, its statistics and stopwatch, and the events it logged. -/
structure SolveReport where
  result : Except Failure Solution
  stats : Stats
  stopwatch : Stopwatch
  events : List Event

namespace Solver

def planningPhase : String := "planning"

def lowLevelPhase : String := "low_level"

/-- A solver for `agents`, after measuring the distances to their goals. -/
def prepare (rounds : Nat) (env : Environment) (agents : List Agent) : Option Solver := do
  let tables ← agents.mapM fun agent => DistanceTable.build rounds env agent.goal
  return { env, agents, tables, costType := .standard, parallelBranching := false }

/-! ### Validation -/

/-- Checks agents after the `earlier` ones: both ends inside, and id, start and goal unlike theirs. -/
def validateAfter (env : Environment) (earlier : List Agent) : List Agent → Except InvalidInput Unit
  | [] => .ok ()
  | agent :: rest =>
    if ¬agent.verify env then .error (.outside agent.id)
    else if earlier.any (·.id = agent.id) then .error (.duplicateId agent.id)
    else if earlier.any (·.start = agent.start) then .error (.sharedStart agent.start)
    else if earlier.any (·.goal = agent.goal) then .error (.sharedGoal agent.goal)
    else validateAfter env (agent :: earlier) rest

/-- Checks that there are agents, inside the environment, with ids, starts and goals of their own. -/
def validate (s : Solver) : Except InvalidInput Unit :=
  if s.agents.isEmpty then .error .noAgents else validateAfter s.env [] s.agents

/-! ### Planning -/

/-- Plans the agent at a place of the list under its constraints; `search` is the number of this
    search. -/
def plan (s : Solver) (rounds : Nat) (clock : Clock) (budget : Budget) (search : Nat) (agent : Nat)
    (constraints : ConstraintSet) : Option (SearchReport Plan) :=
  match s.agents[agent]?, s.tables[agent]? with
  | some a, some table => Plan.search rounds s.env a table constraints (budget.searchDeadline clock search)
  | _, _ => some ⟨.error .indexOutOfRange, .zero⟩

/-- Plans agents one after the other without constraints, up to the first that cannot be planned. -/
def planAll (s : Solver) (rounds : Nat) (clock : Clock) (budget : Budget) :
    (agents : List Nat) → Stats → Option (Except SearchError (List Plan) × Stats)
  | [], stats => some (.ok [], stats)
  | agent :: rest, stats => do
    let report ← s.plan rounds clock budget stats.searches agent (.empty agent)
    let stats := stats.recordLowLevel report.counters
    match report.result with
    | .error e => some (.error e, stats)
    | .ok plan =>
      let (plans, stats) ← s.planAll rounds clock budget rest stats
      some (plans.map (plan :: ·), stats)

/-! ### The constraint tree -/

def toSolution (s : Solver) (node : TreeNode) : Solution where
  paths := .ofList ((s.agents.zip node.paths).map fun (agent, path) => (agent.id, path))
  cost := node.cost

def budgetExceeded (s : Solver) (best : Option TreeNode) : Failure :=
  .budgetExceeded (best.map fun node => ⟨s.toSolution node, node.conflicts.length⟩)

/-- A tree search under way: the waiting nodes by the number of their creation, the number of nodes
    created after the root, and the best node so far. -/
structure Progress where
  waiting : Queue Nat TreeNode
  created : Nat
  best : TreeNode
  stats : Stats
  stopwatch : Stopwatch

def Progress.finish (t : Progress) (result : Except Failure Solution) (events : List Event) :
    Round Progress SolveReport :=
  .done ⟨result, t.stats, t.stopwatch, events⟩

/-- A child under construction: the node, none when its agent has no path left, and what the search
    for it counted. -/
abbrev Child := SearchReport (Option TreeNode)

/-- Builds the child of a node with one more constraint. -/
def buildChild (s : Solver) (rounds : Nat) (clock : Clock) (budget : Budget) (search : Nat) (node : TreeNode)
    (c : Constraint) : Option Child :=
  match node.extend? c with
  | none => some ⟨.error .indexOutOfRange, .zero⟩
  | some set => do
    let report ← s.plan rounds clock budget search c.agent set
    return ⟨node.adopt c.agent set report.result, report.counters⟩

/-- Builds both children of a node, one for each side of a conflict. -/
def buildChildren (s : Solver) (rounds : Nat) (clock : Clock) (budget : Budget) (search : Nat)
    (node : TreeNode) (conflict : Conflict) : Option (List Child) :=
  let build (side : Nat) (c : Constraint) := s.buildChild rounds clock budget (search + side) node c
  if s.parallelBranching then
    let first := Task.spawn fun _ => build 0 conflict.constraints.1
    let second := build 1 conflict.constraints.2
    [first.get, second].mapM id
  else
    [build 0 conflict.constraints.1, build 1 conflict.constraints.2].mapM id

/-- The better of two nodes: fewer conflicts, then lower cost; the earlier one when equal. -/
def better (best node : TreeNode) : TreeNode :=
  if node.conflicts.length < best.conflicts.length ∨
      node.conflicts.length = best.conflicts.length ∧ node.cost < best.cost then node
  else best

def absorb (s : Solver) (t : Progress) (child : Child) : Round Progress SolveReport :=
  let t := { t with stats := t.stats.recordGeneration.recordLowLevel child.counters }
  match child.result with
  | .ok none => .next { t with stats := t.stats.recordEvaluation }
  | .ok (some node) =>
    let t := { t with stats := t.stats.recordEvaluation, best := better t.best node, created := t.created + 1 }
    match t.waiting.insert t.created node with
    | .ok waiting => .next { t with waiting := waiting }
    | .error e => t.finish (.error (.search (.queue e))) []
  | .error .budgetExceeded =>
    t.finish (.error (s.budgetExceeded (some t.best))) [.warn "budget exceeded during low-level search"]
  | .error e => t.finish (.error (.search e)) []

/-- Takes in children one after the other, until one ends the search. -/
def absorbAll (s : Solver) (t : Progress) : List Child → Round Progress SolveReport
  | [] => .next t
  | child :: rest =>
    match s.absorb t child with
    | .next t => s.absorbAll t rest
    | .done report => .done report

/-- Takes the cheapest waiting node: the search ends there if its paths do not conflict. -/
def round (s : Solver) (rounds : Nat) (clock : Clock) (budget : Budget) (t : Progress) :
    Option (Round Progress SolveReport) :=
  let k := t.stats.high.expanded
  if (budget.roundDeadline clock).expired k || budget.expansionsExhausted k then
    some (t.finish (.error (s.budgetExceeded (some t.best))) [.warn s!"budget exceeded after {k} expansions"])
  else
    match t.waiting.popMin with
    | .error _ => some (t.finish (.error .noSolutionFound) [])
    | .ok ((_, node), waiting) =>
      match node.firstConflict? with
      | none => some (t.finish (.ok (s.toSolution node)) [])
      | some conflict => do
        let children ← s.buildChildren rounds clock budget t.stats.searches node conflict
        let lap := (t.stopwatch.start lowLevelPhase (clock.atRound k)).stop lowLevelPhase (clock.atRound (k + 1))
        some (s.absorbAll
          { t with waiting := waiting, stats := t.stats.recordExpansion, stopwatch := lap.2 } children)

/-- Plans every agent on its own and makes the root of the tree. -/
def plant (s : Solver) (rounds : Nat) (clock : Clock) (budget : Budget) (stopwatch : Stopwatch) :
    Option (Round Progress SolveReport) := do
  let (plans, stats) ← s.planAll rounds clock budget (List.range s.agents.length) .zero
  let stopwatch := ((stopwatch.start lowLevelPhase 0).stop lowLevelPhase (clock.atRound 0)).2
  let fail (failure : Failure) : Round Progress SolveReport := .done ⟨.error failure, stats, stopwatch, []⟩
  match plans with
  | .error .noPathFound => return fail .noSolutionFound
  | .error .budgetExceeded => return fail (s.budgetExceeded none)
  | .error e => return fail (.search e)
  | .ok plans =>
    let root := TreeNode.root s.costType plans
    match Queue.empty.insert 0 root with
    | .error e => return fail (.search (.queue e))
    | .ok waiting =>
      return .next { waiting, created := 0, best := root, stats := stats.recordGeneration, stopwatch }

/-- Checks the agents and makes the root of the tree. -/
def launch (s : Solver) (rounds : Nat) (clock : Clock) (budget : Budget) :
    Option (Round Progress SolveReport) :=
  let stopwatch := Stopwatch.fresh.start planningPhase 0
  match s.validate with
  | .error invalid => some (.done ⟨.error (.invalidInput invalid.message), .zero, stopwatch, []⟩)
  | .ok () => s.plant rounds clock budget stopwatch

def verdict : Except Failure Solution → Event
  | .ok solution => .info s!"solution found with cost {solution.cost}"
  | .error failure => .warn s!"cbs failed: {failure.message}"

/-- Completes the statistics and the log of a search that ended at the reading `now`. -/
def conclude (now : Nat) (report : SolveReport) : SolveReport :=
  let (lap, stopwatch) := report.stopwatch.stop planningPhase now
  let stats := { report.stats with lowLevelTime := (stopwatch.elapsed? lowLevelPhase now).getD 0 }
  let stats := stats.finalize (lap.getD 0) (report.result.toOption.map Solution.cost)
  { report with
    stats := stats
    stopwatch := stopwatch
    events := report.events ++ [.info stats.summary, verdict report.result] }

/-- Solves within a budget, with statistics and log. -/
def search (s : Solver) (rounds : Nat) (clock : Clock) (budget : Budget) : Option SolveReport := do
  let report ←
    match ← s.launch rounds clock budget with
    | .done report => some report
    | .next t => Loop.run (s.round rounds clock budget) rounds t
  return conclude (clock.atRound report.stats.high.expanded) report

end Solver

/-- Conflict-free paths for `agents` at the least sum of costs. -/
def solve (rounds : Nat) (env : Environment) (agents : List Agent) (clock : Clock) (budget : Budget) :
    Option (Except Failure Solution) := do
  let solver ← Solver.prepare rounds env agents
  return (← solver.search rounds clock budget).result

end Mapf
