import Mapf.Deadline
import Mapf.Tree.Node

/-! # Settings of a solve -/

namespace Mapf

/-- What to solve, how to draw the agents and what to spend. -/
structure Settings where
  mapPath : String
  scenPath : String
  /-- A list of agents, used instead of the scenario. -/
  agentsPath : Option String
  outputPath : Option String
  numAgents : Nat
  /-- A bucket of the scenario for each agent; none are named when agents come from any bucket. -/
  agentsDist : List Nat
  seed : Nat
  /-- In milliseconds. -/
  timeLimit : Option Nat
  maxExpansions : Option Nat
  costType : CostType
  parallelBranching : Bool
  deriving DecidableEq

/-- Why settings cannot be used. -/
inductive SettingsError where
  | noAgents
  | wrongDistribution (buckets agents : Nat)
  | noTime
  deriving DecidableEq

def SettingsError.message : SettingsError → String
  | .noAgents => "Number of agents must be positive"
  | .wrongDistribution buckets agents =>
    s!"Agent distribution lists {buckets} buckets for {agents} agents"
  | .noTime => "Time limit must be positive when set"

namespace Settings

/-- The time limit in milliseconds that holds unless another is set. -/
def standardTimeLimit : Nat := 5000

/-- The settings that hold unless others are given. -/
def standard : Settings where
  mapPath := "map_file/test/open.map"
  scenPath := "map_file/test/open.scen"
  agentsPath := none
  outputPath := none
  numAgents := 4
  agentsDist := []
  seed := 0
  timeLimit := some standardTimeLimit
  maxExpansions := none
  costType := .standard
  parallelBranching := false

/-- Checks that there are agents, one bucket for each if any is named, and some time. -/
def validate (s : Settings) : Except SettingsError Unit :=
  if s.numAgents = 0 then .error .noAgents
  else if s.agentsDist ≠ [] ∧ s.agentsDist.length ≠ s.numAgents then
    .error (.wrongDistribution s.agentsDist.length s.numAgents)
  else if s.timeLimit = some 0 then .error .noTime
  else .ok ()

def budget (s : Settings) : Budget := ⟨s.timeLimit, s.maxExpansions⟩

end Settings

end Mapf
