import Mapf.Settings.Basic
import Mapf.Yaml.Decoder

/-! # Settings as YAML

Settings are a mapping. A key that is missing keeps its standard value; a key that is unknown or comes
twice makes the text invalid. -/

namespace Mapf.Settings

open Yaml

def keys : List String :=
  ["map_path", "scen_path", "agents_path", "output_path", "num_agents", "agents_dist", "seed",
    "time_limit_ms", "max_expansions", "cost_type", "parallel_branching"]

def readCostType (n : Node) : Decoder CostType := do
  match ← Decoder.alternative n with
  | "sum_of_costs" => return .sumOfCosts
  | "makespan" => return .makespan
  | _ => failure

def readSettings (n : Node) : Decoder Settings := do
  let entries ← Decoder.entries n
  if !entries.all (fun entry => keys.contains entry.1) then failure
  let field {α : Type} (key : String) (f : Node → Decoder α) (standard : α) : Decoder α :=
    Decoder.fieldOr entries key f (pure standard)
  let std := standard
  return {
    mapPath := ← field "map_path" Decoder.text std.mapPath
    scenPath := ← field "scen_path" Decoder.text std.scenPath
    agentsPath := ← field "agents_path" (Decoder.option Decoder.text) std.agentsPath
    outputPath := ← field "output_path" (Decoder.option Decoder.text) std.outputPath
    numAgents := ← field "num_agents" Decoder.natural std.numAgents
    agentsDist := ← field "agents_dist" (Decoder.list Decoder.natural) std.agentsDist
    seed := ← field "seed" Decoder.natural std.seed
    timeLimit := ← field "time_limit_ms" (Decoder.option Decoder.natural) std.timeLimit
    maxExpansions := ← field "max_expansions" (Decoder.option Decoder.natural) std.maxExpansions
    costType := ← field "cost_type" readCostType std.costType
    parallelBranching := ← field "parallel_branching" Decoder.bool std.parallelBranching }

def parse? : String → Option Settings := decode? readSettings

end Mapf.Settings
