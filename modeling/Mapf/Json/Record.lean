import Mapf.Json.Reader
import Mapf.Report
import Mapf.Solution

/-! # Records as JSON

How agents, cells, constraints, conflicts, solutions, counters and reports are written, and what is
read as one of them. A record is written as an object with its fields in a fixed order. Reading also
takes an array of the fields; see `Value.fields?`. -/

namespace Mapf

open Json (Value)

/-- A field that has to be present. -/
def Json.required {α : Type} (f : Value → Option α) (field : Option Value) : Option α := field.bind f

/-- A field that may be missing or `null`. -/
def Json.optional {α : Type} (f : Value → Option α) : Option Value → Option (Option α)
  | none => some none
  | some .null => some none
  | some value => (f value).map some

open Json (required optional)

namespace Position

def toJson (p : Position) : Value := .array [.ofNat p.x, .ofNat p.y]

def ofJson? : Value → Option Position
  | .array [x, y] => do return ⟨← x.natural?, ← y.natural?⟩
  | _ => none

end Position

namespace Agent

def toJson (a : Agent) : Value :=
  .ofFields [("id", .ofNat a.id), ("start", a.start.toJson), ("goal", a.goal.toJson)]

def ofJson? (v : Value) : Option Agent := do
  match ← v.fields? ["id", "start", "goal"] with
  | [id, start, goal] =>
    return ⟨← required Value.natural? id, ← required Position.ofJson? start, ← required Position.ofJson? goal⟩
  | _ => none

end Agent

namespace Cell

def toJson (c : Cell) : Value :=
  .ofFields [("time", .ofNat c.time), ("x", .ofNat c.x), ("y", .ofNat c.y)]

def ofJson? (v : Value) : Option Cell := do
  match ← v.fields? ["time", "x", "y"] with
  | [time, x, y] =>
    return ⟨← required Value.natural? time, ← required Value.natural? x, ← required Value.natural? y⟩
  | _ => none

end Cell

namespace Constraint

/-- A constraint is an object whose only field names its kind. -/
def toJson : Constraint → Value
  | .vertex agent position timeStep =>
    .ofFields [("Vertex", .ofFields [("agent", .ofNat agent), ("position", position.toJson),
      ("time_step", .ofNat timeStep)])]
  | .edge agent source target timeStep =>
    .ofFields [("Edge", .ofFields [("agent", .ofNat agent), ("from", source.toJson), ("to", target.toJson),
      ("time_step", .ofNat timeStep)])]

def vertexOfJson? (v : Value) : Option Constraint := do
  match ← v.fields? ["agent", "position", "time_step"] with
  | [agent, position, timeStep] =>
    return .vertex (← required Value.natural? agent) (← required Position.ofJson? position)
      (← required Value.natural? timeStep)
  | _ => none

def edgeOfJson? (v : Value) : Option Constraint := do
  match ← v.fields? ["agent", "from", "to", "time_step"] with
  | [agent, source, target, timeStep] =>
    return .edge (← required Value.natural? agent) (← required Position.ofJson? source)
      (← required Position.ofJson? target) (← required Value.natural? timeStep)
  | _ => none

def ofJson? : Value → Option Constraint
  | .object [(kind, body)] =>
    match (Json.decode? kind).map String.ofList with
    | some "Vertex" => vertexOfJson? body
    | some "Edge" => edgeOfJson? body
    | _ => none
  | _ => none

end Constraint

namespace Conflict

def toJson (c : Conflict) : Value :=
  let kind : Value :=
    match c.kind with
    | .vertex position timeStep =>
      .ofFields [("Vertex", .ofFields [("position", position.toJson), ("time_step", .ofNat timeStep)])]
    | .edge source target timeStep =>
      .ofFields [("Edge", .ofFields [("from", source.toJson), ("to", target.toJson),
        ("time_step", .ofNat timeStep)])]
  .ofFields [("agent_1", .ofNat c.agent1), ("agent_2", .ofNat c.agent2), ("conflict_type", kind)]

end Conflict

namespace Solution

/-- The paths are an object whose keys are the ids, ascending. -/
def toJson (s : Solution) : Value :=
  let paths := s.paths.toList.map fun (id, path) => (Nat.toDigits 10 id, Value.ofList Cell.toJson path)
  .ofFields [("paths", .object paths), ("cost", .ofNat s.cost)]

/-- Reads paths by id; of several paths of one id the last counts. -/
def pathsOfJson? : Value → Option (OrderedMap Nat Path)
  | .object fields => do
    let entries ← fields.mapM fun (key, value) => do
      return (← (Value.number key).natural?, ← value.list? Cell.ofJson?)
    return .ofList entries
  | _ => none

def ofJson? (v : Value) : Option Solution := do
  match ← v.fields? ["paths", "cost"] with
  | [paths, cost] => return ⟨← required pathsOfJson? paths, ← required Value.natural? cost⟩
  | _ => none

end Solution

namespace Counters

def toJson (c : Counters) : Value :=
  .ofFields [("nodes_expanded", .ofNat c.expanded), ("nodes_generated", .ofNat c.generated),
    ("nodes_evaluated", .ofNat c.evaluated), ("nodes_pruned", .ofNat c.pruned)]

def ofJson? (v : Value) : Option Counters := do
  match ← v.fields? ["nodes_expanded", "nodes_generated", "nodes_evaluated", "nodes_pruned"] with
  | [expanded, generated, evaluated, pruned] =>
    return ⟨← required Value.natural? expanded, ← required Value.natural? generated,
      ← required Value.natural? evaluated, ← required Value.natural? pruned⟩
  | _ => none

end Counters

namespace Report

def toJson (r : Report) : Value :=
  .ofFields [
    ("nodes_expanded", .ofNat r.nodesExpanded),
    ("nodes_generated", .ofNat r.nodesGenerated),
    ("nodes_evaluated", .ofNat r.nodesEvaluated),
    ("elapsed_time", .ofFloat r.elapsedTime),
    ("solution_cost", .ofOption .ofNat r.solutionCost),
    ("low_level_searches", .ofNat r.lowLevelSearches),
    ("low_level_nodes_expanded", .ofNat r.lowLevelNodesExpanded),
    ("low_level_nodes_generated", .ofNat r.lowLevelNodesGenerated),
    ("low_level_nodes_evaluated", .ofNat r.lowLevelNodesEvaluated),
    ("low_level_nodes_pruned", .ofNat r.lowLevelNodesPruned),
    ("low_level_time", .ofFloat r.lowLevelTime)]

def ofJson? (v : Value) : Option Report := do
  let names := ["nodes_expanded", "nodes_generated", "nodes_evaluated", "elapsed_time", "solution_cost",
    "low_level_searches", "low_level_nodes_expanded", "low_level_nodes_generated",
    "low_level_nodes_evaluated", "low_level_nodes_pruned", "low_level_time"]
  match ← v.fields? names with
  | [expanded, generated, evaluated, elapsed, cost, searches, lowExpanded, lowGenerated, lowEvaluated,
      lowPruned, lowTime] =>
    return {
      nodesExpanded := ← required Value.natural? expanded
      nodesGenerated := ← required Value.natural? generated
      nodesEvaluated := ← required Value.natural? evaluated
      elapsedTime := ← required Value.float? elapsed
      solutionCost := ← optional Value.natural? cost
      lowLevelSearches := ← required Value.natural? searches
      lowLevelNodesExpanded := ← required Value.natural? lowExpanded
      lowLevelNodesGenerated := ← required Value.natural? lowGenerated
      lowLevelNodesEvaluated := ← required Value.natural? lowEvaluated
      lowLevelNodesPruned := ← required Value.natural? lowPruned
      lowLevelTime := ← required Value.float? lowTime }
  | _ => none

end Report

end Mapf
