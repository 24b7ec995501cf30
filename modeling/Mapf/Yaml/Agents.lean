import Mapf.Agent
import Mapf.Yaml.Decoder

/-! # Lists of agents as YAML

A list of agents is a sequence of mappings with the keys `id`, `start` and `goal`, where positions are
sequences of two numbers. Other keys do not count when a list is read. -/

namespace Mapf.Yaml

def readPosition (n : Node) : Decoder Position := do
  match ← Decoder.list Decoder.natural n with
  | [x, y] => return ⟨x, y⟩
  | _ => failure

def readAgent (n : Node) : Decoder Agent := do
  let entries ← Decoder.entries n
  return {
    id := ← Decoder.fieldOr entries "id" Decoder.natural failure
    start := ← Decoder.fieldOr entries "start" readPosition failure
    goal := ← Decoder.fieldOr entries "goal" readPosition failure }

def readAgents? : String → Option (List Agent) := decode? (Decoder.list readAgent)

def positionText (name : String) (p : Position) : String :=
  s!"  {name}:\n  - {p.x}\n  - {p.y}\n"

def agentText (a : Agent) : String :=
  s!"- id: {a.id}\n" ++ positionText "start" a.start ++ positionText "goal" a.goal

def agentsText (agents : List Agent) : String :=
  if agents.isEmpty then "[]\n" else String.join (agents.map agentText)

end Mapf.Yaml
