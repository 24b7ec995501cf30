import Mapf.Environment

/-! # Agents -/

namespace Mapf

/-- An agent with its place of departure and its destination. -/
structure Agent where
  id : Nat
  start : Position
  goal : Position
  deriving DecidableEq, Inhabited

namespace Agent

/-- Whether an environment holds both ends of an agent's way. -/
def verify (a : Agent) (env : Environment) : Bool := env.contains a.start && env.contains a.goal

/-- The text of an agent in messages. -/
def text (a : Agent) : String :=
  s!"Agent \x7b id: {a.id}, start: {a.start.text}, goal: {a.goal.text} \x7d"

def listText (agents : List Agent) : String :=
  "[" ++ ", ".intercalate (agents.map text) ++ "]"

end Agent

end Mapf
