import Mapf.Agent
import Mapf.OrderedMap

/-! # Scenarios

A scenario lists routes on a map, grouped into numbered buckets of similar length. -/

namespace Mapf

/-- A way to go, from a start to a goal. -/
structure Route where
  start : Position
  goal : Position
  deriving DecidableEq

namespace Route

/-- The agent with a number that goes this way. -/
def toAgent (r : Route) (id : Nat) : Agent := ⟨id, r.start, r.goal⟩

instance : LE Route := ⟨fun r s => r.start < s.start ∨ r.start = s.start ∧ r.goal ≤ s.goal⟩

instance : DecidableLE Route := fun r s =>
  inferInstanceAs (Decidable (r.start < s.start ∨ r.start = s.start ∧ r.goal ≤ s.goal))

end Route

/-- Routes in buckets, for a map with a name and a size. -/
structure Scenario where
  map : String
  mapWidth : Nat
  mapHeight : Nat
  buckets : OrderedMap Nat (List Route)
  deriving DecidableEq

namespace Scenario

def empty : Scenario := ⟨"", 0, 0, ∅⟩

def routeCount (s : Scenario) : Nat := (s.buckets.values.map List.length).foldl (· + ·) 0

def routes (s : Scenario) : List Route := s.buckets.values.flatten

def addRoute (s : Scenario) (bucket : Nat) (route : Route) : Scenario :=
  { s with buckets := s.buckets.alter bucket fun known => known.getD [] ++ [route] }

end Scenario

end Mapf
