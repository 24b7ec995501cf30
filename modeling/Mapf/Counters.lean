/-! # Counters of one search -/

namespace Mapf

/-- How many nodes a search expanded, generated, evaluated and pruned. An evaluated node is one that
    got a cost and an estimate, or a plan. -/
structure Counters where
  expanded : Nat
  generated : Nat
  evaluated : Nat
  pruned : Nat
  deriving DecidableEq

namespace Counters

def zero : Counters := ⟨0, 0, 0, 0⟩

instance : Inhabited Counters := ⟨zero⟩

def recordExpansion (c : Counters) : Counters := { c with expanded := c.expanded + 1 }

def recordGeneration (c : Counters) : Counters := { c with generated := c.generated + 1 }

def recordEvaluation (c : Counters) : Counters := { c with evaluated := c.evaluated + 1 }

def recordPruned (c : Counters) : Counters := { c with pruned := c.pruned + 1 }

def merge (c d : Counters) : Counters where
  expanded := c.expanded + d.expanded
  generated := c.generated + d.generated
  evaluated := c.evaluated + d.evaluated
  pruned := c.pruned + d.pruned

end Counters

end Mapf
