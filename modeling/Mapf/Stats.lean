import Mapf.Counters

/-! # Statistics of a solve -/

namespace Mapf

/-- What a solve counted: its own tree search, and the totals of the single-agent searches. Times are
    in milliseconds. -/
structure Stats where
  high : Counters
  low : Counters
  searches : Nat
  lowLevelTime : Nat
  elapsed : Nat
  cost : Option Nat
  deriving DecidableEq

namespace Stats

def zero : Stats := ⟨.zero, .zero, 0, 0, 0, none⟩

def recordExpansion (s : Stats) : Stats := { s with high := s.high.recordExpansion }

def recordGeneration (s : Stats) : Stats := { s with high := s.high.recordGeneration }

def recordEvaluation (s : Stats) : Stats := { s with high := s.high.recordEvaluation }

def recordLowLevel (s : Stats) (search : Counters) : Stats :=
  { s with searches := s.searches + 1, low := s.low.merge search }

def finalize (s : Stats) (elapsed : Nat) (cost : Option Nat) : Stats :=
  { s with elapsed := elapsed, cost := cost }

/-- The log line about a solve; a missing cost is written `None`. -/
def summary (s : Stats) : String :=
  let cost := match s.cost with
    | some cost => s!"Some({cost})"
    | none => "None"
  s!"Cost {cost} Time(microseconds) {s.elapsed * 1000} High level expand nodes number: {s.high.expanded} Low level expand nodes number {s.low.expanded}"

end Stats

end Mapf
