import Mapf.Event
import Mapf.Random.Draws
import Mapf.Scenario.Basic

/-! # Agents drawn from a scenario

Agents are numbered from 0. They are drawn either from buckets named for each of them, where no route
of a bucket is used twice, or from all buckets, where no two agents have the same start and goal. -/

namespace Mapf.Scenario

/-- Why no agents can be drawn. -/
inductive SamplingError where
  | wrongLength
  | unknownBucket (bucket : Nat)
  | bucketUsedUp (bucket : Nat)
  | tooFewRoutes
  deriving DecidableEq

def SamplingError.message : SamplingError → String
  | .wrongLength => "Number of agents does not match the length of agent_buckets"
  | .unknownBucket bucket => s!"Bucket {bucket} not found"
  | .bucketUsedUp bucket => s!"No available routes left in bucket {bucket}"
  | .tooFewRoutes => "Not enough unique routes available to match the number of agents"

/-- A route of a scenario: its bucket and its place there. -/
structure RouteIndex where
  bucket : Nat
  place : Nat
  deriving DecidableEq

/-- Draws an unused route from each of the `buckets`, for the agents from `id` on. -/
def drawFrom {ρ : Type} (draws : Random.Draws ρ) (s : Scenario) : (id : Nat) → (used : List RouteIndex) →
    (buckets : List Nat) → ρ → Option (Except SamplingError (List Agent) × ρ)
  | _, _, [], source => some (.ok [], source)
  | id, used, bucket :: rest, source =>
    match s.buckets.get? bucket with
    | none => some (.error (.unknownBucket bucket), source)
    | some routes => do
      let available := routes.zipIdx.filter fun (_, place) => !used.contains ⟨bucket, place⟩
      match ← draws.choose available source with
      | (none, source) => return (.error (.bucketUsedUp bucket), source)
      | (some (route, place), source) =>
        let (agents, source) ← s.drawFrom draws (id + 1) (⟨bucket, place⟩ :: used) rest source
        return (agents.map (route.toAgent id :: ·), source)

/-- One agent for each of the `buckets`, on a route that no other agent uses. -/
def agentsByBuckets {ρ : Type} (draws : Random.Draws ρ) (s : Scenario) (count : Nat) (buckets : List Nat)
    (source : ρ) : Option (Except SamplingError (List Agent) × ρ) :=
  if buckets.length ≠ count then some (.error .wrongLength, source) else s.drawFrom draws 0 [] buckets source

/-- The list without elements that repeat the one before them. -/
def dropRepeats {α : Type} [DecidableEq α] : List α → List α
  | [] => []
  | [a] => [a]
  | a :: b :: rest => if a = b then dropRepeats (b :: rest) else a :: dropRepeats (b :: rest)

def distinctRoutes (s : Scenario) : List Route :=
  dropRepeats (s.routes.mergeSort fun r t => decide (r ≤ t))

/-- `count` agents on different routes of any buckets. -/
def agentsAtRandom {ρ : Type} (draws : Random.Draws ρ) (s : Scenario) (count : Nat) (source : ρ) :
    Option (Except SamplingError (List Agent) × ρ) :=
  let routes := s.distinctRoutes
  if routes.length < count then some (.error .tooFewRoutes, source)
  else do
    let (routes, source) ← draws.shuffle routes source
    return (.ok ((routes.take count).mapIdx fun id route => route.toAgent id), source)

/-- The log line about agents that were drawn. -/
def drawnEvent (agents : List Agent) : Event := .info ("Generate scen: " ++ Agent.listText agents)

end Mapf.Scenario
