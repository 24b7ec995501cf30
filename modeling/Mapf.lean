import Mapf.Loop
import Mapf.OrderedMap
import Mapf.Position
import Mapf.DistanceTable
import Mapf.Counters
import Mapf.Deadline
import Mapf.Stopwatch
import Mapf.Search.BestFirst
import Mapf.SpaceTime
import Mapf.Solution
import Mapf.Stats
import Mapf.Event
import Mapf.Files
import Mapf.Tree.Node
import Mapf.Tree.Solver
import Mapf.Text.Blank
import Mapf.Text.Lines
import Mapf.Text.Numeral
import Mapf.Text.Quoted
import Mapf.Text.Terminal
import Mapf.Grid.Format
import Mapf.Graph.Sample
import Mapf.Scenario.Format
import Mapf.Scenario.Sampling
import Mapf.Json.Reader
import Mapf.Json.Record
import Mapf.Yaml.Agents
import Mapf.Program
import Mapf.Main
import Mapf.Proofs.Queue.Contents
import Mapf.Proofs.Queue.Reference
import Mapf.Proofs.Distances
import Mapf.Proofs.Search.Linked
import Mapf.Proofs.Search.Outcome
import Mapf.Proofs.Search.Optimal
import Mapf.Proofs.Conflicts
import Mapf.Proofs.Routes
import Mapf.Proofs.SpaceTime
import Mapf.Proofs.Plans
import Mapf.Proofs.Tree.Node
import Mapf.Proofs.Tree.Rounds
import Mapf.Proofs.Tree.Launch
import Mapf.Proofs.Tree.Cover
import Mapf.Proofs.Grids
import Mapf.Proofs.Graphs
import Mapf.Proofs.Solutions
import Mapf.Proofs.Tree.Optimal
import Mapf.Proofs.Soundness
import Mapf.Proofs.Tree.Bounded
import Mapf.Proofs.Tree.Ends
import Mapf.Proofs.Plans.Exact
import Mapf.Proofs.Loops
import Mapf.Proofs.Search.Complete
import Mapf.Proofs.Tree.History
import Mapf.Proofs.Tree.Monotone
import Mapf.Proofs.Distances.Exact
import Mapf.Proofs.Tree.Truncated
import Mapf.Proofs.Orderly
import Mapf.Proofs.Layouts
import Mapf.Proofs.Conflicts.Exact
import Mapf.Proofs.Listings
import Mapf.Proofs.Strict.Tree
import Mapf.Proofs.Solutions.Exact
import Mapf.Proofs.SpaceTime.Exact
import Mapf.Proofs.Tree.Best
import Mapf.Proofs.Tree.Counted
import Mapf.Proofs.Constraints.Exact
import Mapf.Proofs.Plans.Antitone
import Mapf.Proofs.Solutions.Priced
import Mapf.Proofs.Constraints.Pruned
import Mapf.Proofs.Graphs.Exact
import Mapf.Proofs.Draws
import Mapf.Proofs.Graphs.Sampled
import Mapf.Proofs.Scenarios.Buckets
import Mapf.Proofs.Scenarios.Distinct
import Mapf.Proofs.Strict.Readers
import Mapf.Proofs.Tree.Balanced
import Mapf.Proofs.Search.InStep
import Mapf.Proofs.Search.Settled
import Mapf.Proofs.Queue.Repair
import Mapf.Proofs.Words.Search
import Mapf.Proofs.Words.Frontier
import Mapf.Proofs.Words.Distances
import Mapf.Proofs.Words.Times
import Mapf.Proofs.Words.Plans
import Mapf.Proofs.Words.Tree
