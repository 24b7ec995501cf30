import Mapf.Json.Record
import Mapf.Load
import Mapf.Random.Draw
import Mapf.Scenario.Sampling
import Mapf.Settings.Flags
import Mapf.Tree.Solver

/-! # The command line program

A run reads settings, a map and agents, solves, logs the result and writes a report. All that it needs
from its surroundings is a host: files, a log and a clock, in any monad. -/

namespace Mapf

/-- What a program can ask of its surroundings. -/
structure Host (m : Type → Type) where
  /-- The contents of a file. -/
  read : (path : String) → m Contents
  /-- Writes a file anew; whether that was possible. -/
  create : (path text : String) → m Bool
  log : Event → m Unit
  /-- Milliseconds since the start of the program. -/
  now : m Nat

/-- Why a run failed. -/
inductive ProgramError where
  | flags (error : FlagError)
  | settings (error : SettingsError)
  | load (error : LoadError)
  | sampling (error : Scenario.SamplingError)
  | blockedAgent (id : Nat)
  | invalidSolution
  | uncreatedOutput (path : String)
  /-- The run did not end in the rounds that it was allowed. -/
  | outOfRounds
  deriving DecidableEq

namespace ProgramError

/-- The wording of a failure, from the outermost context to the cause. -/
def chain : ProgramError → List String
  | .flags error => [error.name]
  | .settings error => [error.message]
  | .load error => error.chain
  | .sampling error => [error.message]
  | .blockedAgent id => [s!"agent {id} starts or ends on a blocked cell"]
  | .invalidSolution => ["cbs returned an invalid solution"]
  | .uncreatedOutput path => [s!"cannot create output file {path}"]
  | .outOfRounds => ["the search did not end"]

def exitCode : ProgramError → Nat
  | .flags .displayHelp | .flags .displayVersion => 0
  | .flags _ => 2
  | .load (.malformedMap _ .tooManyRows) => 101
  | _ => 1

end ProgramError

namespace Program

/-- Steps of a program that may fail. -/
abbrev Step (m : Type → Type) := ExceptT ProgramError m

variable {m : Type → Type} [Monad m]

/-- The step that a finished computation is, with a wording for its failure. -/
def ofExcept {ε α : Type} (wording : ε → ProgramError) (x : Except ε α) : Step m α :=
  ExceptT.mk (pure (x.mapError wording))

def load {α : Type} (host : Host m) (take : String → Contents → Except LoadError α) (path : String) :
    Step m α := do
  let contents ← host.read path
  ofExcept .load (take path contents)

def logAll (host : Host m) : List Event → m Unit
  | [] => pure ()
  | event :: events => do
    host.log event
    logAll host events

/-- The settings of a settings file, or the standard ones. -/
def baseSettings (host : Host m) : Option String → Step m Settings
  | some path => load host Settings.load path
  | none => do
    host.log (.info "No config file specified, using default config")
    pure Settings.standard

/-- The settings of a command line: the base ones, changed by its flags. -/
def settings (host : Host m) (flags : Flags) : Step m Settings := do
  let base ← baseSettings host flags.config
  ofExcept .settings (base.overrideChecked flags)

/-- The agents to plan: those of a list, or some drawn from the scenario. -/
def agents (host : Host m) (rounds : Nat) (settings : Settings) : Step m (List Agent) := do
  match settings.agentsPath with
  | some path => load host Agent.loadList path
  | none => do
    let scenario ← load host Scenario.load settings.scenPath
    let draws := Random.Draws.ofWords rounds
    let source := Random.Source.ofSeed settings.seed
    let drawn :=
      if settings.agentsDist.isEmpty then scenario.agentsAtRandom draws settings.numAgents source
      else scenario.agentsByBuckets draws settings.numAgents settings.agentsDist source
    match drawn with
    | none => throw .outOfRounds
    | some (.ok agents, _) => do
      host.log (Scenario.drawnEvent agents)
      pure agents
    | some (.error e, _) => throw (.sampling e)

/-- Repeats the rounds of a tree search, each with a fresh reading of the clock. -/
def solveRounds (host : Host m) (solver : Solver) (rounds : Nat) (budget : Budget) (started : Nat) :
    (count : Nat) → Solver.Progress → m (Option SolveReport)
  | 0, _ => pure none
  | count + 1, t => do
    let time := (← host.now) - started
    match solver.round rounds ⟨fun _ => time, fun _ _ => time⟩ budget t with
    | none => pure none
    | some (.done report) => pure (some report)
    | some (.next t) => solveRounds host solver rounds budget started count t

def solve (host : Host m) (rounds : Nat) (settings : Settings) (env : Environment) (agents : List Agent) :
    Step m SolveReport := do
  let some solver := Solver.prepare rounds env agents | throw .outOfRounds
  let solver := { solver with costType := settings.costType, parallelBranching := settings.parallelBranching }
  let started ← host.now
  let report : Option SolveReport ← ExceptT.lift <|
    match solver.launch rounds .still settings.budget with
    | none => pure none
    | some (.done report) => pure (some report)
    | some (.next t) => solveRounds host solver rounds settings.budget started rounds t
  match report with
  | none => throw .outOfRounds
  | some report => return Solver.conclude ((← host.now) - started) report

/-- Logs what a solve came to; a solution is checked before. -/
def announce (host : Host m) (env : Environment) (agents : List Agent) :
    Except Failure Solution → Step m Unit
  | .ok solution => do
    if !solution.verify env agents then throw .invalidSolution
    host.log (.info s!"cbs solution: cost {solution.cost} makespan {solution.makespan}")
  | .error (.budgetExceeded (some best)) =>
    host.log (.warn s!"cbs ran out of budget, best node has cost {best.solution.cost} and {best.remainingConflicts} conflicts")
  | .error failure => host.log (.error s!"cbs solve fails: {failure.message}")

/-- Fails at the first agent that does not start and end inside. -/
def checkAgents (env : Environment) (agents : List Agent) : Step m Unit :=
  match agents.find? fun agent => !agent.verify env with
  | some agent => throw (.blockedAgent agent.id)
  | none => pure ()

/-- Writes the statistics of a solve to a file, if there is one. -/
def writeStats (host : Host m) (stats : Stats) : Option String → Step m Unit
  | none => pure ()
  | some path => do
    let created ← host.create path stats.report.toJson.renderIndented
    if !created then throw (.uncreatedOutput path)
    host.log (.info s!"statistics written to {path}")

def run (host : Host m) (rounds : Nat) (args : List String) : Step m Unit := do
  let flags ← ofExcept .flags (Flags.read args)
  let settings ← settings host flags
  let grid ← load host Grid.load settings.mapPath
  let agents ← agents host rounds settings
  checkAgents grid.environment agents
  let report ← solve host rounds settings grid.environment agents
  ExceptT.lift (logAll host report.events)
  announce host grid.environment agents report.result
  writeStats host report.stats settings.outputPath

end Program

end Mapf
