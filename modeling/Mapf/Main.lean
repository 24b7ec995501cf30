import Mapf.Program

/-! # The executable -/

open Mapf

def helpText : String := "Conflict-Based Search for multi-agent path finding.

Options:
      --config <FILE>           Path to a YAML config file
      --map-path <FILE>         Path to the map file
      --scen-path <FILE>        Path to the MovingAI scenario file
      --agents-path <FILE>      Path to a YAML agent list, used instead of the scenario
      --output-path <FILE>      Path to the JSON statistics report
      --num-agents <N>          Number of agents
      --agents-dist <N,...>     Distribution of agents over scenario buckets
      --seed <N>                Seed for the random number generator
      --time-limit-ms <N>       Wall-clock limit of the search in milliseconds
      --cost-type <TYPE>        How agent costs add up: sum-of-costs or makespan
      --max-expansions <N>      Maximum number of constraint tree expansions
      --parallel-branching      Build both children of an expansion in parallel
  -h, --help                    Print help
  -V, --version                 Print version"

/-- More rounds than any machine completes. -/
def maxRounds : Nat := 1000000000000000000

def versionText : String := "CBS planner 0.1"

def readContents (path : String) : IO Contents := do
  try
    return .ok (← IO.FS.readBinFile path)
  catch
    | .inappropriateType none .. => return .error .isDirectory
    | .inappropriateType (some _) .. => return .error .notDirectory
    | .invalidArgument .. => return .error .nameTooLong
    | _ => return .error .missing

def createFile (path text : String) : IO Bool := do
  try
    IO.FS.writeFile path text
    return true
  catch _ => return false

/-- The file system, the standard output and the clock of the machine. -/
def machine : Host IO where
  read := readContents
  create := createFile
  log event := IO.println s!"{event.level.name} {event.shown}"
  now := IO.monoMsNow

def main (args : List String) : IO UInt32 := do
  match ← (Program.run machine maxRounds args).run with
  | .ok () => return 0
  | .error (.flags .displayHelp) => do
    IO.println helpText
    return 0
  | .error (.flags .displayVersion) => do
    IO.println versionText
    return 0
  | .error e => do
    IO.eprintln ("Error: " ++ "\nCaused by: ".intercalate e.chain)
    return UInt32.ofNat e.exitCode
