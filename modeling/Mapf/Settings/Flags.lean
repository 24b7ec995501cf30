import Mapf.Settings.Basic
import Mapf.Text.Numeral

/-! # Command line flags

A flag is written `--name value` or `--name=value`; the value of a flag without `=` is the next
argument, unless that looks like a flag itself. A value is checked when the next flag comes or the
line ends, so an argument that is unknown wins over a bad value right before it. Only the buckets of
the agents may be given several times. -/

namespace Mapf

/-- Why a command line is refused or not carried out. -/
inductive FlagError where
  | unknownArgument
  | valueValidation
  | invalidValue
  | argumentConflict
  | tooManyValues
  | displayHelp
  | displayVersion
  deriving DecidableEq

def FlagError.name : FlagError → String
  | .unknownArgument => "UnknownArgument"
  | .valueValidation => "ValueValidation"
  | .invalidValue => "InvalidValue"
  | .argumentConflict => "ArgumentConflict"
  | .tooManyValues => "TooManyValues"
  | .displayHelp => "DisplayHelp"
  | .displayVersion => "DisplayVersion"

/-- The flags of a command line. -/
structure Flags where
  config : Option String
  mapPath : Option String
  scenPath : Option String
  agentsPath : Option String
  outputPath : Option String
  numAgents : Option Nat
  agentsDist : List Nat
  seed : Option Nat
  timeLimit : Option Nat
  costType : Option CostType
  maxExpansions : Option Nat
  parallelBranching : Bool
  deriving DecidableEq

/-- The flags that take a value. -/
inductive ValueFlag where
  | config
  | mapPath
  | scenPath
  | agentsPath
  | outputPath
  | numAgents
  | agentsDist
  | seed
  | timeLimit
  | costType
  | maxExpansions
  deriving DecidableEq

/-- What the name of a flag stands for. -/
inductive FlagName where
  | value (flag : ValueFlag)
  | parallelBranching
  | help
  | version
  deriving DecidableEq

def FlagName.ofString? : String → Option FlagName
  | "config" => some (.value .config)
  | "map-path" => some (.value .mapPath)
  | "scen-path" => some (.value .scenPath)
  | "agents-path" => some (.value .agentsPath)
  | "output-path" => some (.value .outputPath)
  | "num-agents" => some (.value .numAgents)
  | "agents-dist" => some (.value .agentsDist)
  | "seed" => some (.value .seed)
  | "time-limit-ms" => some (.value .timeLimit)
  | "cost-type" => some (.value .costType)
  | "max-expansions" => some (.value .maxExpansions)
  | "parallel-branching" => some .parallelBranching
  | "help" => some .help
  | "version" => some .version
  | _ => none

/-- What an argument looks like. -/
inductive Argument where
  /-- Two dashes alone: no flags follow. -/
  | endOfFlags
  /-- A known flag, with the text after its equals sign. -/
  | flag (name : FlagName) (attached : Option String)
  /-- Something with a dash in front that is no flag. -/
  | unknown
  | plain (text : String)
  deriving DecidableEq

namespace Argument

/-- The name of a flag and the text after its equals sign. -/
def splitName (cs : List Char) : String × Option String :=
  match cs.dropWhile (· ≠ '=') with
  | [] => (String.ofList cs, none)
  | _ :: value => (String.ofList (cs.takeWhile (· ≠ '=')), some (String.ofList value))

/-- What an argument looks like; of letters after a single dash the first one decides. -/
def ofString (text : String) : Argument :=
  match text.toList with
  | ['-', '-'] => .endOfFlags
  | '-' :: '-' :: cs =>
    let (name, attached) := splitName cs
    match FlagName.ofString? name with
    | some known => .flag known attached
    | none => .unknown
  | ['-'] => .plain text
  | '-' :: 'h' :: _ => .flag .help none
  | '-' :: 'V' :: _ => .flag .version none
  | '-' :: _ => .unknown
  | _ => .plain text

end Argument

namespace Flags

def empty : Flags where
  config := none
  mapPath := none
  scenPath := none
  agentsPath := none
  outputPath := none
  numAgents := none
  agentsDist := []
  seed := none
  timeLimit := none
  costType := none
  maxExpansions := none
  parallelBranching := false

def readNumber (value : String) : Except FlagError Nat :=
  (Text.readNumeral value.toList).mapError fun _ => .valueValidation

def readCostType : String → Except FlagError CostType
  | "sum-of-costs" => .ok .sumOfCosts
  | "makespan" => .ok .makespan
  | _ => .error .invalidValue

def commaParts : List Char → List (List Char)
  | [] => [[]]
  | ',' :: cs => [] :: commaParts cs
  | c :: cs =>
    match commaParts cs with
    | [] => [[c]]
    | part :: parts => (c :: part) :: parts

def readNumbers (value : String) : Except FlagError (List Nat) :=
  (commaParts value.toList).mapM fun part => readNumber (String.ofList part)

/-- A value for a flag that may be given only once. -/
def once {α : Type} (known : Option α) (value : Except FlagError α) : Except FlagError (Option α) :=
  if known.isSome then .error .argumentConflict else value.map some

def set (f : Flags) (flag : ValueFlag) (value : String) : Except FlagError Flags := do
  match flag with
  | .config => return { f with config := ← once f.config (.ok value) }
  | .mapPath => return { f with mapPath := ← once f.mapPath (.ok value) }
  | .scenPath => return { f with scenPath := ← once f.scenPath (.ok value) }
  | .agentsPath => return { f with agentsPath := ← once f.agentsPath (.ok value) }
  | .outputPath => return { f with outputPath := ← once f.outputPath (.ok value) }
  | .numAgents => return { f with numAgents := ← once f.numAgents (readNumber value) }
  | .agentsDist => return { f with agentsDist := f.agentsDist ++ (← readNumbers value) }
  | .seed => return { f with seed := ← once f.seed (readNumber value) }
  | .timeLimit => return { f with timeLimit := ← once f.timeLimit (readNumber value) }
  | .costType => return { f with costType := ← once f.costType (readCostType value) }
  | .maxExpansions => return { f with maxExpansions := ← once f.maxExpansions (readNumber value) }

/-- A flag whose value has not been checked yet, or has not come yet. -/
structure Pending where
  flag : ValueFlag
  value : Option String

/-- Checks the value of the last flag. -/
def settle (f : Flags) : Option Pending → Except FlagError Flags
  | none => .ok f
  | some ⟨_, none⟩ => .error .invalidValue
  | some ⟨flag, some value⟩ => f.set flag value

/-- Reads the arguments after the flags `f`, of which the last one may be pending. -/
def readAfter (f : Flags) (pending : Option Pending) : List String → Except FlagError Flags
  | [] => f.settle pending
  | arg :: rest =>
    match Argument.ofString arg with
    | .endOfFlags => if rest.isEmpty then f.settle pending else .error .unknownArgument
    | .unknown => .error .unknownArgument
    | .plain value =>
      match pending with
      | some ⟨flag, none⟩ => f.readAfter (some ⟨flag, some value⟩) rest
      | _ => .error .unknownArgument
    | .flag (.value flag) attached => do
      let f ← f.settle pending
      match attached with
      | none => f.readAfter (some ⟨flag, none⟩) rest
      | some value => (← f.set flag value).readAfter none rest
    | .flag _ (some _) => .error .tooManyValues
    | .flag .parallelBranching none => do
      let f ← f.settle pending
      if f.parallelBranching then .error .argumentConflict
      else readAfter { f with parallelBranching := true } none rest
    | .flag .help none => do
      let _ ← f.settle pending
      .error .displayHelp
    | .flag .version none => do
      let _ ← f.settle pending
      .error .displayVersion

def read (args : List String) : Except FlagError Flags := empty.readAfter none args

end Flags

namespace Settings

/-- The settings with what the flags say in place of their own. -/
def override (s : Settings) (f : Flags) : Settings where
  mapPath := f.mapPath.getD s.mapPath
  scenPath := f.scenPath.getD s.scenPath
  agentsPath := f.agentsPath.or s.agentsPath
  outputPath := f.outputPath.or s.outputPath
  numAgents := f.numAgents.getD s.numAgents
  agentsDist := if f.agentsDist.isEmpty then s.agentsDist else f.agentsDist
  seed := f.seed.getD s.seed
  timeLimit := f.timeLimit.or s.timeLimit
  maxExpansions := f.maxExpansions.or s.maxExpansions
  costType := f.costType.getD s.costType
  parallelBranching := s.parallelBranching || f.parallelBranching

/-- The settings with what the flags say, if they can be used. -/
def overrideChecked (s : Settings) (f : Flags) : Except SettingsError Settings :=
  (s.override f).validate.map fun _ => s.override f

end Settings

end Mapf
