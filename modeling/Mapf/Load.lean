import Mapf.Files
import Mapf.Grid.Format
import Mapf.Scenario.Format
import Mapf.Settings.Format
import Mapf.Yaml.Agents

/-! # Files as values

What the contents of a file, or the failure to get at them, come to: a map, a scenario, a list of
agents or settings. Every error names the file. -/

namespace Mapf

/-- The wording for contents that are no text. -/
def invalidUtf8 : String := "stream did not contain valid UTF-8"

/-- Why a file does not give what it should. -/
inductive LoadError where
  /-- A map whose text cannot be had, for a reason in words. -/
  | unreadableMap (path reason : String)
  | malformedMap (path : String) (error : Grid.FormatError)
  | unopenedScenario (path : String) (error : FileError)
  /-- A scenario that ends in an error before its first line. -/
  | scenarioDirectory (path : String)
  | invalidScenario (path : String) (error : Scenario.FormatError)
  | unopenedAgents (path : String)
  | invalidAgents (path : String)
  | unreadableSettings (path : String)
  | invalidSettings (path : String)
  deriving DecidableEq

/-- The wording of a load error, from the outermost context to the cause; for agents and settings only
    the context is given. -/
def LoadError.chain : LoadError → List String
  | .unreadableMap path reason => [s!"failed to read map file {path}", reason]
  | .malformedMap path error => s!"malformed map file {path}" :: error.chain
  | .unopenedScenario path error => [s!"cannot open scenario {path}", error.message]
  | .scenarioDirectory path => [s!"invalid scenario {path}", FileError.isDirectory.message]
  | .invalidScenario path error => s!"invalid scenario {path}" :: error.chain
  | .unopenedAgents path => [s!"cannot open agent list {path}"]
  | .invalidAgents path => [s!"invalid agent list {path}"]
  | .unreadableSettings path => [s!"cannot read config file {path}"]
  | .invalidSettings path => [s!"error with config file: {path}"]

def Grid.load (path : String) : Contents → Except LoadError Grid
  | .error e => .error (.unreadableMap path e.message)
  | .ok bytes =>
    match String.fromUTF8? bytes with
    | none => .error (.unreadableMap path invalidUtf8)
    | some text => (parse text).mapError (.malformedMap path)

def Scenario.load (path : String) : Contents → Except LoadError Scenario
  | .error .isDirectory => .error (.scenarioDirectory path)
  | .error e => .error (.unopenedScenario path e)
  | .ok bytes => (parseBytes bytes).mapError (.invalidScenario path)

def Agent.loadList (path : String) : Contents → Except LoadError (List Agent)
  | .error .isDirectory => .error (.invalidAgents path)
  | .error _ => .error (.unopenedAgents path)
  | .ok bytes =>
    match (String.fromUTF8? bytes).bind Yaml.readAgents? with
    | none => .error (.invalidAgents path)
    | some agents => .ok agents

def Settings.load (path : String) : Contents → Except LoadError Settings
  | .error _ => .error (.unreadableSettings path)
  | .ok bytes =>
    match String.fromUTF8? bytes with
    | none => .error (.unreadableSettings path)
    | some text =>
      match parse? text with
      | none => .error (.invalidSettings path)
      | some settings => .ok settings

end Mapf
