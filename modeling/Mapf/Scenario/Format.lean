import Mapf.Scenario.Basic
import Mapf.Text.Blank
import Mapf.Text.Lines
import Mapf.Text.Numeral
import Mapf.Text.Quoted

/-! # The text format of scenarios

A scenario file begins with a line that starts with `version`; every later line that is not blank is a
route. Its fields are the bucket, the name, width and height of the map, the column and row of the
start, and the column and row of the goal; further fields do not count. The map is described by the
first route. -/

namespace Mapf.Scenario

/-- Why a text is no scenario. -/
inductive FormatError where
  | missingVersion
  /-- A line is not valid UTF-8. -/
  | invalidText
  | tooFewFields (line : Nat)
  | badNumber (line : Nat) (word : List Char) (cause : Text.NumeralError)
  deriving DecidableEq

/-- The wording of a scenario error, from the outermost context to the cause. -/
def FormatError.chain : FormatError → List String
  | .missingVersion => ["missing version line"]
  | .invalidText => ["stream did not contain valid UTF-8"]
  | .tooFewFields line => [s!"line {line}: expected at least 8 fields"]
  | .badNumber line word cause => [s!"line {line}: bad number {Text.quoted word}", cause.message]

def readField (line : Nat) (word : List Char) : Except FormatError Nat :=
  (Text.readNumeral word).mapError (.badNumber line word)

/-- Takes in the route of a line that has the given number in the file. -/
def addLine (s : Scenario) (number : Nat) (line : List Char) : Except FormatError Scenario :=
  match Text.words line with
  | [] => .ok s
  | bucket :: map :: width :: height :: startColumn :: startRow :: goalColumn :: goalRow :: _ => do
    let startX ← readField number startRow
    let startY ← readField number startColumn
    let goalX ← readField number goalRow
    let goalY ← readField number goalColumn
    let s ←
      if s.map.isEmpty then
        pure { s with
          map := String.ofList map
          mapWidth := ← readField number width
          mapHeight := ← readField number height }
      else pure s
    return s.addRoute (← readField number bucket) ⟨⟨startX, startY⟩, ⟨goalX, goalY⟩⟩
  | _ => .error (.tooFewFields number)

/-- Takes in the lines from the given number on. -/
def addLines (s : Scenario) (number : Nat) : List (Option (List Char)) → Except FormatError Scenario
  | [] => .ok s
  | none :: _ => .error .invalidText
  | some line :: lines => do (← s.addLine number line).addLines (number + 1) lines

/-- Reads the lines of a scenario; `none` is a line that is not valid UTF-8. -/
def ofLines : List (Option (List Char)) → Except FormatError Scenario
  | [] => .error .missingVersion
  | none :: _ => .error .invalidText
  | some version :: lines =>
    if "version".toList.isPrefixOf version then addLines .empty 2 lines else .error .missingVersion

def parse (text : String) : Except FormatError Scenario := ofLines ((Text.lines text.toList).map some)

def parseBytes (bytes : ByteArray) : Except FormatError Scenario := ofLines (Text.linesOfBytes bytes)

end Mapf.Scenario
