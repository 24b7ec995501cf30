import Mapf.Grid.Basic
import Mapf.Text.Blank
import Mapf.Text.Lines
import Mapf.Text.Numeral
import Mapf.Text.Quoted

/-! # The text format of grid maps

A map file has a line for the type of the map, which may be anything, a line `height <n>`, a line
`width <n>`, the line `map`, and then the rows. A dot is a passable tile, every other character a
blocked one; blanks at the end of a row do not count, and neither do lines after the last row. -/

namespace Mapf.Grid

/-- The header lines that hold a size. -/
inductive Header where
  | height
  | width
  deriving DecidableEq

def Header.name : Header → String
  | .height => "height"
  | .width => "width"

/-- Why a text is no map. -/
inductive FormatError where
  | missingType
  | missingHeader (header : Header)
  | badHeader (header : Header) (line : List Char)
  | badSize (header : Header) (word : List Char) (cause : Text.NumeralError)
  /-- The fourth line, if there is one, is not `map`. -/
  | noMapLine (found : Option (List Char))
  | rowWidth (row found expected : Nat)
  | rowCount (found expected : Nat)
  /-- So many rows cannot be held in memory. -/
  | tooManyRows
  deriving DecidableEq

/-- The wording of a map error, from the outermost context to the cause. -/
def FormatError.chain : FormatError → List String
  | .missingType => ["missing type line"]
  | .missingHeader header => [s!"missing {header.name} line"]
  | .badHeader header line =>
    ["expected `" ++ header.name ++ " <n>`, got " ++ Text.quoted line]
  | .badSize header word cause =>
    [s!"invalid {header.name} value {Text.quoted word}", cause.message]
  | .noMapLine none => ["expected `map` line, got None"]
  | .noMapLine (some line) => ["expected `map` line, got Some(" ++ Text.quoted line ++ ")"]
  | .rowWidth row found expected => [s!"row {row} has {found} cells, expected {expected}"]
  | .rowCount found expected => [s!"map has {found} rows, expected {expected}"]
  | .tooManyRows => ["capacity overflow"]

def readHeader (header : Header) : Option (List Char) → Except FormatError Nat
  | none => .error (.missingHeader header)
  | some line =>
    match Text.words line with
    | key :: value :: _ =>
      if key = header.name.toList then (Text.readNumeral value).mapError (.badSize header value)
      else .error (.badHeader header line)
    | _ => .error (.badHeader header line)

def readRow (width row : Nat) (line : List Char) : Except FormatError (Array Bool) :=
  let tiles := Text.trimEnd line
  if tiles.length = width then .ok (tiles.map fun c => c == '.').toArray
  else .error (.rowWidth row tiles.length width)

def readRows (width row : Nat) : List (List Char) → Except FormatError (List (Array Bool))
  | [] => .ok []
  | line :: lines => do
    let tiles ← readRow width row line
    return tiles :: (← readRows width (row + 1) lines)

/-- Checks the line `map`, for which blanks at either end do not count. -/
def checkMapLine : Option (List Char) → Except FormatError Unit
  | none => .error (.noMapLine none)
  | some line => if Text.trim line = "map".toList then .ok () else .error (.noMapLine (some line))

def readBody (height width : Nat) (lines : List (List Char)) : Except FormatError (Array (Array Bool)) :=
  if !Storage.fits rowBytes height then .error .tooManyRows
  else
    match readRows width 0 (lines.take height) with
    | .error e => .error e
    | .ok rows => if rows.length = height then .ok rows.toArray else .error (.rowCount rows.length height)

def ofLines : List (List Char) → Except FormatError Grid
  | [] => .error .missingType
  | _ :: lines => do
    let height ← readHeader .height lines[0]?
    let width ← readHeader .width lines[1]?
    checkMapLine lines[2]?
    let rows ← readBody height width (lines.drop 3)
    return ofRows height width rows

def parse (text : String) : Except FormatError Grid := ofLines (Text.lines text.toList)

end Mapf.Grid
