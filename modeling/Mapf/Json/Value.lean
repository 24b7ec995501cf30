import Mapf.Decimal.Shortest

/-! # JSON documents

Numbers and strings are kept as they are written, so that reading a document decides only about its
syntax; what a literal means is decided where it is used. -/

namespace Mapf.Json

/-- A JSON document. Number literals, and string literals without their quotes, are kept as written. -/
inductive Value where
  | null
  | bool (value : Bool)
  | number (literal : List Char)
  | string (literal : List Char)
  | array (items : List Value)
  | object (fields : List (List Char × Value))

namespace Value

def hexDigit (n : Nat) : Char := (Nat.digitChar n)

def escapeChar (c : Char) : List Char :=
  if c = '"' then ['\\', '"']
  else if c = '\\' then ['\\', '\\']
  else if c = '\n' then ['\\', 'n']
  else if c = '\r' then ['\\', 'r']
  else if c = '\t' then ['\\', 't']
  else if c = '\x08' then ['\\', 'b']
  else if c = '\x0c' then ['\\', 'f']
  else if c.toNat < 0x20 then ['\\', 'u', '0', '0', hexDigit (c.toNat / 16), hexDigit (c.toNat % 16)]
  else [c]

def escape (text : String) : List Char := text.toList.flatMap escapeChar

def ofText (text : String) : Value := .string (escape text)

def ofNat (n : Nat) : Value := .number (Nat.toDigits 10 n)

def ofInt (n : Int) : Value := .number (toString n).toList

/-- A floating-point number; one that is infinite or not a number becomes `null`. -/
def ofFloat (x : Float) : Value :=
  if x.isNaN || x.isInf then .null else .number (Decimal.text x)

def ofOption {α : Type} (f : α → Value) : Option α → Value
  | none => .null
  | some a => f a

def ofList {α : Type} (f : α → Value) (items : List α) : Value := .array (items.map f)

def ofFields (fields : List (String × Value)) : Value :=
  .object (fields.map fun (name, value) => (escape name, value))

/-! ### Writing -/

def commaSeparated : List (List Char) → List Char
  | [] => []
  | [part] => part
  | part :: parts => part ++ ',' :: commaSeparated parts

mutual

def compact : Value → List Char
  | .null => "null".toList
  | .bool true => "true".toList
  | .bool false => "false".toList
  | .number literal => literal
  | .string literal => '"' :: literal ++ ['"']
  | .array items => '[' :: commaSeparated (compactItems items) ++ [']']
  | .object fields => '\x7b' :: commaSeparated (compactFields fields) ++ ['\x7d']

def compactItems : List Value → List (List Char)
  | [] => []
  | item :: items => compact item :: compactItems items

def compactFields : List (List Char × Value) → List (List Char)
  | [] => []
  | (key, value) :: fields => ('"' :: key ++ '"' :: ':' :: compact value) :: compactFields fields

end

def newLine (depth : Nat) : List Char := '\n' :: List.replicate (2 * depth) ' '

def bracketed (opening closing : Char) (depth : Nat) : List (List Char) → List Char
  | [] => [opening, closing]
  | parts =>
    opening :: commaSeparated (parts.map fun part => newLine (depth + 1) ++ part) ++ newLine depth ++ [closing]

mutual

/-- The text of a document with every item and field on a line of its own, inside `depth` levels. -/
def indented (depth : Nat) : Value → List Char
  | .array items => bracketed '[' ']' depth (indentedItems (depth + 1) items)
  | .object fields => bracketed '\x7b' '\x7d' depth (indentedFields (depth + 1) fields)
  | value => compact value

def indentedItems (depth : Nat) : List Value → List (List Char)
  | [] => []
  | item :: items => indented depth item :: indentedItems depth items

def indentedFields (depth : Nat) : List (List Char × Value) → List (List Char)
  | [] => []
  | (key, value) :: fields =>
    ('"' :: key ++ '"' :: ':' :: ' ' :: indented depth value) :: indentedFields depth fields

end

def render (v : Value) : String := .ofList v.compact

def renderIndented (v : Value) : String := .ofList (v.indented 0)

end Value

end Mapf.Json
