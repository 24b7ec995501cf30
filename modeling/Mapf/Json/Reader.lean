import Mapf.Json.Number
import Mapf.Json.Value

/-! # Reading JSON

Reading a document checks its syntax and keeps every literal as it is written; `Value.text?` and
`Value.natural?` then say what a literal stands for. -/

namespace Mapf.Json

/-- The text without blanks in front; four characters are blank. -/
def skipBlanks (cs : List Char) : List Char :=
  cs.dropWhile fun c => c = ' ' || c = '\n' || c = '\t' || c = '\r'

def hexValue? (c : Char) : Option Nat :=
  if c.isDigit then some (c.toNat - '0'.toNat)
  else if 'a' ≤ c ∧ c ≤ 'f' then some (c.toNat - 'a'.toNat + 10)
  else if 'A' ≤ c ∧ c ≤ 'F' then some (c.toNat - 'A'.toNat + 10)
  else none

def hexQuad? (a b c d : Char) : Option Nat := do
  return (((← hexValue? a) * 16 + (← hexValue? b)) * 16 + (← hexValue? c)) * 16 + (← hexValue? d)

def unescape? : Char → Option Char
  | '"' => some '"'
  | '\\' => some '\\'
  | '/' => some '/'
  | 'b' => some '\x08'
  | 'f' => some '\x0c'
  | 'n' => some '\n'
  | 'r' => some '\r'
  | 't' => some '\t'
  | _ => none

/-- Reads a string literal after its opening quote, up to and with the closing one. -/
def readString : List Char → Option (List Char × List Char)
  | [] => none
  | '"' :: rest => some ([], rest)
  | '\\' :: 'u' :: a :: b :: c :: d :: rest => do
    let _ ← hexQuad? a b c d
    let (literal, rest) ← readString rest
    return ('\\' :: 'u' :: a :: b :: c :: d :: literal, rest)
  | '\\' :: c :: rest => do
    let _ ← unescape? c
    let (literal, rest) ← readString rest
    return ('\\' :: c :: literal, rest)
  | c :: rest =>
    if c.toNat < 0x20 || c = '\\' then none
    else do
      let (literal, rest) ← readString rest
      return (c :: literal, rest)

/-- Takes a given word off the front of a text. -/
def expect? (word cs : List Char) : Option (List Char) :=
  if word.isPrefixOf cs then some (cs.drop word.length) else none

mutual

/-- Reads a document off the front of a text, with at most `fuel` nested calls. -/
def readValue : (fuel : Nat) → List Char → Option (Value × List Char)
  | 0, _ => none
  | fuel + 1, cs =>
    match skipBlanks cs with
    | '\x7b' :: rest =>
      match skipBlanks rest with
      | '\x7d' :: rest => some (.object [], rest)
      | rest => (readFields fuel rest).map fun (fields, rest) => (.object fields, rest)
    | '[' :: rest =>
      match skipBlanks rest with
      | ']' :: rest => some (.array [], rest)
      | rest => (readItems fuel rest).map fun (items, rest) => (.array items, rest)
    | '"' :: rest => (readString rest).map fun (literal, rest) => (.string literal, rest)
    | 'n' :: rest => (expect? "ull".toList rest).map fun rest => (.null, rest)
    | 't' :: rest => (expect? "rue".toList rest).map fun rest => (.bool true, rest)
    | 'f' :: rest => (expect? "alse".toList rest).map fun rest => (.bool false, rest)
    | cs =>
      (NumberLiteral.read cs).map fun (_, rest) => (.number (cs.take (cs.length - rest.length)), rest)

/-- Reads the items of an array, up to and with the closing bracket. -/
def readItems : (fuel : Nat) → List Char → Option (List Value × List Char)
  | 0, _ => none
  | fuel + 1, cs => do
    let (item, rest) ← readValue fuel cs
    match skipBlanks rest with
    | ']' :: rest => return ([item], rest)
    | ',' :: rest =>
      let (items, rest) ← readItems fuel rest
      return (item :: items, rest)
    | _ => none

/-- Reads the fields of an object, up to and with the closing brace. -/
def readFields : (fuel : Nat) → List Char → Option (List (List Char × Value) × List Char)
  | 0, _ => none
  | fuel + 1, cs =>
    match skipBlanks cs with
    | '"' :: rest => do
      let (key, rest) ← readString rest
      match skipBlanks rest with
      | ':' :: rest =>
        let (value, rest) ← readValue fuel rest
        match skipBlanks rest with
        | '\x7d' :: rest => return ([(key, value)], rest)
        | ',' :: rest =>
          let (fields, rest) ← readFields fuel rest
          return ((key, value) :: fields, rest)
        | _ => none
      | _ => none
    | _ => none

end

/-- Reads a text that is one document. Every call but the first is preceded by a character, so the
    length of the text bounds the nesting of the calls. -/
def Value.parse? (text : String) : Option Value :=
  let cs := text.toList
  match readValue (2 * cs.length + 2) cs with
  | some (value, rest) => if (skipBlanks rest).isEmpty then some value else none
  | none => none

/-- What a string literal stands for; half of a surrogate pair stands for nothing. -/
def decode? : List Char → Option (List Char)
  | [] => some []
  | '\\' :: 'u' :: a :: b :: c :: d :: rest => do
    let n ← hexQuad? a b c d
    if 0xD800 ≤ n ∧ n ≤ 0xDBFF then
      match rest with
      | '\\' :: 'u' :: a' :: b' :: c' :: d' :: rest =>
        let m ← hexQuad? a' b' c' d'
        if 0xDC00 ≤ m ∧ m ≤ 0xDFFF then
          return Char.ofNat (0x10000 + (n - 0xD800) * 0x400 + (m - 0xDC00)) :: (← decode? rest)
        else none
      | _ => none
    else if 0xDC00 ≤ n ∧ n ≤ 0xDFFF then none
    else return Char.ofNat n :: (← decode? rest)
  | '\\' :: c :: rest => do return (← unescape? c) :: (← decode? rest)
  | c :: rest => do return c :: (← decode? rest)

namespace Value

def text? : Value → Option String
  | .string literal => (decode? literal).map String.ofList
  | _ => none

def natural? : Value → Option Nat
  | .number literal =>
    match Number.ofLiteral? literal with
    | some (.natural n) => some n
    | _ => none
  | _ => none

/-- The double that a number literal stands for; integers count as well. -/
def float? : Value → Option Float
  | .number literal =>
    match Number.ofLiteral? literal with
    | some (.natural n) => some n.toUInt64.toFloat
    | some (.negated n) => some (-n.toUInt64.toFloat)
    | some (.real x) => some x
    | none => none
  | _ => none

def list? {α : Type} (f : Value → Option α) : Value → Option (List α)
  | .array items => items.mapM f
  | _ => none

/-- The fields of a record with the given names. A record is an object, whose further fields do not
    count and whose named fields come at most once, or an array of exactly these fields. -/
def fields? (names : List String) : Value → Option (List (Option Value))
  | .array items => if items.length = names.length then some (items.map some) else none
  | .object fields => do
    let fields ← fields.mapM fun (key, value) => (decode? key).map fun key => (String.ofList key, value)
    names.mapM fun name =>
      match fields.filter fun field => field.1 = name with
      | [] => some none
      | [field] => some (some field.2)
      | _ => none
  | _ => none

/-- How deep arrays and objects nest in a document in normal form. -/
def maxDepth : Nat := 127

/-- A string literal with every character written in the usual way. -/
def normalLiteral? (literal : List Char) : Option (List Char) :=
  (decode? literal).map fun cs => escape (.ofList cs)

/-- A number literal written in the usual way. -/
def normalNumber? (literal : List Char) : Option Value := do
  match ← Number.ofLiteral? literal with
  | .natural n => return .ofNat n
  | .negated n => return .ofInt (-n)
  | .real x => return .ofFloat x

/-- The normal form of a document with at most `depth` levels of arrays and objects. -/
def normalWithin? (depth : Nat) (v : Value) : Option Value :=
  match v, depth with
  | .number literal, _ => normalNumber? literal
  | .string literal, _ => (normalLiteral? literal).map .string
  | .array items, depth + 1 => (items.mapM (normalWithin? depth)).map .array
  | .object fields, depth + 1 =>
    (fields.mapM fun (key, value) => do
      return (← normalLiteral? key, ← normalWithin? depth value)).map .object
  | .array _, 0 => none
  | .object _, 0 => none
  | v, _ => some v

/-- The document with every literal read and written anew; `none` if one stands for nothing or if arrays
    and objects nest too deep. -/
def normal? (v : Value) : Option Value := normalWithin? maxDepth v

end Value

end Mapf.Json
