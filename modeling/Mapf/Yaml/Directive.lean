import Mapf.Yaml.Scalar.Block
import Mapf.Yaml.Token

/-! # Directives

A line in front of a document that begins with a percent sign: the version of YAML, or the meaning of a
tag handle. -/

namespace Mapf.Yaml

def maxVersionDigits : Nat := 9

def readVersionPart? (c : Cursor) : Option (Nat × Cursor) := do
  let digits := c.rest.takeWhile Char.isDigit
  if digits = [] ∨ maxVersionDigits < digits.length then none
  let n ← numberIn? 10 digits
  return (n, c.skip digits.length)

def readVersion? (c : Cursor) : Option (Token × Cursor) := do
  let (major, c) ← readVersionPart? c.skipBlanks
  if c.rest.head? ≠ some '.' then none
  let (minor, c) ← readVersionPart? (c.skip 1)
  return (.version major minor, c)

/-- Reads a handle and its meaning after the name of their directive. -/
def readTagHandle? (c : Cursor) : Option (Token × Cursor) := do
  let c := c.skipBlanks
  if c.rest.head? ≠ some '!' then none
  let c := c.skip 1
  let (handle, c) := (readHandle? c).getD (['!'], c)
  if !c.rest.head?.any isBlank then none
  let (meaning, c) ← readSomeOctets? true c.skipBlanks
  if endsWord c.rest then some (.tagHandle handle meaning, c) else none

/-- Reads a directive after its percent sign, with the end of its line. -/
def readDirective? (c : Cursor) : Option (Token × Cursor) := do
  let name := c.rest.takeWhile isNameChar
  let c := c.skip name.length
  if !endsWord c.rest then none
  let (token, c) ←
    match String.ofList name with
    | "YAML" => readVersion? c
    | "TAG" => readTagHandle? c
    | _ => none
  return (token, ← c.endLine?)

end Mapf.Yaml
