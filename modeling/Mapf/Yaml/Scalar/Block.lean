import Mapf.Yaml.Cursor
import Mapf.Yaml.Numeral

/-! # Block scalars

A block scalar is a run of indented lines after a header. Literal ones keep their line ends; folded
ones join lines that do not begin with a blank. The header may say how far the lines are indented and
whether the line ends after the last line count. -/

namespace Mapf.Yaml

/-- Which line ends after the last line of a block scalar count. -/
inductive Chomping where
  | strip
  | clip
  | keep

/-- What the header of a block scalar says. -/
structure BlockHeader where
  chomping : Chomping
  /-- How much more its lines are indented than what is around it. -/
  indentation : Option Nat

def Chomping.read : List Char → Option Chomping
  | '+' :: _ => some .keep
  | '-' :: _ => some .strip
  | _ => none

def readIndentation : List Char → Option Nat
  | c :: _ => digitIn? 10 c
  | [] => none

/-- Reads the rest of a line, which holds nothing but blanks and a comment, with its end. -/
def Cursor.endLine? (c : Cursor) : Option Cursor :=
  let c := c.skipBlanks
  let c := if c.rest.head? = some '#' then c.skip (c.rest.takeWhile (!isBreak ·)).length else c
  match c.rest with
  | [] => some c
  | x :: _ => if isBreak x then some c.next else none

/-- Reads a header after its indicator, with the end of its line. -/
def BlockHeader.read? (c : Cursor) : Option (BlockHeader × Cursor) := do
  let (sign, digit, length) :=
    match Chomping.read c.rest, readIndentation c.rest with
    | some sign, _ =>
      match readIndentation (c.rest.drop 1) with
      | some digit => (sign, some digit, 2)
      | none => (sign, none, 1)
    | none, some digit =>
      match Chomping.read (c.rest.drop 1) with
      | some sign => (sign, some digit, 2)
      | none => (Chomping.clip, some digit, 1)
    | none, none => (.clip, none, 0)
  if digit = some 0 then none
  let c ← (c.skip length).endLine?
  return (⟨sign, digit⟩, c)

/-- Passes over the indentation of a line and the empty lines in front of it: gives the greatest column
    met, the line ends passed over, latest first, and the place. Without a known indentation all spaces
    count as one; a tab cannot stand for one. -/
def readIndents (indent : Option Nat) (greatest : Nat) (breaks : List Char) (c : Cursor) :
    Option (Nat × List Char × Cursor) :=
  match _ : c.rest with
  | [] => some (max greatest c.column, breaks, c)
  | x :: _ =>
    let within := indent.all (c.column < ·)
    if x = ' ' && within then readIndents indent greatest breaks c.next
    else if x = '\t' && within then none
    else if isBreak x then readIndents indent (max greatest c.column) (x :: breaks) c.next
    else some (max greatest c.column, breaks, c)
termination_by c.rest.length
decreasing_by all_goals simp [*]

/-- What has been read of a block scalar. -/
structure BlockText where
  /-- The lines, last character first, without the end of the last one. -/
  text : List Char
  /-- The end of the last line, if it has one. -/
  lineEnd : List Char
  /-- The ends of the empty lines after it, latest first. -/
  breaks : List Char
  /-- Whether the last line begins with a blank. -/
  blank : Bool

/-- The text with what the line ends stand for in front of a next line. -/
def BlockText.continued (t : BlockText) (folded blank : Bool) : List Char :=
  if folded && t.lineEnd = ['\n'] && !t.blank && !blank then
    t.breaks ++ (if t.breaks.isEmpty then ' ' :: t.text else t.text)
  else t.breaks ++ t.lineEnd ++ t.text

/-- Reads the lines of a block scalar that begin at a column. Each of them has a character, so the
    length of the text bounds their number. -/
def readLines (folded : Bool) (column : Nat) : (fuel : Nat) → BlockText → Cursor → Option (BlockText × Cursor)
  | 0, t, c => some (t, c)
  | fuel + 1, t, c =>
    match c.rest with
    | [] => some (t, c)
    | x :: _ =>
      if c.column = column then do
        let line := c.rest.takeWhile (!isBreak ·)
        let last := c.skip line.length
        let (_, breaks, next) ← readIndents (some column) 0 [] last.next
        readLines folded column fuel {
          text := line.reverse ++ t.continued folded (isBlank x)
          lineEnd := last.rest.take 1
          breaks
          blank := isBlank x } next
      else some (t, c)

/-- The text of a block scalar whose lines are all read. -/
def BlockText.chomp (t : BlockText) : Chomping → List Char
  | .strip => t.text.reverse
  | .clip => (t.lineEnd ++ t.text).reverse
  | .keep => (t.breaks ++ t.lineEnd ++ t.text).reverse

/-- Reads a block scalar after its indicator. Its lines begin at column `minColumn` or later. -/
def readBlock (folded : Bool) (minColumn : Nat) (c : Cursor) : Option (List Char × Cursor) := do
  let (header, c) ← BlockHeader.read? c
  let known := header.indentation.map (· + (minColumn - 1))
  let (greatest, breaks, c) ← readIndents known 0 [] c
  let column := known.getD (max greatest (max minColumn 1))
  let (t, c) ← readLines folded column c.rest.length ⟨[], [], breaks, false⟩ c
  return (t.chomp header.chomping, c)

end Mapf.Yaml
