import Mapf.Yaml.Cursor
import Mapf.Yaml.Numeral

/-! # Tags

A tag names the kind of a node. In a text it consists of a handle, which a directive can give a
meaning, and a suffix; both together make the tag. Tags are octets, since a text may give them as
such; they end at a zero octet. -/

namespace Mapf.Yaml

/-- The octets of a tag. -/
abbrev Tag := List UInt8

namespace Tag

def ofText (s : String) : Tag := s.toUTF8.toList

def text? (t : Tag) : Option String := String.fromUTF8? ⟨t.toArray⟩

/-- What tags of the standard begin with. -/
def standard : String := "tag:yaml.org,2002:"

def null : Tag := ofText (standard ++ "null")

def bool : Tag := ofText (standard ++ "bool")

def int : Tag := ofText (standard ++ "int")

/-- The exclamation mark, a tag by itself and the begin of the tags that a document makes up. -/
def mark : Tag := ofText "!"

end Tag

def isNameChar (c : Char) : Bool := c.isAlphanum || c = '_' || c = '-'

/-- The characters of tags besides the percent sign; some stand only where no flow collection can be
    mistaken. -/
def isTagChar (full : Bool) (c : Char) : Bool :=
  isNameChar c || [';', '/', '?', ':', '@', '&', '=', '+', '$', '.', '!', '~', '*', '\'', '(', ')'].contains c ||
    full && [',', '[', ']'].contains c

/-- How many octets follow the first octet of a character. -/
def followers? (octet : Nat) : Option Nat :=
  if octet < 0x80 then some 0
  else if octet < 0xC0 then none
  else if octet < 0xE0 then some 1
  else if octet < 0xF0 then some 2
  else if octet < 0xF8 then some 3
  else none

/-- Reads the octets of a tag, of which some may be given by a percent sign and two digits. `pending`
    more octets belong to the character before. Also gives the number of characters read. -/
def readOctets (full : Bool) : (pending : Nat) → List Char → Option (Tag × Nat)
  | pending, '%' :: a :: b :: cs => do
    let octet ← numberIn? 16 [a, b]
    let pending ←
      match pending with
      | 0 => followers? octet
      | pending + 1 => if octet / 0x40 = 2 then some pending else none
    let (octets, length) ← readOctets full pending cs
    return (UInt8.ofNat octet :: octets, length + 3)
  | 0, c :: cs =>
    if c = '%' then none
    else if isTagChar full c then do
      let (octets, length) ← readOctets full 0 cs
      return (UInt8.ofNat c.toNat :: octets, length + 1)
    else some ([], 0)
  | 0, [] => some ([], 0)
  | _ + 1, _ => none

/-- The octets before the first zero. -/
def Tag.cut (t : Tag) : Tag := t.takeWhile (· ≠ 0)

/-- A tag as it stands in a text; a tag that is written out has an empty handle. -/
structure TagName where
  handle : List Char
  suffix : Tag
  deriving DecidableEq

/-- Reads octets, at least one character of them. -/
def readSomeOctets? (full : Bool) (c : Cursor) : Option (Tag × Cursor) := do
  let (octets, length) ← readOctets full 0 c.rest
  if length = 0 then none else some (octets.cut, c.skip length)

/-- Reads a handle between exclamation marks after its first one. -/
def readHandle? (c : Cursor) : Option (List Char × Cursor) :=
  let name := c.rest.takeWhile isNameChar
  let after := c.skip name.length
  if after.rest.head? = some '!' then some ('!' :: name ++ ['!'], after.skip 1) else none

/-- Reads a tag after its exclamation mark, up to a blank or, in a flow collection, a comma. -/
def TagName.read? (flow : Bool) (c : Cursor) : Option (TagName × Cursor) := do
  let (tag, c) : TagName × Cursor ←
    match c.rest, readHandle? c with
    | '<' :: _, _ => do
      let (suffix, c) ← readSomeOctets? true (c.skip 1)
      if c.rest.head? = some '>' then some (⟨[], suffix⟩, c.skip 1) else none
    | _, some (handle, c) => do
      let (suffix, c) ← readSomeOctets? false c
      some (⟨handle, suffix⟩, c)
    | cs, none => do
      let (octets, length) ← readOctets false 0 cs
      let suffix := octets.cut
      some (if suffix = [] then ⟨[], Tag.mark⟩ else ⟨['!'], suffix⟩, c.skip length)
  if endsWord c.rest || flow && c.rest.head? = some ',' then some (tag, c) else none

end Mapf.Yaml
