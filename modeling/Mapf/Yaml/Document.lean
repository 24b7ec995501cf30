import Mapf.Yaml.Node
import Mapf.Yaml.Token.Lexer

/-! # Documents

A document is read from the tokens of a text: directives, the tree of its nodes, and the markers around
it. A text must be a single document. -/

namespace Mapf.Yaml

/-- What is left of the tokens, and what has been declared so far. -/
structure Reading where
  tokens : List Token
  /-- The meanings of tag handles. -/
  handles : List (List Char × Tag)
  /-- The names of anchors with the numbers that they stand for. -/
  anchors : List (List Char × Nat)

/-- A step of reading a document. -/
abbrev Read := StateT Reading Option

namespace Read

def peek : Read (Option Token) := return (← get).tokens.head?

def skip : Read Unit := modify fun s => { s with tokens := s.tokens.tail }

/-- Passes over the next token, which must be a certain one. -/
def expect (t : Token) : Read Unit := do
  if (← peek) = some t then skip else failure

def meets (ts : List Token) : Read Bool := return (← peek).any ts.contains

/-- Gives an anchor its number: that of names so far, so that a name which comes again takes a number
    that the next new name shares. -/
def declare (name : List Char) : Read Nat := do
  let s ← get
  let number := s.anchors.length
  set { s with anchors := (name, number) :: s.anchors.filter (·.1 ≠ name) }
  return number

def refer (name : List Char) : Read Nat := do
  match (← get).anchors.lookup name with
  | some number => return number
  | none => failure

def resolve (name : TagName) : Read Tag := do
  if name.handle = [] then return name.suffix
  match (← get).handles.lookup name.handle with
  | some meaning => return meaning ++ name.suffix
  | none => failure

/-- Reads an anchor and a tag, in any order. -/
def properties : Read Properties := do
  let anchor ← anchor?
  let tag ← tag?
  let anchor ← if anchor.isSome || tag.isNone then pure anchor else anchor?
  let tag : Option Tag ← tag.mapM resolve
  return ⟨← anchor.mapM declare, tag⟩
where
  anchor? : Read (Option (List Char)) := do
    match ← peek with
    | some (.anchor name) => do
      skip
      return some name
    | _ => return none
  tag? : Read (Option TagName) := do
    match ← peek with
    | some (.tag name) => do
      skip
      return some name
    | _ => return none

/-- The kinds of places where a node stands. -/
inductive Place where
  /-- Within a flow collection. -/
  | flow
  /-- In block context; a block collection must begin with its own token. -/
  | block
  /-- An entry of a block mapping, where the items of a sequence may stand at once. -/
  | entry
  deriving DecidableEq

mutual

def node : (fuel : Nat) → Place → Read Node
  | 0, _ => failure
  | fuel + 1, place => do
    match ← peek with
    | some (.aliasOf name) => do
      skip
      return .aliasOf (← refer name)
    | _ => do
      let p ← properties
      match ← peek with
      | some (.scalar style text) => do
        skip
        return .scalar p style text
      | some .flowSequence => do
        skip
        return .sequence p (← flowItems fuel true)
      | some .flowMapping => do
        skip
        return .mapping p (← flowEntries fuel true)
      | t =>
        if t = some .item ∧ place = .entry then return .sequence p (← bareItems fuel)
        else if t = some .blockSequence ∧ place ≠ .flow then do
          skip
          return .sequence p (← items fuel)
        else if t = some .blockMapping ∧ place ≠ .flow then do
          skip
          return .mapping p (← entries fuel)
        else if p.anchor.isSome || p.tag.isSome then return .scalar p .plain []
        else failure

/-- Reads a node, or takes it as absent before one of some tokens. -/
def nodeUnless : (fuel : Nat) → Place → (ends : List Token) → Read Node
  | 0, _, _ => failure
  | fuel + 1, place, ends => do
    if ← meets ends then return .absent else node fuel place

/-- Reads the value of an entry; without its indicator it is absent. -/
def valueUnless : (fuel : Nat) → Place → (ends : List Token) → Read Node
  | 0, _, _ => failure
  | fuel + 1, place, ends => do
    if ← meets [.value] then
      skip
      nodeUnless fuel place ends
    else return .absent

/-- Reads the items of a flow sequence with its end. -/
def flowItems : (fuel : Nat) → (first : Bool) → Read (List Node)
  | 0, _ => failure
  | fuel + 1, first => do
    if !first && !(← meets [.flowSequenceEnd]) then expect .comma
    if ← meets [.flowSequenceEnd] then
      skip
      return []
    let item ←
      if ← meets [.key] then
        skip
        singleEntry fuel
      else node fuel .flow
    return item :: (← flowItems fuel false)

/-- Reads a mapping of one entry within a flow sequence, after its key indicator. An absent key takes
    the token after it along. -/
def singleEntry : (fuel : Nat) → Read Node
  | 0 => failure
  | fuel + 1 => do
    let ends := [Token.comma, .flowSequenceEnd]
    let key ←
      if ← meets (.value :: ends) then
        skip
        pure .absent
      else node fuel .flow
    return .mapping .none [(key, ← valueUnless fuel .flow ends)]

/-- Reads the entries of a flow mapping with its end. -/
def flowEntries : (fuel : Nat) → (first : Bool) → Read (List (Node × Node))
  | 0, _ => failure
  | fuel + 1, first => do
    if !first && !(← meets [.flowMappingEnd]) then expect .comma
    if ← meets [.flowMappingEnd] then
      skip
      return []
    let ends := [Token.comma, .flowMappingEnd]
    let entry ←
      if ← meets [.key] then
        skip
        let key ← nodeUnless fuel .flow (.value :: ends)
        pure (key, ← valueUnless fuel .flow ends)
      else pure (← node fuel .flow, .absent)
    return entry :: (← flowEntries fuel false)

/-- Reads the items of a block sequence with its end. -/
def items : (fuel : Nat) → Read (List Node)
  | 0 => failure
  | fuel + 1 => do
    if ← meets [.item] then
      skip
      let item ← nodeUnless fuel .block [.item, .blockEnd]
      return item :: (← items fuel)
    else
      expect .blockEnd
      return []

/-- Reads the items of a sequence that stands in a block mapping without being indented. -/
def bareItems : (fuel : Nat) → Read (List Node)
  | 0 => failure
  | fuel + 1 => do
    if ← meets [.item] then
      skip
      let item ← nodeUnless fuel .block [.item, .key, .value, .blockEnd]
      return item :: (← bareItems fuel)
    else return []

/-- Reads the entries of a block mapping with its end. -/
def entries : (fuel : Nat) → Read (List (Node × Node))
  | 0 => failure
  | fuel + 1 => do
    if ← meets [.key] then
      skip
      let ends := [Token.key, .value, .blockEnd]
      let key ← nodeUnless fuel .entry ends
      let value ← valueUnless fuel .entry ends
      return (key, value) :: (← entries fuel)
    else
      expect .blockEnd
      return []

end

/-- The meanings that tag handles have unless a directive gives them others. -/
def standardHandles : List (List Char × Tag) :=
  [(['!'], Tag.mark), (['!', '!'], Tag.ofText Tag.standard)]

/-- Reads the directives in front of a document: at most one version, which must be known, and at most
    one meaning for each handle. Tells whether there was a version. -/
def directives : (fuel : Nat) → (versionGiven : Bool) → Read Bool
  | 0, _ => failure
  | fuel + 1, versionGiven => do
    match ← peek with
    | some (.version major minor) => do
      if versionGiven ∨ major ≠ 1 ∨ (minor ≠ 1 ∧ minor ≠ 2) then failure
      skip
      directives fuel true
    | some (.tagHandle handle meaning) => do
      skip
      let s ← get
      if (s.handles.lookup handle).isSome then failure
      set { s with handles := (handle, meaning) :: s.handles }
      directives fuel versionGiven
    | _ => return versionGiven

def documentEnds : (fuel : Nat) → Read Unit
  | 0 => failure
  | fuel + 1 => do
    if ← meets [.documentEnd] then
      skip
      documentEnds fuel

/-- Reads the content of a document after its start marker. -/
def content (fuel : Nat) : Read Node := do
  match ← peek with
  | none | some .documentStart | some .documentEnd | some (.version ..) | some (.tagHandle ..) =>
    return .absent
  | _ => node fuel .block

/-- Reads all tokens as one document. Each call takes a token or is one of four that follow one
    another before one is taken, so the number of tokens bounds the nesting of the calls. -/
def document : Read Node := do
  let fuel := 4 * (← get).tokens.length + 8
  let versionGiven ← directives fuel false
  let declared := (← get).handles
  modify fun s => { s with handles := declared ++ standardHandles }
  let root ←
    if versionGiven || !declared.isEmpty || (← meets [.documentStart]) then do
      expect .documentStart
      content fuel
    else if (← peek).isNone then pure .absent
    else node fuel .block
  documentEnds fuel
  if (← peek).isSome then failure
  return root

end Read

/-- The tree of a text that is one document. -/
def Node.parse? (text : String) : Option Node := do
  Read.document.run' ⟨← tokens? text, [], []⟩

end Mapf.Yaml
