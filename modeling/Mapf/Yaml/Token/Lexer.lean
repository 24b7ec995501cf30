import Mapf.Yaml.Directive
import Mapf.Yaml.Scalar.Block
import Mapf.Yaml.Scalar.Plain
import Mapf.Yaml.Scalar.Quoted

/-! # The tokens of a text

The tokens are read in order. Columns tell where block collections begin and end. That a token begins a
key without indicator is known only when the colon after it is met, so the tokens that may begin one
are remembered: one for block context and one for each open flow collection. -/

namespace Mapf.Yaml

/-- What a token begins besides itself. -/
inductive KeyMark where
  | none
  | key
  /-- The first key of a block mapping. -/
  | mapping

/-- A token that may begin a key, which must end on the same line. -/
structure KeyCandidate where
  /-- Whether it must be a key: it stands where the next key of a block mapping is expected. -/
  required : Bool
  /-- The number of the token. -/
  token : Nat
  /-- Where it begins. -/
  place : Cursor

/-- The greatest number of octets between the begin of a key and its colon. -/
def maxKeyLength : Nat := 1024

/-- How far the tokens of a text are read. -/
structure Lexer where
  cursor : Cursor
  tokens : Array (KeyMark × Token)
  /-- The columns of the open block collections, innermost first. -/
  columns : List Nat
  /-- The token that may begin a key of the innermost flow collection, or in block context. -/
  candidate : Option KeyCandidate
  /-- The same for what is around it; one for every open flow collection. -/
  outer : List (Option KeyCandidate)
  /-- Whether a key without indicator may begin at the next token. -/
  keyAllowed : Bool

namespace Lexer

def start (text : List Char) : Lexer := ⟨.start text, #[], [], none, [], true⟩

def inFlow (l : Lexer) : Bool := !l.outer.isEmpty

/-- The least column of what lies within the innermost block collection. -/
def minColumn (l : Lexer) : Nat := l.columns.head?.elim 0 (· + 1)

def emit (l : Lexer) (t : Token) : Lexer := { l with tokens := l.tokens.push (.none, t) }

/-- Whether a candidate can no longer become a key: its line is over, or too much stands after it. -/
def isStale (c : Cursor) (k : KeyCandidate) : Bool :=
  k.place.line < c.line || k.place.index + maxKeyLength < c.index

/-- Drops the candidates that are stale, of which none may be required. -/
def dropStale? (l : Lexer) : Option Lexer :=
  let check (k : Option KeyCandidate) : Option (Option KeyCandidate) :=
    match k with
    | none => some none
    | some k => if !isStale l.cursor k then some (some k) else if k.required then none else some none
  do return { l with candidate := ← check l.candidate, outer := ← l.outer.mapM check }

def dropCandidate? (l : Lexer) : Option Lexer :=
  if l.candidate.any (·.required) then none else some { l with candidate := none }

/-- Makes the next token a candidate, if a key may begin here. -/
def addCandidate? (l : Lexer) : Option Lexer := do
  if !l.keyAllowed then return l
  let required := !l.inFlow && l.columns.head? = some l.cursor.column
  let l ← l.dropCandidate?
  return { l with candidate := some ⟨required, l.tokens.size, l.cursor⟩ }

/-- Ends the open block collections that begin at column `limit` or later. -/
def closeFrom (limit : Nat) (l : Lexer) : Lexer :=
  if l.inFlow then l
  else
    let closed := l.columns.takeWhile (limit ≤ ·)
    { l with
      columns := l.columns.drop closed.length
      tokens := l.tokens ++ Array.replicate closed.length (KeyMark.none, Token.blockEnd) }

/-- Begins a block collection here, unless one that is open begins here. -/
def openBlock (l : Lexer) (t : Token) : Lexer :=
  if l.minColumn ≤ l.cursor.column then { l.emit t with columns := l.cursor.column :: l.columns } else l

def indicator (l : Lexer) (t : Token) (keyAllowed : Bool) : Lexer :=
  { l.emit t with cursor := l.cursor.skip 1, keyAllowed }

def openFlow? (l : Lexer) (t : Token) : Option Lexer := do
  let l ← l.addCandidate?
  return { l.indicator t true with candidate := none, outer := l.candidate :: l.outer }

def closeFlow? (l : Lexer) (t : Token) : Option Lexer := do
  let l ← l.dropCandidate?
  let l := l.indicator t false
  match l.outer with
  | [] => return l
  | candidate :: outer => return { l with candidate, outer }

/-- Reads an indicator that begins an entry of a block collection, where one may begin here. -/
def entry? (l : Lexer) (collection t : Token) (keyAllowed : Bool) : Option Lexer := do
  if !l.inFlow && !l.keyAllowed then none
  let l := if l.inFlow then l else l.openBlock collection
  let l ← l.dropCandidate?
  return l.indicator t keyAllowed

/-- Reads the colon before a value. The candidate, if there is one, turns out to begin its key. -/
def value? (l : Lexer) : Option Lexer :=
  match l.candidate with
  | some k =>
    let opens := !l.inFlow && l.minColumn ≤ k.place.column
    let mark := if opens then KeyMark.mapping else .key
    let l := { l with
      tokens := l.tokens.modify k.token fun t => (mark, t.2)
      columns := if opens then k.place.column :: l.columns else l.columns
      candidate := none }
    some (l.indicator .value false)
  | none =>
    if !l.inFlow && !l.keyAllowed then none
    else
      let l := if l.inFlow then l else l.openBlock .blockMapping
      some (l.indicator .value (!l.inFlow))

def property? (l : Lexer) (read : Cursor → Option (Token × Cursor)) : Option Lexer := do
  let l ← l.addCandidate?
  let (t, cursor) ← read l.cursor
  return { l.emit t with cursor, keyAllowed := false }

/-- Reads the name of an anchor or alias after its indicator. -/
def readName? (token : List Char → Token) (c : Cursor) : Option (Token × Cursor) :=
  let c := c.skip 1
  let name := c.rest.takeWhile isNameChar
  let after := c.skip name.length
  let ends (x : Char) : Bool := ['?', ':', ',', ']', '\x7d', '%', '@', '`'].contains x
  if name ≠ [] ∧ (endsWord after.rest || after.rest.head?.any ends) then some (token name, after) else none

def block? (l : Lexer) (style : Style) : Option Lexer := do
  let l ← l.dropCandidate?
  let (text, cursor) ← readBlock (style = .folded) l.minColumn (l.cursor.skip 1)
  return { l.emit (.scalar style text) with cursor, keyAllowed := true }

def quoted? (l : Lexer) (quote : Char) : Option Lexer :=
  l.property? fun c => do
    let (text, c) ← readQuoted quote [] .empty (c.skip 1)
    return (.scalar .quoted text, c)

def plain? (l : Lexer) : Option Lexer := do
  let l ← l.addCandidate?
  let (text, gap, cursor) ← readPlain l.inFlow l.minColumn [] .empty l.cursor
  return { l.emit (.scalar .plain text) with cursor, keyAllowed := gap.hasLines }

/-- Ends everything that is open in block context, in front of what concerns the document. -/
def closeAll? (l : Lexer) : Option Lexer := do
  let l ← (l.closeFrom 0).dropCandidate?
  return { l with keyAllowed := false }

/-- Reads a token that begins with the character `x`, which `cs` follows. -/
def token? (l : Lexer) (x : Char) (cs : List Char) : Option Lexer := do
  if l.cursor.column = 0 ∧ x = '%' then
    let l ← l.closeAll?
    let (t, cursor) ← readDirective? (l.cursor.skip 1)
    return { l.emit t with cursor }
  else if l.cursor.atMarker then
    let l ← l.closeAll?
    return { l.emit (if x = '-' then .documentStart else .documentEnd) with cursor := l.cursor.skip 3 }
  else if x = '[' then l.openFlow? .flowSequence
  else if x = '\x7b' then l.openFlow? .flowMapping
  else if x = ']' then l.closeFlow? .flowSequenceEnd
  else if x = '\x7d' then l.closeFlow? .flowMappingEnd
  else if x = ',' then return (← l.dropCandidate?).indicator .comma true
  else if x = '-' && endsWord cs then l.entry? .blockSequence .item true
  else if x = '?' && (l.inFlow || endsWord cs) then l.entry? .blockMapping .key (!l.inFlow)
  else if x = ':' && (l.inFlow || endsWord cs) then l.value?
  else if x = '*' then l.property? (readName? .aliasOf)
  else if x = '&' then l.property? (readName? .anchor)
  else if x = '!' then
    l.property? fun c => do
      let (name, c) ← TagName.read? l.inFlow (c.skip 1)
      return (.tag name, c)
  else if x = '|' && !l.inFlow then l.block? .literal
  else if x = '>' && !l.inFlow then l.block? .folded
  else if x = '\'' || x = '"' then l.quoted? x
  else if startsPlain l.inFlow l.cursor.rest then l.plain?
  else none

/-- Reads the tokens up to the end of the text. Every token has a character, so the length of the text
    bounds their number. -/
def run? : (fuel : Nat) → Lexer → Option Lexer
  | fuel, l => do
    let (keyAllowed, cursor) := l.cursor.skipSpace l.inFlow false l.keyAllowed
    let l ← { l with keyAllowed, cursor }.dropStale?
    match cursor.rest, fuel with
    | [], _ => l.closeAll?
    | _ :: _, 0 => none
    | x :: cs, fuel + 1 => run? fuel (← (l.closeFrom (cursor.column + 1)).token? x cs)

/-- The tokens in order, each key preceded by what it begins. -/
def allTokens (l : Lexer) : List Token :=
  l.tokens.toList.flatMap fun (mark, t) =>
    match mark with
    | .none => [t]
    | .key => [.key, t]
    | .mapping => [.blockMapping, .key, t]

end Lexer

def tokens? (text : String) : Option (List Token) := do
  let cs := normalizeLines text.toList
  if !cs.all isAllowed then none
  return (← (Lexer.start cs).run? cs.length).allTokens

end Mapf.Yaml
