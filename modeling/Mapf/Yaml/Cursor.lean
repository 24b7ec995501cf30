/-! # Places in a YAML text

A cursor is a place in a text with its line and column. Lines end at a newline or at one of the two
separator characters; all other line ends are written as newlines before a text is read. -/

namespace Mapf.Yaml

def isBlank (c : Char) : Bool := c = ' ' || c = '\t'

def isBreak (c : Char) : Bool := c = '\n' || c = '\u2028' || c = '\u2029'

/-- Whether a character is a blank or ends a line. -/
def isSpace (c : Char) : Bool := isBlank c || isBreak c

/-- Whether a word may end here: before a blank, a line end or the end of the text. -/
def endsWord (cs : List Char) : Bool := cs.head?.all isSpace

/-- The text with every line end that consists of control characters written as a newline. -/
def normalizeLines : List Char → List Char
  | '\r' :: '\n' :: cs => '\n' :: normalizeLines cs
  | c :: cs => (if c = '\r' || c = '\u0085' then '\n' else c) :: normalizeLines cs
  | [] => []

/-- Whether a character may stand in a text. -/
def isAllowed (c : Char) : Bool :=
  let n := c.toNat
  c = '\t' || c = '\n' || 0x20 ≤ n && n ≤ 0x7E || 0xA0 ≤ n && n ≤ 0xFFFD || 0x10000 ≤ n

/-- A place in a text: what is left, how many octets are passed, and the line and column. -/
structure Cursor where
  rest : List Char
  index : Nat
  line : Nat
  column : Nat

namespace Cursor

def start (text : List Char) : Cursor := ⟨text, 0, 0, 0⟩

def next (c : Cursor) : Cursor :=
  match c.rest with
  | [] => c
  | x :: cs =>
    let index := c.index + x.utf8Size
    if isBreak x then ⟨cs, index, c.line + 1, 0⟩ else ⟨cs, index, c.line, c.column + 1⟩

/-- The cursor after `n` characters of the same line. -/
def skip (c : Cursor) (n : Nat) : Cursor :=
  ⟨c.rest.drop n, (c.rest.take n).foldl (· + ·.utf8Size) c.index, c.line, c.column + n⟩

def skipBlanks (c : Cursor) : Cursor := c.skip (c.rest.takeWhile isBlank).length

/-- Whether three equal characters at the beginning of a line mark the limit of a document. -/
def atLimit (c : Cursor) (x : Char) : Bool :=
  c.column = 0 && [x, x, x].isPrefixOf c.rest && endsWord (c.rest.drop 3)

/-- Whether a document begins or ends here. -/
def atMarker (c : Cursor) : Bool := c.atLimit '-' || c.atLimit '.'

@[simp]
theorem rest_next (c : Cursor) : c.next.rest = c.rest.tail := by
  unfold next
  cases h : c.rest with
  | nil => exact h
  | cons x cs =>
    dsimp only
    split <;> rfl

@[simp]
theorem rest_skip (c : Cursor) (n : Nat) : (c.skip n).rest = c.rest.drop n := rfl

/-- Passes over blanks, line ends and comments; also tells whether a key without indicator may begin
    there, which it may after a line end in block context. Tabs count as blanks in flow context and
    where no key may begin, and a byte order mark at the beginning of a line is passed over. -/
def skipSpace (flow : Bool) (comment keyAllowed : Bool) (c : Cursor) : Bool × Cursor :=
  match _ : c.rest with
  | [] => (keyAllowed, c)
  | x :: _ =>
    if isBreak x then skipSpace flow false (keyAllowed || !flow) c.next
    else if comment || x = ' ' || x = '\t' && (flow || !keyAllowed) || x = '\uFEFF' && c.column = 0 then
      skipSpace flow comment keyAllowed c.next
    else if x = '#' then skipSpace flow true keyAllowed c.next
    else (keyAllowed, c)
termination_by c.rest.length
decreasing_by all_goals simp [*]

end Cursor

end Mapf.Yaml
