import Mapf.Yaml.Cursor

/-! # Gaps within scalars

The blanks and line ends between two words of a scalar. Within a line blanks count as they are. A gap
with line ends stands for one newline less, or for a space when it has but one; the line end before
another may be a separator character, which then counts too. -/

namespace Mapf.Yaml

/-- Blanks and line ends within a scalar, latest first. -/
structure Gap where
  /-- The blanks, until a line ends. -/
  blanks : List Char
  breaks : List Char
  /-- Whether a backslash took away the line end before these. -/
  joined : Bool

namespace Gap

def empty : Gap := ⟨[], [], false⟩

/-- The gap after a line end that does not count. -/
def joint : Gap := ⟨[], [], true⟩

def hasLines (g : Gap) : Bool := g.joined || !g.breaks.isEmpty

def isEmpty (g : Gap) : Bool := g.blanks.isEmpty && !g.hasLines

/-- The gap with one more blank or line end. -/
def add (g : Gap) (c : Char) : Gap :=
  if isBreak c then { g with blanks := [], breaks := c :: g.breaks }
  else if g.hasLines then g
  else { g with blanks := c :: g.blanks }

/-- What a gap stands for, last character first. -/
def reversed (g : Gap) : List Char :=
  if g.joined then g.breaks
  else if g.breaks.isEmpty then g.blanks
  else if g.breaks.getLast? ≠ some '\n' then g.breaks
  else if g.breaks.length = 1 then [' ']
  else g.breaks.dropLast

end Gap

end Mapf.Yaml
