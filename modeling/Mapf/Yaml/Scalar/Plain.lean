import Mapf.Yaml.Scalar.Gap

/-! # Plain scalars

A plain scalar has no quotes. It ends at a colon before a blank, at a comment, at an indicator of the
flow collection around it, at a document marker, and before a line that is indented too little. -/

namespace Mapf.Yaml

def isFlowIndicator (c : Char) : Bool := [',', '[', ']', '\x7b', '\x7d'].contains c

/-- The characters besides those of flow collections that no plain scalar begins with. -/
def reserved : List Char := ['#', '&', '*', '!', '|', '>', '\'', '"', '%', '@', '`']

def startsPlain (flow : Bool) : List Char → Bool
  | [] => false
  | c :: cs =>
    if c = '-' then !cs.head?.any isBlank
    else if c = '?' || c = ':' then !flow && !endsWord cs
    else !isSpace c && !isFlowIndicator c && !reserved.contains c

/-- Whether a colon before these characters is out of place in a plain scalar of a flow collection. -/
def isPressed : List Char → Bool
  | [] => false
  | c :: _ => isFlowIndicator c || c = '?'

/-- Reads on in a plain scalar whose words so far are `text`, last character first. Its later lines
    begin at column `minColumn` or later. Gives the text, the gap that follows and the place after it. -/
def readPlain (flow : Bool) (minColumn : Nat) (text : List Char) (gap : Gap) (c : Cursor) :
    Option (List Char × Gap × Cursor) :=
  match _ : c.rest with
  | [] => some (text.reverse, gap, c)
  | x :: cs =>
    if isSpace x then
      -- A tab is no indentation.
      if x = '\t' && gap.hasLines && c.column < minColumn then none
      else readPlain flow minColumn text (gap.add x) c.next
    else if !gap.isEmpty && (x = '#' || c.atMarker || !flow && c.column < minColumn) then
      some (text.reverse, gap, c)
    else if flow && x = ':' && isPressed cs then none
    else if x = ':' && endsWord cs || flow && isFlowIndicator x then some (text.reverse, gap, c)
    else readPlain flow minColumn (x :: (gap.reversed ++ text)) .empty c.next
termination_by c.rest.length
decreasing_by all_goals simp [*]

end Mapf.Yaml
