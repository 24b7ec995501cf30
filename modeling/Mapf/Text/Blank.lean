/-! # White space

White space is what the Unicode property of that name lists: 25 characters, among them the controls
from tab to carriage return, the next-line control and the no-break space. A text is trimmed of it at
either end, or cut at it into words. -/

namespace Mapf.Text

/-- Whether a character has the Unicode property `White_Space`. -/
def isBlank (c : Char) : Bool :=
  let n := c.toNat
  9 ≤ n && n ≤ 13 || n = 0x20 || n = 0x85 || n = 0xA0 || n = 0x1680 || 0x2000 ≤ n && n ≤ 0x200A ||
    n = 0x2028 || n = 0x2029 || n = 0x202F || n = 0x205F || n = 0x3000

def trimStart (cs : List Char) : List Char := cs.dropWhile isBlank

def trimEnd (cs : List Char) : List Char := (cs.reverse.dropWhile isBlank).reverse

def trim (cs : List Char) : List Char := trimEnd (trimStart cs)

/-- Puts a character in front of the first word. -/
def consWord (c : Char) : List (List Char) → List (List Char)
  | [] => [[c]]
  | word :: words => (c :: word) :: words

/-- The parts between blanks, empty ones included. -/
def fields : List Char → List (List Char)
  | [] => [[]]
  | c :: cs => if isBlank c then [] :: fields cs else consWord c (fields cs)

/-- The words of a text: its longest runs of characters that are not blank. -/
def words (cs : List Char) : List (List Char) := (fields cs).filter fun word => !word.isEmpty

end Mapf.Text
