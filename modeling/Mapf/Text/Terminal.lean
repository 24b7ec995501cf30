import Mapf.Text.Quoted

/-! # Text for a terminal

A terminal obeys some characters instead of showing them: they ring, move the cursor or start a command.
In a text that is shown these are written by their code points, so none of them reaches the terminal.
Tabs, line ends and the remaining controls stay as they are. -/

namespace Mapf.Text

/-- Whether a character is a bell, a backspace, a form feed, an escape or a delete. -/
def isTerminalCommand (c : Char) : Bool :=
  c = '\x07' || c = '\x08' || c = '\x0c' || c = '\x1b' || c = '\x7f'

/-- Whether a character is one of the controls from U+0080 to U+009F. -/
def isUpperControl (c : Char) : Bool := 0x80 ≤ c.toNat && c.toNat ≤ 0x9F

/-- How a character is shown: a command by two digits, an upper control by its code point. -/
def showChar (c : Char) : List Char :=
  if isTerminalCommand c then ['\\', 'x', Nat.digitChar (c.toNat / 16), Nat.digitChar (c.toNat % 16)]
  else if isUpperControl c then ['\\', 'u', '\x7b'] ++ hexDigits c.toNat ++ ['\x7d']
  else [c]

def shown (cs : List Char) : List Char := cs.flatMap showChar

end Mapf.Text
