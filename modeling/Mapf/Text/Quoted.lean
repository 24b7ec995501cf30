import Mapf.Text.Invisible

/-! # Quoted text

A quoted text stands between double quotes. Quotes and backslashes get a backslash in front, the usual
controls are written by their letters, and characters that do not show by their code point. -/

namespace Mapf.Text

def hexDigits (n : Nat) : List Char := Nat.toDigits 16 n

def quoteChar (c : Char) : List Char :=
  if c = '\x00' then ['\\', '0']
  else if c = '\t' then ['\\', 't']
  else if c = '\r' then ['\\', 'r']
  else if c = '\n' then ['\\', 'n']
  else if c = '"' then ['\\', '"']
  else if c = '\\' then ['\\', '\\']
  else if isInvisible c then ['\\', 'u', '\x7b'] ++ hexDigits c.toNat ++ ['\x7d']
  else [c]

def quote (cs : List Char) : List Char := '"' :: cs.flatMap quoteChar ++ ['"']

def quoted (cs : List Char) : String := .ofList (quote cs)

end Mapf.Text
