import Mapf.Yaml.Numeral
import Mapf.Yaml.Scalar.Gap

/-! # Quoted scalars

Single quotes are written twice within single quotes. Within double quotes a backslash begins an
escape, and before a line end it joins the lines. -/

namespace Mapf.Yaml

def escapeValue? : Char → Option Char
  | '0' => some '\x00'
  | 'a' => some '\x07'
  | 'b' => some '\x08'
  | 't' => some '\t'
  | '\t' => some '\t'
  | 'n' => some '\n'
  | 'v' => some '\x0b'
  | 'f' => some '\x0c'
  | 'r' => some '\r'
  | 'e' => some '\x1b'
  | ' ' => some ' '
  | '"' => some '"'
  | '/' => some '/'
  | '\\' => some '\\'
  | 'N' => some '\u0085'
  | '_' => some '\u00a0'
  | 'L' => some '\u2028'
  | 'P' => some '\u2029'
  | _ => none

/-- How many hexadecimal digits follow a letter after a backslash. -/
def escapeWidth? : Char → Option Nat
  | 'x' => some 2
  | 'u' => some 4
  | 'U' => some 8
  | _ => none

/-- The character of a code point given by hexadecimal digits. -/
def codePoint? (digits : List Char) : Option Char := do
  let n ← numberIn? 16 digits
  if n.isValidChar then some (Char.ofNat n) else none

/-- The character that an escape stands for, with the number of digits after its letter. -/
def escape? (letter : Char) (cs : List Char) : Option (Char × Nat) :=
  match escapeWidth? letter with
  | none => (escapeValue? letter).map (·, 0)
  | some width => if cs.length < width then none else (codePoint? (cs.take width)).map (·, width)

/-- Reads on in a quoted scalar, whose text so far is given last character first. -/
def readQuoted (quote : Char) (text : List Char) (gap : Gap) (c : Cursor) : Option (List Char × Cursor) :=
  match _ : c.rest with
  | [] => none
  | x :: cs =>
    if c.atMarker then none
    else if isSpace x then readQuoted quote text (gap.add x) c.next
    else
      let text := gap.reversed ++ text
      if x = quote then
        if quote = '\'' && cs.head? = some '\'' then readQuoted quote ('\'' :: text) .empty (c.skip 2)
        else some (text.reverse, c.skip 1)
      else if x = '\\' && quote = '"' then
        match cs with
        | [] => none
        | y :: ds =>
          if isBreak y then readQuoted quote text .joint (c.skip 1).next
          else
            match escape? y ds with
            | none => none
            | some (char, digits) => readQuoted quote (char :: text) .empty (c.skip (2 + digits))
      else readQuoted quote (x :: text) .empty c.next
termination_by c.rest.length
decreasing_by all_goals simp [*] <;> omega

end Mapf.Yaml
