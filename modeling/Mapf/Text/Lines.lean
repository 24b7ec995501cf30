/-! # Lines

A line ends at a newline or at the end of the text; a carriage return right before the newline belongs
to the line end. A text that ends with a newline has no further, empty line after it. The alphabet is
left open, so bytes are split into lines in the same way as characters. -/

namespace Mapf.Text

variable {α : Type} [DecidableEq α]

/-- The parts between separators; there is one more of them than there are separators. -/
def splitAt (separator : α) : List α → List (List α)
  | [] => [[]]
  | c :: cs =>
    if c = separator then [] :: splitAt separator cs
    else
      match splitAt separator cs with
      | [] => [[c]]
      | part :: parts => (c :: part) :: parts

def dropLastOf (last : α) (cs : List α) : List α :=
  if cs.getLast? = some last then cs.dropLast else cs

/-- The lines of a text, given its newline and its carriage return. -/
def linesOf (newline carriageReturn : α) (text : List α) : List (List α) :=
  let parts := splitAt newline text
  let ended := parts.dropLast.map (dropLastOf carriageReturn)
  match parts.getLast? with
  | none | some [] => ended
  | some rest => ended ++ [rest]

def lines (text : List Char) : List (List Char) := linesOf '\n' '\r' text

/-- The lines of a sequence of bytes, each as text; `none` for a line that is not valid UTF-8. -/
def linesOfBytes (bytes : ByteArray) : List (Option (List Char)) :=
  (linesOf 10 13 bytes.toList).map fun line => (String.fromUTF8? ⟨line.toArray⟩).map String.toList

end Mapf.Text
