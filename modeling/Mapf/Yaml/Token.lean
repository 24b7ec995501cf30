import Mapf.Yaml.Tag

/-! # Tokens

A YAML text is a sequence of tokens. Block collections have tokens for their begin and end although
these are not written out, and every key has one in front of it. -/

namespace Mapf.Yaml

/-- How a scalar is written. -/
inductive Style where
  | plain
  | quoted
  | literal
  | folded
  deriving DecidableEq

/-- A token of a YAML text. -/
inductive Token where
  | version (major minor : Nat)
  /-- Gives a meaning to a tag handle. -/
  | tagHandle (handle : List Char) (meaning : Tag)
  | documentStart
  | documentEnd
  | blockSequence
  | blockMapping
  /-- The end of a block collection. -/
  | blockEnd
  | flowSequence
  | flowSequenceEnd
  | flowMapping
  | flowMappingEnd
  /-- The dash of an item. -/
  | item
  /-- The comma of a flow collection. -/
  | comma
  | key
  | value
  | aliasOf (name : List Char)
  | anchor (name : List Char)
  | tag (name : TagName)
  | scalar (style : Style) (text : List Char)
  deriving DecidableEq

end Mapf.Yaml
