import Mapf.Yaml.Token

/-! # Nodes

The tree that a YAML text describes. A node may carry an anchor, and an alias stands for the node with
an anchor. Whether a plain scalar is a number, a truth value or nothing depends on what is expected in
its place, so scalars are kept as text. -/

namespace Mapf.Yaml

/-- What may be said of a node besides its content. -/
structure Properties where
  /-- The number of its anchor. -/
  anchor : Option Nat
  tag : Option Tag

/-- A YAML node. -/
inductive Node where
  | scalar (properties : Properties) (style : Style) (text : List Char)
  | sequence (properties : Properties) (items : List Node)
  | mapping (properties : Properties) (entries : List (Node × Node))
  /-- Stands for the node whose anchor has this number. -/
  | aliasOf (anchor : Nat)

/-- A node about which nothing is said. -/
def Properties.none : Properties := ⟨.none, .none⟩

/-- A node that is not written out. -/
def Node.absent : Node := .scalar .none .plain []

mutual

/-- The number of scalars and aliases in a node, and of the ends of its collections. -/
def Node.size : Node → Nat
  | .scalar .. | .aliasOf _ => 1
  | .sequence _ items => 2 + Node.sizes items
  | .mapping _ entries => 2 + Node.entrySizes entries

def Node.sizes : List Node → Nat
  | [] => 0
  | n :: ns => n.size + Node.sizes ns

def Node.entrySizes : List (Node × Node) → Nat
  | [] => 0
  | (key, value) :: es => key.size + value.size + Node.entrySizes es

end

def Node.under (properties : Properties) (n : Node) : List (Nat × Node) :=
  properties.anchor.toList.map (·, n)

mutual

/-- The nodes with anchors within a node, in the order in which they begin. -/
def Node.anchored : Node → List (Nat × Node)
  | .scalar p style text => Node.under p (.scalar p style text)
  | .aliasOf _ => []
  | .sequence p items => Node.under p (.sequence p items) ++ Node.anchoredItems items
  | .mapping p entries => Node.under p (.mapping p entries) ++ Node.anchoredEntries entries

def Node.anchoredItems : List Node → List (Nat × Node)
  | [] => []
  | n :: ns => n.anchored ++ Node.anchoredItems ns

def Node.anchoredEntries : List (Node × Node) → List (Nat × Node)
  | [] => []
  | (key, value) :: es => key.anchored ++ value.anchored ++ Node.anchoredEntries es

end

end Mapf.Yaml
