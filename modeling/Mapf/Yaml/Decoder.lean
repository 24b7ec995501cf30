import Mapf.Yaml.Document

/-! # Reading nodes as values

A decoder reads a node as what is expected in its place. It follows aliases; how many of them it follows
is limited by the size of the document, so that a small text cannot keep it busy for long. -/

namespace Mapf.Yaml

/-- A document whose aliases can be followed. -/
structure Document where
  root : Node
  /-- The nodes with anchors, in the order in which they begin. -/
  anchored : List (Nat × Node)
  /-- How many aliases may be followed. -/
  limit : Nat

/-- How many aliases may be followed for each scalar of a document. -/
def followLimit : Nat := 100

def Document.ofRoot (root : Node) : Document := ⟨root, root.anchored, followLimit * root.size⟩

/-- The node that aliases with a number stand for: the last one with that number. -/
def Document.target? (d : Document) (anchor : Nat) : Option Node := d.anchored.reverse.lookup anchor

/-- What reads a value in a document; its state is the number of aliases followed. -/
abbrev Decoder := ReaderT Document (StateT Nat Option)

def Document.decode {α : Type} (d : Document) (f : Node → Decoder α) : Option α :=
  ((f d.root).run d).run' 0

/-- Whether a text stands for the absence of a value; the empty text does so only where no tag is. -/
def isNullWord (text : List Char) : Bool :=
  [['~'], "null".toList, "Null".toList, "NULL".toList].contains text

def readBool? (text : List Char) : Option Bool :=
  if ["true".toList, "True".toList, "TRUE".toList].contains text then some true
  else if ["false".toList, "False".toList, "FALSE".toList].contains text then some false
  else none

namespace Decoder

def follow : Node → Decoder Node
  | .aliasOf anchor => do
    let d ← read
    let followed := (← get) + 1
    if d.limit < followed then failure
    set followed
    match d.target? anchor with
    | some n => return n
    | none => failure
  | n => return n

def text (n : Node) : Decoder String := do
  match ← follow n with
  | .scalar _ _ text => return String.ofList text
  | _ => failure

/-- Reads a scalar whose text is a word of a type: a plain one, or a literal one with the tag of the
    type. -/
def word {α : Type} (tag : Tag) (f : List Char → Option α) (n : Node) : Decoder α := do
  match ← follow n with
  | .scalar p style text =>
    if style = .plain ∨ style = .literal ∧ p.tag = some tag then
      match f text with
      | some a => return a
      | none => failure
    else failure
  | _ => failure

/-- Reads a natural number that fits into 64 bits. -/
def natural : Node → Decoder Nat := word Tag.int readNatural?

def bool : Node → Decoder Bool := word Tag.bool readBool?

/-- Reads what may be absent. A tag on a plain scalar tells whether it is. -/
def option {α : Type} (f : Node → Decoder α) (n : Node) : Decoder (Option α) := do
  let n ← follow n
  match n with
  | .scalar ⟨_, none⟩ .plain text => if text.isEmpty || isNullWord text then return none else some <$> f n
  | .scalar ⟨_, some tag⟩ .plain text =>
    if tag ≠ Tag.null then some <$> f n
    else if isNullWord text then return none
    else failure
  | _ => some <$> f n

/-- Reads a sequence whose items are read by `f`; an empty plain scalar has no items. -/
def list {α : Type} (f : Node → Decoder α) (n : Node) : Decoder (List α) := do
  match ← follow n with
  | .sequence _ items => items.mapM f
  | .scalar _ .plain [] => return []
  | _ => failure

/-- Reads the entries of a mapping by the texts of their keys; an empty plain scalar has none. -/
def entries (n : Node) : Decoder (List (String × Node)) := do
  match ← follow n with
  | .mapping _ entries => entries.mapM fun (key, value) => return (← text key, value)
  | .scalar _ .plain [] => return []
  | _ => failure

/-- Reads the name of an alternative that has no content: the tag of a scalar without a value, if that
    is a tag of the document's own, and else the text of the scalar. -/
def alternative (n : Node) : Decoder String := do
  match ← follow n with
  | .scalar p style text =>
    match p.tag.bind name? with
    | none => return String.ofList text
    | some name => if style = .plain ∧ (text.isEmpty ∨ isNullWord text) then return name else failure
  | _ => failure
where
  /-- The name that a tag gives: its text after the exclamation mark in front, which tags of standards
      do not have. -/
  name? (tag : Tag) : Option String :=
    match tag with
    | [] => none
    | octet :: rest => if [octet] = Tag.mark then Tag.text? rest else none

/-- The value of an entry, read by `f`; `standard` when there is no such entry, and failure when there
    are several. -/
def fieldOr {α : Type} (entries : List (String × Node)) (name : String) (f : Node → Decoder α)
    (standard : Decoder α) : Decoder α :=
  match entries.filter fun entry => entry.1 = name with
  | [] => standard
  | [entry] => f entry.2
  | _ => failure

end Decoder

/-- Reads a text that is one document as a value. -/
def decode? {α : Type} (f : Node → Decoder α) (text : String) : Option α := do
  (Document.ofRoot (← Node.parse? text)).decode f

end Mapf.Yaml
