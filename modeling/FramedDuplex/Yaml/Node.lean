import FramedDuplex.Yaml.Token
/-!
# Nodes of a YAML text

A node is a scalar, a sequence or a mapping, or a reference to a node that came
before. Before it may stand an anchor, by which it is referred to, and a tag.
Nodes are read from tokens; the readers answer with what is left of the tokens,
and count down a number that bounds their steps.

Where nothing is written a node may be missing, and then an empty scalar is read:
`orMissing` asks whether the next token says that. An item with a sign of a key in
square brackets is a mapping of one entry; if nothing is written behind that sign,
the token that says so is passed over.

A reference may stand anywhere, and in the node that it refers to as well. So
references stay where they are, and `resolve` says what one stands for.
-/

namespace FramedDuplex

namespace Yaml

/-- What a document is made of. -/
inductive Node where
  | scalar (tag : Option Bytes) (form : Form) (text : String)
  | sequence (tag : Option Bytes) (items : List Node)
  | mapping (tag : Option Bytes) (entries : List (Node × Node))
  /-- A node behind an anchor with a number. -/
  | anchored (number : Nat) (node : Node)
  | reference (number : Nat)

namespace Node

/-- What is read where nothing is written. -/
def missing : Node := scalar none .plain ""

/-! ## Anchors -/

mutual

/-- The nodes behind anchors with their numbers, in the order of the text. -/
def anchors : Node → List (Nat × Node)
  | scalar .. => []
  | sequence _ items => itemAnchors items
  | mapping _ entries => entryAnchors entries
  | anchored number node => (number, node) :: node.anchors
  | reference _ => []

/-- The nodes behind anchors in the items of a sequence. -/
def itemAnchors : List Node → List (Nat × Node)
  | [] => []
  | item :: items => item.anchors ++ itemAnchors items

/-- The nodes behind anchors in the entries of a mapping. -/
def entryAnchors : List (Node × Node) → List (Nat × Node)
  | [] => []
  | entry :: entries => pairAnchors entry ++ entryAnchors entries

/-- The nodes behind anchors in an entry of a mapping. -/
def pairAnchors : Node × Node → List (Nat × Node)
  | (key, value) => key.anchors ++ value.anchors

end

/-- What a node of a document stands for: a reference, for the last node behind
an anchor with its number. -/
def resolve (root : Node) : Node → Node
  | reference number => (root.anchors.reverse.lookup number).getD missing
  | anchored _ node => node
  | node => node

/-! ## What stands before a node -/

/-- What stands before a node. -/
structure Properties where
  anchor : Option Nat
  tag : Option Bytes

namespace Properties

/-- Reads an anchor and a tag, in either order; both may be left out. -/
def read : List Token → Properties × List Token
  | .anchor number :: .tag name :: rest => (⟨some number, some name⟩, rest)
  | .tag name :: .anchor number :: rest => (⟨some number, some name⟩, rest)
  | .anchor number :: rest => (⟨some number, none⟩, rest)
  | .tag name :: rest => (⟨none, some name⟩, rest)
  | rest => (⟨none, none⟩, rest)

/-- Whether nothing stands there. -/
def isEmpty (p : Properties) : Bool := p.anchor.isNone && p.tag.isNone

/-- A node behind its anchor. -/
def attach (p : Properties) (node : Node) : Node :=
  match p.anchor with
  | some number => anchored number node
  | none => node

/-- A scalar that is written. An exclamation mark alone says nothing about it. -/
def scalar (p : Properties) (form : Form) (text : String) : Node :=
  p.attach (.scalar (p.tag.filter (· ≠ asciiBytes ['!'])) form text)

end Properties

/-! ## Reading nodes -/

/-- Reads a node, unless one of some tokens comes next. -/
def orMissing (read : List Token → Option (Node × List Token)) (ends : List Token) :
    List Token → Option (Node × List Token)
  | [] => read []
  | t :: ts => if ends.contains t then some (missing, t :: ts) else read (t :: ts)

/-- Reads the value behind a colon. Without a colon the value is missing. -/
def behindColon (read : List Token → Option (Node × List Token)) (ends : List Token) :
    List Token → Option (Node × List Token)
  | .value :: ts => orMissing read ends ts
  | ts => some (missing, ts)

/-- Reads the key of an item in square brackets behind its sign. -/
def itemKey (read : List Token → Option (Node × List Token)) :
    List Token → Option (Node × List Token)
  | .value :: ts | .comma :: ts | .closeSequence :: ts => some (missing, ts)
  | ts => read ts

/-- The tokens behind a comma, which does not stand before the first thing in
brackets. -/
def pastComma? (isFirst : Bool) : List Token → Option (List Token)
  | .comma :: ts => if isFirst then some (.comma :: ts) else some ts
  | ts => if isFirst then some ts else none

mutual

/-- Reads a node. `inBlock` says whether it may be a block, and `atColumn` whether
it may be a sequence of which the items stand in the column of the entry that it
belongs to. -/
def node : Nat → (inBlock atColumn : Bool) → List Token → Option (Node × List Token)
  | 0, _, _, _ => none
  | _ + 1, _, _, .reference number :: ts => some (reference number, ts)
  | fuel + 1, inBlock, atColumn, ts =>
    let (p, ts) := Properties.read ts
    let sequence := fun (items, ts) => (p.attach (sequence p.tag items), ts)
    let mapping := fun (entries, ts) => (p.attach (mapping p.tag entries), ts)
    let bare := if p.isEmpty then none else some (p.attach (scalar p.tag .plain ""), ts)
    match ts with
    | .scalar form text :: ts => some (p.scalar form text, ts)
    | .openSequence :: ts => (innerItems fuel true ts).map sequence
    | .openMapping :: ts => (innerEntries fuel true ts).map mapping
    | .blockSequence :: ts => if inBlock then (items fuel ts).map sequence else bare
    | .blockMapping :: ts => if inBlock then (entries fuel ts).map mapping else bare
    | .item :: _ => if atColumn then (columnItems fuel ts).map sequence else bare
    | _ => bare

/-- Reads the items of a block. -/
def items : Nat → List Token → Option (List Node × List Token)
  | 0, _ => none
  | fuel + 1, .item :: ts =>
    match orMissing (node fuel true false) [.item, .blockEnd] ts with
    | none => none
    | some (item, ts) => (items fuel ts).map fun (rest, ts) => (item :: rest, ts)
  | _ + 1, .blockEnd :: ts => some ([], ts)
  | _ + 1, _ => none

/-- Reads items that stand in the column of the entry that they belong to. -/
def columnItems : Nat → List Token → Option (List Node × List Token)
  | 0, _ => none
  | fuel + 1, .item :: ts =>
    match orMissing (node fuel true false) [.item, .key, .value, .blockEnd] ts with
    | none => none
    | some (item, ts) => (columnItems fuel ts).map fun (rest, ts) => (item :: rest, ts)
  | _ + 1, ts => some ([], ts)

/-- Reads the entries of a block. -/
def entries : Nat → List Token → Option (List (Node × Node) × List Token)
  | 0, _ => none
  | fuel + 1, .key :: ts =>
    match orMissing (node fuel true true) [.key, .value, .blockEnd] ts with
    | none => none
    | some (key, ts) =>
      match behindColon (node fuel true true) [.key, .value, .blockEnd] ts with
      | none => none
      | some (value, ts) => (entries fuel ts).map fun (rest, ts) => ((key, value) :: rest, ts)
  | _ + 1, .blockEnd :: ts => some ([], ts)
  | _ + 1, _ => none

/-- Reads the items in square brackets, up to the bracket that closes them. -/
def innerItems : Nat → (isFirst : Bool) → List Token → Option (List Node × List Token)
  | 0, _, _ => none
  | _ + 1, _, .closeSequence :: ts => some ([], ts)
  | fuel + 1, isFirst, ts =>
    match pastComma? isFirst ts with
    | none => none
    | some (.closeSequence :: ts) => some ([], ts)
    | some (.key :: ts) =>
      match itemKey (node fuel false false) ts with
      | none => none
      | some (key, ts) =>
        match behindColon (node fuel false false) [.comma, .closeSequence] ts with
        | none => none
        | some (value, ts) =>
          (innerItems fuel false ts).map fun (rest, ts) =>
            (mapping none [(key, value)] :: rest, ts)
    | some ts =>
      match node fuel false false ts with
      | none => none
      | some (item, ts) => (innerItems fuel false ts).map fun (rest, ts) => (item :: rest, ts)

/-- Reads the entries in curly brackets, up to the bracket that closes them. A key
without a sign has no value. -/
def innerEntries : Nat → (isFirst : Bool) → List Token → Option (List (Node × Node) × List Token)
  | 0, _, _ => none
  | _ + 1, _, .closeMapping :: ts => some ([], ts)
  | fuel + 1, isFirst, ts =>
    match pastComma? isFirst ts with
    | none => none
    | some (.closeMapping :: ts) => some ([], ts)
    | some (.key :: ts) =>
      match orMissing (node fuel false false) [.value, .comma, .closeMapping] ts with
      | none => none
      | some (key, ts) =>
        match behindColon (node fuel false false) [.comma, .closeMapping] ts with
        | none => none
        | some (value, ts) =>
          (innerEntries fuel false ts).map fun (rest, ts) => ((key, value) :: rest, ts)
    | some ts =>
      match node fuel false false ts with
      | none => none
      | some (key, ts) =>
        (innerEntries fuel false ts).map fun (rest, ts) => ((key, missing) :: rest, ts)

end

/-- How many steps a reader may take. -/
def stepBound (ts : List Token) : Nat := 8 * ts.length + 8

/-- Reads a node that may be a block, with all tokens. -/
def read? (ts : List Token) : Option (Node × List Token) :=
  node (stepBound ts) true false ts

end Node

end Yaml

end FramedDuplex
