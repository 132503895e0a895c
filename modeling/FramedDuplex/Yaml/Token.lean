import FramedDuplex.Yaml.Scope
/-!
# Tokens of a YAML text

What a text is made of: marks, brackets and signs, the beginnings and ends of
blocks, scalars, and what may stand before a node. A tag is there in full, and an
anchor is there with its number instead of its name.
-/

namespace FramedDuplex

namespace Yaml

/-- What a text is made of. -/
inductive Token
  | directive
  | documentStart
  | documentEnd
  | blockSequence
  | blockMapping
  | blockEnd
  | openSequence
  | closeSequence
  | openMapping
  | closeMapping
  | item
  | comma
  | key
  | value
  | anchor (number : Nat)
  | reference (number : Nat)
  | tag (name : Bytes)
  | scalar (form : Form) (text : String)
deriving DecidableEq

end Yaml

end FramedDuplex
