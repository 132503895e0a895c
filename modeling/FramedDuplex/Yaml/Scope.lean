import FramedDuplex.Yaml.Word
/-!
# What the words of a YAML document stand for

Directives say what handles stand for, and the names of anchors stand for nodes
that came before. Anchors are counted: one gets the number of the names that there
were before it. So a name that comes a second time gets a new number, and the next
new name gets the same one; a number is that of the last node that got it.
-/

namespace FramedDuplex

namespace Yaml

/-- What the words of a document stand for, as far as it has been read. -/
structure Scope where
  /-- Whether a directive has said by which version the document is written. -/
  versioned : Bool
  /-- What handles stand for. -/
  handles : List (String × Bytes)
  /-- The number of the anchor that each name stands for. -/
  anchors : List (String × Nat)

namespace Scope

/-- No word has been read. -/
def start : Scope := ⟨false, [], []⟩

/-- What handles stand for where no directive says it. -/
def standardHandles : List (String × Bytes) :=
  [("!", asciiBytes ['!']), ("!!", asciiBytes "tag:yaml.org,2002:".toList)]

/-- A directive comes. The version is said once at most, and it is one of two; a
handle is explained once at most. -/
def direct? (s : Scope) : Directive → Option Scope
  | .version major minor =>
    if !s.versioned ∧ major = 1 ∧ (minor = 1 ∨ minor = 2) then some { s with versioned := true }
    else none
  | .handle name lead =>
    if s.handles.any (·.1 = name) then none
    else some { s with handles := (name, lead) :: s.handles }

/-- A tag in full. A handle has to stand for something. -/
def resolve? (s : Scope) (tag : Tag) : Option Bytes :=
  if tag.handle = "" then some tag.suffix
  else ((s.handles ++ standardHandles).lookup tag.handle).map (· ++ tag.suffix)

/-- The number of an anchor that comes. -/
def next (s : Scope) : Nat := s.anchors.length

/-- An anchor comes. -/
def anchor (s : Scope) (name : String) : Scope :=
  { s with anchors := (name, s.next) :: s.anchors.filter (·.1 ≠ name) }

/-- The number of the anchor that a name stands for. -/
def anchor? (s : Scope) (name : String) : Option Nat := s.anchors.lookup name

/-- A name stands for the last anchor that it was given to. -/
theorem anchor?_anchor (s : Scope) (name : String) :
    (s.anchor name).anchor? name = some s.next := by
  simp [anchor, anchor?]

end Scope

end Yaml

end FramedDuplex
