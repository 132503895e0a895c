import FramedDuplex.Bytes.LittleEndian
import FramedDuplex.Yaml.Scalar
/-!
# Names, tags and directives in a YAML text

Before a node may stand the name of an anchor and a tag. A tag says what the node
is. It is written in full between angle brackets, or as a suffix behind a handle,
and a directive says what a handle stands for. The readers here take the words of
which these consist; what they stand for is for `Yaml.Scope`.
-/

namespace FramedDuplex

namespace Yaml

/-- What a line at the beginning of a document says about it. -/
inductive Directive
  /-- By which version of the rules it is written. -/
  | version (major minor : Nat)
  /-- What a handle stands for. -/
  | handle (name : String) (lead : Bytes)
deriving DecidableEq

/-- A tag as it is written: a handle, empty if there is none, and what stands
behind it. -/
structure Tag where
  handle : String
  suffix : Bytes
deriving DecidableEq

/-! ## Words -/

/-- Whether a character may stand in the name of an anchor or of a handle. -/
def isWordChar (c : Char) : Bool := c.isAlphanum || c = '_' || c = '-'

/-- Characters of ASCII as bytes. -/
def asciiBytes (cs : List Char) : Bytes := cs.map fun c => UInt8.ofNat c.toNat

/-- The characters that may stand behind the name of an anchor, besides blanks
and line breaks. -/
def nameEnds : List Char := ['?', ':', ',', ']', '\x7d', '%', '@', '\x60']

/-- Reads the name of an anchor behind its sign. -/
def name? (s : Spot) : Option (String × Spot) :=
  let (name, s) := s.span isWordChar
  if name.isEmpty then none
  else if endsWord s.rest || s.rest.head?.any (nameEnds.contains ·) then
    some (String.ofList name, s)
  else none

/-! ## Tags -/

/-- Whether a character may stand in a tag; some signs may where it is written in
full. -/
def isTagChar (inFull : Bool) (c : Char) : Bool :=
  isWordChar c || (";/?:@&=+$.%!~*\x27()".toList.contains c) ||
    (inFull && [',', '[', ']'].contains c)

/-- How many bytes a character has of which the first byte is written as an
escape. -/
def escapeLength? (lead : Nat) : Option Nat :=
  if lead < 0x80 then some 1
  else if lead < 0xC0 then none
  else if lead < 0xE0 then some 2
  else if lead < 0xF0 then some 3
  else if lead < 0xF8 then some 4
  else none

/-- The byte of two digits. -/
def escapedByte? (a b : Char) : Option Nat :=
  match Digits.digit? 16 a, Digits.digit? 16 b with
  | some high, some low => some (16 * high + low)
  | _, _ => none

/-- The bytes of the characters of a tag, of which some are escapes. So many bytes
that continue a character have to come first, as escapes. -/
def unescape (owed : Nat) : List Char → Option Bytes
  | [] => if owed = 0 then some [] else none
  | '%' :: a :: b :: rest =>
    match escapedByte? a b with
    | none => none
    | some byte =>
      let left? :=
        if owed = 0 then (escapeLength? byte).map (· - 1)
        else if 0x80 ≤ byte ∧ byte < 0xC0 then some (owed - 1)
        else none
      match left? with
      | none => none
      | some left => (unescape left rest).map (UInt8.ofNat byte :: ·)
  | c :: rest =>
    if owed = 0 ∧ c ≠ '%' then (unescape 0 rest).map (UInt8.ofNat c.toNat :: ·) else none

/-- Reads the characters of a tag. A byte of zero ends what counts of them. -/
def tagText? (inFull : Bool) (s : Spot) : Option (Bytes × Spot) :=
  let (text, s) := s.span (isTagChar inFull)
  (unescape 0 text).map fun bs => (bs.takeWhile (· ≠ 0), s)

/-- Reads the characters of a tag, of which there has to be one. -/
def someTagText? (inFull : Bool) (s : Spot) : Option (Bytes × Spot) :=
  if s.rest.head?.any (isTagChar inFull) then tagText? inFull s else none

/-- Reads what may be a handle: an exclamation mark, a name, and perhaps another
mark, which the flag tells. -/
def handleText? (s : Spot) : Option (List Char × Bool × Spot) :=
  match s.rest with
  | '!' :: _ =>
    let (name, s) := (s.skip 1).span isWordChar
    if s.rest.head? = some '!' then some (name, true, s.skip 1) else some (name, false, s)
  | _ => none

/-- A handle with both of its marks. -/
def handleName (name : List Char) : String := "!" ++ String.ofList name ++ "!"

/-- Reads a tag: its handle and its suffix. A tag in full has no handle, and
neither has an exclamation mark alone. -/
def tag? (inBrackets : Bool) (s : Spot) : Option (Tag × Spot) :=
  let read :=
    match s.rest with
    | '!' :: '<' :: _ =>
      match someTagText? true (s.skip 2) with
      | none => none
      | some (suffix, s) =>
        if s.rest.head? = some '>' then some (Tag.mk "" suffix, s.skip 1) else none
    | _ =>
      match handleText? s with
      | none => none
      | some (name, true, s) =>
        (someTagText? false s).map fun (suffix, s) => (⟨handleName name, suffix⟩, s)
      | some (name, false, s) =>
        (tagText? false s).map fun (more, s) =>
          let suffix := asciiBytes name ++ more
          (if suffix.isEmpty then ⟨"", asciiBytes ['!']⟩ else ⟨"!", suffix⟩, s)
  read.filter fun (_, s) => endsWord s.rest || (inBrackets && s.rest.head? = some ',')

/-! ## Directives -/

/-- Reads a number of nine digits at most. -/
def versionNumber? (s : Spot) : Option (Nat × Spot) :=
  let (digits, s) := s.span Char.isDigit
  if digits.length ≤ 9 then (Digits.read? 10 digits).map (·, s) else none

/-- Reads the version that a directive says. -/
def version? (s : Spot) : Option (Directive × Spot) :=
  match versionNumber? s with
  | none => none
  | some (major, s) =>
    if s.rest.head? = some '.' then
      (versionNumber? (s.skip 1)).map fun (minor, s) => (.version major minor, s)
    else none

/-- Reads a handle and what a directive says that it stands for. -/
def handle? (s : Spot) : Option (Directive × Spot) :=
  match handleText? s with
  | none => none
  | some (name, closed, s) =>
    if (closed || name.isEmpty) && s.rest.head?.any isBlank then
      match someTagText? true (s.span isBlank).2 with
      | none => none
      | some (lead, s) =>
        if endsWord s.rest then
          some (.handle (if closed then handleName name else "!") lead, s)
        else none
    else none

/-- Reads a directive behind its sign, with the line that it stands in. -/
def directive? (s : Spot) : Option (Directive × Spot) :=
  let (name, s) := s.span isWordChar
  let read :=
    if !endsWord s.rest then none
    else if name = ['Y', 'A', 'M', 'L'] then version? (s.span isBlank).2
    else if name = ['T', 'A', 'G'] then handle? (s.span isBlank).2
    else none
  match read with
  | none => none
  | some (directive, s) =>
    let s := s.endLine
    if endsLine s.rest then some (directive, s.skip 1) else none

end Yaml

end FramedDuplex
