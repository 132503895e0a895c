import FramedDuplex.Yaml.Token
/-!
# Cutting a YAML text into tokens

A text is read from left to right. The columns of the blocks that are open are
kept, the innermost first: a thing further to the left closes blocks
(`Lexer.closeBlocks`), and a key or an item further to the right opens one
(`Lexer.openBlock`). Inside brackets columns mean nothing.

That something was a key is known only when the colon behind it comes. So the
lexer keeps where a key may have begun, once for each bracket that is open and
once for outside (`KeySpot`), and puts the signs of a key in front of it
afterwards (`Lexer.value?`). Such a key stands in one line and takes no more than
`keyLimit` bytes. Where an entry of a block has to begin, the colon has to come.

What names and handles stand for is told as the text is read (`Scope`). A text
that is not made of tokens is nothing but refused.
-/

namespace FramedDuplex

namespace Yaml

/-- Where a key may have begun. -/
structure KeySpot where
  place : Place
  /-- How many tokens stand before it. -/
  count : Nat
  /-- Whether a colon has to come. -/
  required : Bool

/-- How many bytes a key may take that is known by its colon only. -/
def keyLimit : Nat := 1024

/-- Whether a colon here comes too late. -/
def KeySpot.isStale (k : KeySpot) (p : Place) : Bool :=
  k.place.line < p.line || k.place.index + keyLimit < p.index

/-- A text that is being cut into tokens. -/
structure Lexer where
  spot : Spot
  scope : Scope
  /-- The tokens so far, the last in front. -/
  tokens : List Token
  /-- The columns of the open blocks, the innermost in front. -/
  columns : List Nat
  /-- Where a key may have begun, inside the innermost bracket. -/
  candidate : Option KeySpot
  /-- The same for what is around each open bracket, the innermost in front. -/
  outer : List (Option KeySpot)
  /-- Whether a key may begin here. -/
  keyAllowed : Bool

namespace Lexer

/-- A text of which nothing was read. -/
def start (cs : List Char) : Lexer := ⟨.start cs, .start, [], [], none, [], true⟩

/-- Whether a bracket is open. -/
def inBrackets (l : Lexer) : Bool := !l.outer.isEmpty

/-- The column at which the innermost block ends to the left. -/
def least (l : Lexer) : Nat := (l.columns.head?.map (· + 1)).getD 0

/-- A token comes. -/
def add (l : Lexer) (token : Token) : Lexer := { l with tokens := token :: l.tokens }

/-- A token comes that stands behind so many others. -/
def insert (l : Lexer) (count : Nat) (token : Token) : Lexer :=
  let later := l.tokens.length - count
  { l with tokens := l.tokens.take later ++ token :: l.tokens.drop later }

/-- A sign of so many characters was read. -/
def sign (l : Lexer) (length : Nat) (token : Token) : Lexer :=
  { l.add token with spot := l.spot.skip length }

/-- Says whether a key may begin here. -/
def allowKey (l : Lexer) (allowed : Bool) : Lexer := { l with keyAllowed := allowed }

/-! ## Blocks -/

/-- Closes the blocks to the right of a column, or all blocks. -/
def closeBlocks (l : Lexer) (column : Option Nat) : Lexer :=
  if l.inBrackets then
    l
  else
    let isClosed (c : Nat) : Bool := column.all (· < c)
    { l with
      tokens := (l.columns.takeWhile isClosed).map (fun _ => .blockEnd) ++ l.tokens
      columns := l.columns.dropWhile isClosed }

/-- Opens a block at a column, unless one is open there or to the right of it. Its
token stands behind so many others. -/
def openBlock (l : Lexer) (column count : Nat) (token : Token) : Lexer :=
  if !l.inBrackets && l.least ≤ column then
    { l.insert count token with columns := column :: l.columns }
  else l

/-- Opens a block here. -/
def openBlockHere (l : Lexer) (token : Token) : Lexer :=
  l.openBlock l.spot.place.column l.tokens.length token

/-! ## Keys -/

/-- What began here is no key. -/
def dropKey (l : Lexer) : Option Lexer :=
  if l.candidate.any (·.required) then none else some { l with candidate := none }

/-- Nothing is a key any more of which the colon comes too late. -/
def expireKeys (l : Lexer) : Option Lexer :=
  let here := l.spot.place
  if (l.candidate :: l.outer).any (·.any fun k => k.isStale here && k.required) then
    none
  else
    let fresh (k : KeySpot) : Bool := !k.isStale here
    some { l with candidate := l.candidate.filter fresh, outer := l.outer.map (·.filter fresh) }

/-- A key may begin here, if one may at all. It has to where the entries of the
innermost block stand. -/
def markKey (l : Lexer) : Option Lexer :=
  if l.keyAllowed then
    let here := l.spot.place
    let required := !l.inBrackets && l.columns.head? = some here.column
    l.dropKey.map fun l => { l with candidate := some ⟨here, l.tokens.length, required⟩ }
  else some l

/-! ## Single tokens -/

/-- Reads a directive. -/
def directive? (l : Lexer) : Option Lexer :=
  match (l.closeBlocks none).dropKey, Yaml.directive? (l.spot.skip 1) with
  | some l, some (directive, spot) =>
    (l.scope.direct? directive).map fun scope =>
      { (l.add .directive).allowKey false with spot, scope }
  | _, _ => none

/-- Reads a mark between documents. -/
def mark? (l : Lexer) (token : Token) : Option Lexer :=
  (l.closeBlocks none).dropKey.map fun l => (l.sign 3 token).allowKey false

/-- Reads a bracket that opens. -/
def open? (l : Lexer) (token : Token) : Option Lexer :=
  l.markKey.map fun l =>
    { (l.sign 1 token).allowKey true with candidate := none, outer := l.candidate :: l.outer }

/-- Reads a bracket that closes. -/
def close? (l : Lexer) (token : Token) : Option Lexer :=
  l.dropKey.map fun l =>
    let l := (l.sign 1 token).allowKey false
    match l.outer with
    | [] => l
    | candidate :: outer => { l with candidate, outer }

/-- Reads a comma. -/
def comma? (l : Lexer) : Option Lexer :=
  l.dropKey.map fun l => (l.sign 1 .comma).allowKey true

/-- Reads the sign of an item. -/
def item? (l : Lexer) : Option Lexer :=
  if l.inBrackets || l.keyAllowed then
    (l.openBlockHere .blockSequence).dropKey.map fun l => (l.sign 1 .item).allowKey true
  else none

/-- Reads the sign of a key. -/
def key? (l : Lexer) : Option Lexer :=
  if l.inBrackets || l.keyAllowed then
    (l.openBlockHere .blockMapping).dropKey.map fun l =>
      (l.sign 1 .key).allowKey !l.inBrackets
  else none

/-- Reads a colon. If a key may have begun before it, that was a key; if not, the
colon stands behind a key with a sign, or without a key. -/
def value? (l : Lexer) : Option Lexer :=
  match l.candidate with
  | some k =>
    let l := (l.insert k.count .key).openBlock k.place.column k.count .blockMapping
    some (({ l with candidate := none }.sign 1 .value).allowKey false)
  | none =>
    if l.inBrackets || l.keyAllowed then
      some (((l.openBlockHere .blockMapping).sign 1 .value).allowKey !l.inBrackets)
    else none

/-- Reads an anchor: the node behind it gets a name. -/
def anchor? (l : Lexer) : Option Lexer :=
  match l.markKey, name? (l.spot.skip 1) with
  | some l, some (name, spot) =>
    some { (l.add (.anchor l.scope.next)).allowKey false with
      spot, scope := l.scope.anchor name }
  | _, _ => none

/-- Reads a reference: a name in place of a node that came before. -/
def reference? (l : Lexer) : Option Lexer :=
  match l.markKey, name? (l.spot.skip 1) with
  | some l, some (name, spot) =>
    (l.scope.anchor? name).map fun number =>
      { (l.add (.reference number)).allowKey false with spot }
  | _, _ => none

/-- Reads a tag. -/
def tag? (l : Lexer) : Option Lexer :=
  match l.markKey, Yaml.tag? l.inBrackets l.spot with
  | some l, some (tag, spot) =>
    (l.scope.resolve? tag).map fun name => { (l.add (.tag name)).allowKey false with spot }
  | _, _ => none

/-- A scalar was read. -/
def scalar (l : Lexer) (form : Form) (s : Scalar) : Lexer :=
  { (l.add (.scalar form (String.ofList s.text))).allowKey s.opens with spot := s.spot }

/-- Reads a block of lines. -/
def block? (l : Lexer) (form : Form) : Option Lexer :=
  match l.dropKey, block (form = .folded) l.least (l.spot.skip 1) with
  | some l, some s => some (l.scalar form s)
  | _, _ => none

/-- Reads a plain or quoted scalar. -/
def word? (l : Lexer) : Option Lexer :=
  let p := l.spot.place
  let read :=
    match l.spot.rest with
    | '\x27' :: rest => (singleQuoted [] .nothing (p.past '\x27') rest).map (Form.quoted, ·)
    | '\x22' :: rest => (doubleQuoted [] .nothing (p.past '\x22') none rest).map (Form.quoted, ·)
    | rest =>
      if startsPlain l.inBrackets rest then
        (plain l.inBrackets l.least [] .nothing p rest).map (Form.plain, ·)
      else none
  match l.markKey, read with
  | some l, some (form, s) => some (l.scalar form s)
  | _, _ => none

/-! ## All tokens -/

/-- Reads the token that begins with a character. -/
def token? (l : Lexer) (c : Char) (rest : List Char) : Option Lexer :=
  if c = '%' ∧ l.spot.place.column = 0 then l.directive?
  else if l.spot.isMark '-' then l.mark? .documentStart
  else if l.spot.isMark '.' then l.mark? .documentEnd
  else if c = '[' then l.open? .openSequence
  else if c = '\x7b' then l.open? .openMapping
  else if c = ']' then l.close? .closeSequence
  else if c = '\x7d' then l.close? .closeMapping
  else if c = ',' then l.comma?
  else if c = '-' ∧ endsWord rest then l.item?
  else if c = '?' ∧ (l.inBrackets ∨ endsWord rest) then l.key?
  else if c = ':' ∧ (l.inBrackets ∨ endsWord rest) then l.value?
  else if c = '*' then l.reference?
  else if c = '&' then l.anchor?
  else if c = '!' then l.tag?
  else if c = '|' ∧ !l.inBrackets then l.block? .literal
  else if c = '>' ∧ !l.inBrackets then l.block? .folded
  else l.word?

/-- The tokens of a text that has been read to its end. -/
def finish (l : Lexer) : Option (List Token) :=
  (l.closeBlocks none).dropKey.map fun l => l.tokens.reverse

/-- Goes to the next thing, and closes the blocks to the right of it. -/
def seek (l : Lexer) : Option Lexer :=
  let (spot, keyAllowed) := l.spot.seek l.inBrackets l.keyAllowed
  let l := { l with spot, keyAllowed }
  l.expireKeys.map fun l => l.closeBlocks (some spot.place.column)

/-- Reads on, for so many tokens at most. -/
def run : Nat → Lexer → Option (List Token)
  | 0, _ => none
  | fuel + 1, l =>
    match l.seek with
    | none => none
    | some l =>
      match l.spot.rest with
      | [] => l.finish
      | c :: rest =>
        match l.token? c rest with
        | none => none
        | some l => run fuel l

end Lexer

/-- The tokens of a text. Each takes a character at least. -/
def tokens? (cs : List Char) : Option (List Token) :=
  Lexer.run (cs.length + 1) (Lexer.start cs)

end Yaml

end FramedDuplex
