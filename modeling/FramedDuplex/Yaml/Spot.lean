/-!
# Places in a YAML text

A text is read from a spot on: what is still to be read, and the place where
that begins. Between two things stand blanks, line breaks and comments
(`Spot.seek`).

Line breaks are made uniform before anything is read, and a text with control
characters is not read at all (`Yaml.unify`, `Yaml.isLegal`).
-/

namespace FramedDuplex

namespace Yaml

/-! ## Characters -/

/-- Whether a character ends a line, once line breaks are uniform. -/
def isBreak (c : Char) : Bool := c = '\n' || c = '\u2028' || c = '\u2029'

/-- Whether a character is a blank within a line. -/
def isBlank (c : Char) : Bool := c = ' ' || c = '\t'

/-- Whether a character may stand in a text. -/
def isLegal (c : Char) : Bool :=
  c = '\t' || c = '\n' || c = '\r' || (' ' ≤ c && c ≤ '~') || c = '\u0085' ||
    ('\u00a0' ≤ c && c ≠ '\ufffe' && c ≠ '\uffff')

/-- Makes a line feed of every line break that is not a separator of its own. -/
def unify : List Char → List Char
  | [] => []
  | '\r' :: '\n' :: rest => '\n' :: unify rest
  | c :: rest => (if c = '\r' ∨ c = '\u0085' then '\n' else c) :: unify rest

/-- Whether a word ends before some characters. -/
def endsWord : List Char → Bool
  | [] => true
  | c :: _ => isBlank c || isBreak c

/-- Whether a line ends before some characters. -/
def endsLine : List Char → Bool
  | [] => true
  | c :: _ => isBreak c

/-- Whether a mark between documents stands before some characters. -/
def startsWithMark (mark : Char) : List Char → Bool
  | a :: b :: c :: rest => a = mark && b = mark && c = mark && endsWord rest
  | _ => false

/-! ## Places -/

/-- A place in a text: how many bytes, how many lines and how many characters of
its own line stand before it. -/
structure Place where
  index : Nat
  line : Nat
  column : Nat
deriving DecidableEq, Repr

namespace Place

/-- The beginning of a text. -/
def start : Place := ⟨0, 0, 0⟩

/-- The place behind a character. -/
def past (p : Place) (c : Char) : Place :=
  let index := p.index + c.utf8Size
  if isBreak c then ⟨index, p.line + 1, 0⟩ else ⟨index, p.line, p.column + 1⟩

/-- The place behind some characters. -/
def pastAll (p : Place) (cs : List Char) : Place := cs.foldl past p

end Place

/-- What is still to be read of a text, and where it begins. -/
structure Spot where
  place : Place
  rest : List Char

namespace Spot

/-- The beginning of a text. -/
def start (cs : List Char) : Spot := ⟨.start, cs⟩

/-- The spot behind so many characters. -/
def skip (s : Spot) (count : Nat) : Spot :=
  ⟨s.place.pastAll (s.rest.take count), s.rest.drop count⟩

/-- The characters up to the first without a property, and the spot there. -/
def span (s : Spot) (p : Char → Bool) : List Char × Spot :=
  let taken := s.rest.takeWhile p
  (taken, ⟨s.place.pastAll taken, s.rest.dropWhile p⟩)

/-- **Nothing is lost between what is taken and what is left.** -/
theorem span_append_rest (s : Spot) (p : Char → Bool) : (s.span p).1 ++ (s.span p).2.rest = s.rest :=
  List.takeWhile_append_dropWhile

/-- Whether a mark between documents stands here: three times the same sign at
the beginning of a line. -/
def isMark (s : Spot) (sign : Char) : Bool :=
  s.place.column = 0 && startsWithMark sign s.rest

/-- Whether a document may begin or end here. -/
def atMark (s : Spot) : Bool := s.isMark '-' || s.isMark '.'

/-- The next thing that is no blank, line break or comment, and whether a key may
begin there. A line break outside brackets lets a key begin, and where one may
begin, a tab is no blank. At the beginning of a line a byte order mark counts as
a blank. -/
def seekFrom (inBrackets inComment keyAllowed : Bool) (p : Place) : List Char → Spot × Bool
  | [] => (⟨p, []⟩, keyAllowed)
  | c :: rest =>
    let isGap :=
      inComment || c = ' ' || (c = '\t' && (inBrackets || !keyAllowed)) ||
        (c = '\ufeff' && p.column = 0)
    if isBreak c then
      seekFrom inBrackets false (keyAllowed || !inBrackets) (p.past c) rest
    else if isGap then
      seekFrom inBrackets inComment keyAllowed (p.past c) rest
    else if c = '#' then
      seekFrom inBrackets true keyAllowed (p.past c) rest
    else
      (⟨p, c :: rest⟩, keyAllowed)

/-- The next thing, and whether a key may begin there. -/
def seek (s : Spot) (inBrackets keyAllowed : Bool) : Spot × Bool :=
  seekFrom inBrackets false keyAllowed s.place s.rest

end Spot

end Yaml

end FramedDuplex
