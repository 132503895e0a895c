import FramedDuplex.Text.Digits
import FramedDuplex.Yaml.Spot
/-!
# Scalars in a YAML text

A scalar is written plain, in single or double quotes, or as a block of lines.
Each reader gives the text of a scalar and the spot behind it.

In a plain or quoted scalar blanks around a line break do not count; one line
break is read as a space, and of several all but the first are kept (`Gap`).
-/

namespace FramedDuplex

namespace Yaml

/-- How a scalar is written, as far as that matters to its meaning. -/
inductive Form
  | plain
  | quoted
  /-- A block of which the lines are kept. -/
  | literal
  /-- A block of which the lines are joined. -/
  | folded
deriving DecidableEq, Repr

/-- A scalar that was read, and the spot behind it. -/
structure Scalar where
  text : List Char
  spot : Spot
  /-- Whether the scalar reaches to the beginning of a line, so that a key may
  begin behind it. -/
  opens : Bool

/-! ## What stands between the characters of a scalar -/

/-- What stands between two characters of a scalar that are no blanks. -/
inductive Gap
  | nothing
  /-- Blanks in one line, the last in front. -/
  | blanks (bs : List Char)
  /-- A line break, unless it was escaped, and those that follow, the last in front. -/
  | lines (first : Option Char) (more : List Char)

namespace Gap

/-- A blank follows. -/
def blank (c : Char) : Gap → Gap
  | nothing => blanks [c]
  | blanks bs => blanks (c :: bs)
  | lines first more => lines first more

/-- A line break follows. -/
def newline (c : Char) : Gap → Gap
  | lines first more => lines first (c :: more)
  | _ => lines (some c) []

/-- Whether there is a line break. -/
def isLines : Gap → Bool
  | lines .. => true
  | _ => false

/-- Whether there is anything. -/
def isNothing : Gap → Bool
  | nothing => true
  | _ => false

/-- What is read for a gap, behind characters of which the last is in front. -/
def join (acc : List Char) : Gap → List Char
  | nothing => acc
  | blanks bs => bs ++ acc
  | lines none more => more ++ acc
  | lines (some c) more =>
    if c = '\n' then (if more.isEmpty then ' ' :: acc else more ++ acc) else more ++ c :: acc

end Gap

/-! ## Plain scalars -/

/-- The characters that mean something inside brackets. -/
def bracketMarks : List Char := [',', '[', ']', '\x7b', '\x7d']

/-- The characters that mean something at the beginning of a word. -/
def marks : List Char :=
  bracketMarks ++ ['-', '?', ':', '#', '&', '*', '!', '|', '>', '\x27', '\x22', '%', '@', '\x60']

/-- Whether a plain scalar may begin with some characters. -/
def startsPlain (inBrackets : Bool) : List Char → Bool
  | [] => false
  | c :: rest =>
    if isBlank c || isBreak c then false
    else if c = '-' then !endsWord rest
    else if c = '?' ∨ c = ':' then !inBrackets && !endsWord rest
    else !marks.contains c

/-- Reads on in a plain scalar. Outside brackets its lines begin at the column
`least` or behind, and nowhere does a tab stand before that column. -/
def plain (inBrackets : Bool) (least : Nat) (acc : List Char) (gap : Gap) (p : Place) :
    List Char → Option Scalar
  | [] => some ⟨acc.reverse, ⟨p, []⟩, gap.isLines⟩
  | c :: rest =>
    if isBreak c then
      plain inBrackets least acc (gap.newline c) (p.past c) rest
    else if isBlank c then
      if gap.isLines && p.column < least && c = '\t' then none
      else plain inBrackets least acc (gap.blank c) (p.past c) rest
    else
      let here : Spot := ⟨p, c :: rest⟩
      let ends : Bool :=
        (gap.isLines && ((!inBrackets && p.column < least) || here.atMark)) ||
          (!gap.isNothing && c = '#') || (c = ':' && endsWord rest)
      if ends then
        some ⟨acc.reverse, here, gap.isLines⟩
      else if inBrackets && c = ':' && rest.head?.any (('?' :: bracketMarks).contains ·) then
        none
      else if inBrackets && bracketMarks.contains c then
        some ⟨acc.reverse, here, gap.isLines⟩
      else
        plain inBrackets least (c :: gap.join acc) .nothing (p.past c) rest

/-! ## Quoted scalars -/

/-- Reads on in single quotes. A quote is written twice. -/
def singleQuoted (acc : List Char) (gap : Gap) (p : Place) : List Char → Option Scalar
  | [] => none
  | '\x27' :: '\x27' :: rest =>
    singleQuoted ('\x27' :: gap.join acc) .nothing ((p.past '\x27').past '\x27') rest
  | c :: rest =>
    if c = '\x27' then some ⟨(gap.join acc).reverse, ⟨p.past c, rest⟩, false⟩
    else if (Spot.mk p (c :: rest)).atMark then none
    else if isBreak c then singleQuoted acc (gap.newline c) (p.past c) rest
    else if isBlank c then singleQuoted acc (gap.blank c) (p.past c) rest
    else singleQuoted (c :: gap.join acc) .nothing (p.past c) rest

/-- The character that an escape of one letter stands for. -/
def escape? (c : Char) : Option Char :=
  [('0', '\x00'), ('a', '\x07'), ('b', '\x08'), ('t', '\t'), ('\t', '\t'), ('n', '\n'),
    ('v', '\x0b'), ('f', '\x0c'), ('r', '\r'), ('e', '\x1b'), (' ', ' '), ('\x22', '\x22'),
    ('/', '/'), ('\\', '\\'), ('N', '\u0085'), ('_', '\u00a0'), ('L', '\u2028'),
    ('P', '\u2029')].lookup c

/-- How many digits follow the letter of an escape by number. -/
def escapeDigits? (c : Char) : Option Nat :=
  [('x', 2), ('u', 4), ('U', 8)].lookup c

/-- The character of a number. -/
def char? (n : Nat) : Option Char :=
  if n.isValidChar then some (Char.ofNat n) else none

/-- Reads on in double quotes, and inside an escape with digits left if there is
a `number` under way. -/
def doubleQuoted (acc : List Char) (gap : Gap) (p : Place) :
    (number : Option (Nat × Nat)) → List Char → Option Scalar
  | _, [] => none
  | some (left, value), c :: rest =>
    match Digits.digit? 16 c with
    | none => none
    | some digit =>
      if 1 < left then
        doubleQuoted acc gap (p.past c) (some (left - 1, 16 * value + digit)) rest
      else
        match char? (16 * value + digit) with
        | none => none
        | some d => doubleQuoted (d :: acc) .nothing (p.past c) none rest
  | none, '\\' :: c :: rest =>
    let behind := (p.past '\\').past c
    if isBreak c then
      doubleQuoted (gap.join acc) (.lines none []) behind none rest
    else
      match escapeDigits? c, escape? c with
      | some left, _ => doubleQuoted (gap.join acc) .nothing behind (some (left, 0)) rest
      | none, some d => doubleQuoted (d :: gap.join acc) .nothing behind none rest
      | none, none => none
  | none, c :: rest =>
    if c = '\x22' then some ⟨(gap.join acc).reverse, ⟨p.past c, rest⟩, false⟩
    else if (Spot.mk p (c :: rest)).atMark then none
    else if isBreak c then doubleQuoted acc (gap.newline c) (p.past c) none rest
    else if isBlank c then doubleQuoted acc (gap.blank c) (p.past c) none rest
    else doubleQuoted (c :: gap.join acc) .nothing (p.past c) none rest

/-! ## Blocks of lines -/

/-- What becomes of the line breaks at the end of a block. -/
inductive Chomp
  | strip
  | clip
  | keep

/-- How a block is to be read. -/
structure BlockHeader where
  folded : Bool
  chomp : Chomp
  /-- By how much the lines are indented, if that is said. -/
  indent : Option Nat

/-- What a sign says about the end of a block. -/
def chomp? (c : Char) : Option Chomp :=
  if c = '-' then some .strip else if c = '+' then some .keep else none

/-- What a digit says about the indentation of a block. -/
def indent? (c : Char) : Option Nat :=
  if c.isDigit ∧ c ≠ '0' then some (c.toNat - '0'.toNat) else none

/-- Reads the signs behind the mark of a block, in either order, and says how
many there are. -/
def blockSigns (folded : Bool) : List Char → BlockHeader × Nat
  | a :: rest =>
    match chomp? a, indent? a with
    | some chomp, _ =>
      match rest.head?.bind indent? with
      | some n => (⟨folded, chomp, some n⟩, 2)
      | none => (⟨folded, chomp, none⟩, 1)
    | none, some n =>
      match rest.head?.bind chomp? with
      | some chomp => (⟨folded, chomp, some n⟩, 2)
      | none => (⟨folded, .clip, some n⟩, 1)
    | none, none => (⟨folded, .clip, none⟩, 0)
  | [] => (⟨folded, .clip, none⟩, 0)

/-- The greatest column at which a leading line begins, the first that is not
blank included. -/
def blockColumn (deepest column : Nat) : List Char → Option Nat
  | [] => some (max deepest column)
  | c :: rest =>
    if c = ' ' then blockColumn deepest (column + 1) rest
    else if isBreak c then blockColumn (max deepest column) 0 rest
    else if c = '\t' then none
    else some (max deepest column)

/-- Reads the lines of a block, each with the break that ends it, and the spot
behind them. `part` is there inside a line and holds what was read of it. -/
def blockLines (indent : Nat) (part : Option (List Char)) (p : Place) :
    List Char → Option (List (List Char × List Char) × Spot)
  | [] => some (part.toList.map fun cs => (cs.reverse, []), ⟨p, []⟩)
  | c :: rest =>
    match part with
    | some cs =>
      if isBreak c then
        (blockLines indent none (p.past c) rest).map fun (ls, s) => ((cs.reverse, [c]) :: ls, s)
      else
        blockLines indent (some (c :: cs)) (p.past c) rest
    | none =>
      if isBreak c then
        (blockLines indent none (p.past c) rest).map fun (ls, s) => (([], [c]) :: ls, s)
      else if p.column = indent then
        blockLines indent (some [c]) (p.past c) rest
      else if c = ' ' then
        blockLines indent none (p.past c) rest
      else if c = '\t' then
        none
      else
        some ([], ⟨p, c :: rest⟩)

/-- The text of the lines of a block. `ending` is the break behind the line
before, `empty` the breaks since, and `indented` whether that line begins with a
blank. -/
def blockText (h : BlockHeader) (ending empty : List Char) (indented : Bool) :
    List (List Char × List Char) → List Char
  | [] =>
    match h.chomp with
    | .strip => []
    | .clip => ending
    | .keep => ending ++ empty
  | ([], b) :: rest => blockText h ending (empty ++ b) indented rest
  | (c :: cs, b) :: rest =>
    let between :=
      if h.folded && ending = ['\n'] && !indented && !isBlank c then
        if empty.isEmpty then [' '] else empty
      else
        ending ++ empty
    between ++ c :: cs ++ blockText h b [] (isBlank c) rest

/-- The spot behind the blanks and the comment at the end of a line. -/
def Spot.endLine (s : Spot) : Spot :=
  let (_, s) := s.span isBlank
  if s.rest.head? = some '#' then (s.span (!isBreak ·)).2 else s

/-- Reads a block behind its mark. Its lines begin at the column `least` or
behind, and never at the first. -/
def block (folded : Bool) (least : Nat) (s : Spot) : Option Scalar :=
  let (header, count) := blockSigns folded s.rest
  let s := (s.skip count).endLine
  match s.rest with
  | [] => some ⟨blockText header [] [] false [], s, true⟩
  | c :: rest =>
    if isBreak c then
      let column :=
        match header.indent with
        | some n => some (least - 1 + n)
        | none => (blockColumn 0 0 rest).map (max · (max least 1))
      match column.bind fun column => blockLines column none (s.place.past c) rest with
      | none => none
      | some (lines, spot) => some ⟨blockText header [] [] false lines, spot, true⟩
    else
      none

end Yaml

end FramedDuplex
