import FramedDuplex.Yaml.Meaning
import FramedDuplex.Yaml.Spot
/-!
# How a text is written in YAML

A text is written plain where it is read as the same text again, else in single
quotes, else in double quotes; a text of several lines is written as a block of
lines if blanks do not stand in its way. A text that would be taken for a number
or the like is written in single quotes although it could be read.
-/

namespace FramedDuplex

namespace Yaml

/-! ## What a text is like -/

/-- Whether a character is written as it is, and not as an escape. -/
def isShown (c : Char) : Bool :=
  c = '\n' || (' ' ≤ c && c ≤ '~') ||
    ('\u00a0' ≤ c && c ≠ '\ufeff' && c ≠ '\ufffe' && c ≠ '\uffff')

/-- Whether a word ends at a character. -/
def isSpace (c : Char) : Bool :=
  isBlank c || isBreak c || c = '\r' || c = '\u0085' || c = '\x00'

/-- Whether two neighbours of a text have two properties. -/
def anyPair (first second : Char → Bool) (cs : List Char) : Bool :=
  (cs.zip cs.tail).any fun (a, b) => first a && second b

/-- Whether a space stands before a line break. -/
def hasSpaceBreak (cs : List Char) : Bool := anyPair (· = ' ') isBreak cs

/-- Whether a space stands behind a line break. -/
def hasBreakSpace (cs : List Char) : Bool := anyPair isBreak (· = ' ') cs

/-- The characters that no plain text begins with. -/
def openers : List Char :=
  ['#', ',', '[', ']', '\x7b', '\x7d', '&', '*', '!', '|', '>', '\x27', '\x22', '%', '@', '\x60']

/-- Whether the beginning of a text means something. -/
def opensMeaning (cs : List Char) : Bool :=
  cs.take 3 = ['-', '-', '-'] || cs.take 3 = ['.', '.', '.'] ||
    match cs with
    | [] => false
    | c :: rest =>
      openers.contains c || ((c = '?' || c = '-') && rest.head?.all isSpace)

/-- Whether a plain text could not be read as the same text again. -/
def needsQuotes (cs : List Char) : Bool :=
  opensMeaning cs || anyPair (· = ':') isSpace cs || cs.getLast? = some ':' ||
    anyPair isSpace (· = '#') cs || cs.head? = some ' ' || cs.getLast? = some ' ' ||
    cs.any isBreak

/-! ## Styles -/

/-- How a text is written. -/
inductive Style
  | plain
  | singleQuoted
  | doubleQuoted
  | lines
deriving DecidableEq, Repr

/-- The style for a text. -/
def Style.of (text : String) : Style :=
  let cs := text.toList
  let hidden := !cs.all isShown || hasSpaceBreak cs
  if cs.contains '\n' then
    if hidden || cs.getLast? = some ' ' then .doubleQuoted else .lines
  else if hidden then .doubleQuoted
  else if isAmbiguous text || needsQuotes cs then
    if hasBreakSpace cs then .doubleQuoted else .singleQuoted
  else .plain

/-- So many upper-case digits of a number in base sixteen. -/
def hexDigits (count n : Nat) : List Char :=
  let digits := (Nat.toDigits 16 n).map (·.toUpper)
  List.replicate (count - digits.length) '0' ++ digits

/-- A character by its number. -/
def escapeNumber (n : Nat) : List Char :=
  if n < UInt8.size then 'x' :: hexDigits 2 n
  else if n < UInt16.size then 'u' :: hexDigits 4 n
  else 'U' :: hexDigits 8 n

/-- A character as it stands in double quotes. -/
def escape (c : Char) : List Char :=
  if isShown c && !isBreak c && c ≠ '\x22' && c ≠ '\\' then
    [c]
  else
    let letter :=
      [('\x00', '0'), ('\x07', 'a'), ('\x08', 'b'), ('\t', 't'), ('\n', 'n'), ('\x0b', 'v'),
        ('\x0c', 'f'), ('\r', 'r'), ('\x1b', 'e'), ('\x22', '\x22'), ('\\', '\\'),
        ('\u0085', 'N'), ('\u2028', 'L'), ('\u2029', 'P')].lookup c
    '\\' :: (letter.map ([·])).getD (escapeNumber c.toNat)

/-- A text as it stands in single quotes, with each quote twice. `broken` says
that a line break stands before it; behind one, a line begins with two blanks, and
so does the line on which the last quote stands alone. -/
def quoteLines (broken : Bool) : List Char → List Char
  | [] => if broken then [' ', ' '] else []
  | c :: rest =>
    let shown := if c = '\x27' then ['\x27', '\x27'] else [c]
    if isBreak c then c :: quoteLines true rest
    else (if broken then [' ', ' '] else []) ++ shown ++ quoteLines false rest

/-- The lines of a text, each behind two blanks. -/
def indentLines (broken : Bool) : List Char → List Char
  | [] => []
  | c :: rest =>
    if isBreak c then c :: indentLines true rest
    else (if broken then [' ', ' '] else []) ++ c :: indentLines false rest

/-- The signs behind the mark of a block: that its lines begin with two blanks
if that cannot be seen from the first, and what becomes of its last breaks. -/
def blockSignsFor (cs : List Char) : List Char :=
  let indent := if cs.head?.any fun c => c = ' ' || isBreak c then ['2'] else []
  let ending :=
    match cs.reverse with
    | last :: before :: _ =>
      if !isBreak last then ['-'] else if isBreak before then ['+'] else []
    | [last] => if isBreak last then ['+'] else ['-']
    | [] => ['-']
  indent ++ ending

/-- A text as it stands behind a key and a space, with the break that ends it. -/
def scalarLine (text : String) : String :=
  let cs := text.toList
  let written :=
    match Style.of text with
    | .plain => cs ++ ['\n']
    | .singleQuoted => '\x27' :: quoteLines false cs ++ ['\x27', '\n']
    | .doubleQuoted => '\x22' :: (cs.map escape).flatten ++ ['\x22', '\n']
    | .lines =>
      '|' :: blockSignsFor cs ++ '\n' :: indentLines true cs ++
        (if cs.getLast?.any isBreak then [] else ['\n'])
  String.ofList written

end Yaml

end FramedDuplex
