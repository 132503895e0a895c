import FramedDuplex.Text.Digits
/-!
# What a plain scalar is taken for

A plain scalar without quotes may be taken for nothing, for a truth value or for
a number. Numbers are in base ten, or in base sixteen, eight or two behind a
prefix. Digits behind a leading zero are no number in base ten.
-/

namespace FramedDuplex

namespace Yaml

/-- Whether a text is a word for nothing. -/
def isNullWord (text : String) : Bool :=
  ["null", "Null", "NULL", "~"].contains text

/-- Whether a text is taken for nothing. -/
def isNull (text : String) : Bool := text = "" || isNullWord text

/-- Whether a text is taken for a truth value. -/
def isBool (text : String) : Bool :=
  ["true", "True", "TRUE", "false", "False", "FALSE"].contains text

/-! ## Whole numbers -/

/-- Whether digits stand behind a leading zero. -/
def hasLeadingZero : List Char → Bool
  | '0' :: c :: rest => c.isDigit && rest.all Char.isDigit
  | _ => false

/-- The value of digits, in the base that a prefix says or in base ten. -/
def magnitude? : List Char → Option Nat
  | '0' :: 'x' :: cs => Digits.read? 16 cs
  | '0' :: 'o' :: cs => Digits.read? 8 cs
  | '0' :: 'b' :: cs => Digits.read? 2 cs
  | cs => if hasLeadingZero cs then none else Digits.read? 10 cs

/-- The number that a text is taken for, if it is a whole one. -/
def integer? (text : String) : Option Int :=
  match text.toList with
  | '-' :: cs => (magnitude? cs).map fun n => -(n : Int)
  | '+' :: cs => (magnitude? cs).map fun n => (n : Int)
  | cs => (magnitude? cs).map fun n => (n : Int)

/-- Whether a text is taken for a whole number, of 128 bits at most. -/
def isInteger (text : String) : Bool :=
  (integer? text).any fun n => -(Nat.pow 2 127 : Int) ≤ n && n < (Nat.pow 2 128 : Int)

/-- The word that a text is taken for. A minus sign stands before no word, not even
before zero. -/
def word64? (text : String) : Option UInt64 :=
  let magnitude :=
    match text.toList with
    | '+' :: cs => magnitude? cs
    | cs => magnitude? cs
  (magnitude.filter (· < UInt64.size)).map UInt64.ofNat

/-! ## Numbers with a point -/

/-- A number in base ten: digits before and behind the point, and the exponent. -/
structure Decimal where
  whole : List Char
  fraction : List Char
  exponent : Int

/-- Reads the exponent of a number, which may be left out. -/
def exponent? : List Char → Option Int
  | [] => some 0
  | e :: cs =>
    if e = 'e' ∨ e = 'E' then
      match cs with
      | '-' :: ds => (Digits.read? 10 ds).map fun n => -(n : Int)
      | '+' :: ds => (Digits.read? 10 ds).map fun n => (n : Int)
      | ds => (Digits.read? 10 ds).map fun n => (n : Int)
    else
      none

/-- Reads a number without a sign. There has to be a digit before or behind the
point. -/
def Decimal.read? (cs : List Char) : Option Decimal :=
  let whole := cs.takeWhile Char.isDigit
  let rest := cs.dropWhile Char.isDigit
  let (fraction, rest) :=
    match rest with
    | '.' :: ds => (ds.takeWhile Char.isDigit, ds.dropWhile Char.isDigit)
    | _ => ([], rest)
  if whole.isEmpty && fraction.isEmpty then none
  else (exponent? rest).map fun e => ⟨whole, fraction, e⟩

/-- Whether a number is below the least one that no double word holds, which is
half a step above the greatest one that it holds. -/
def Decimal.isFinite (d : Decimal) : Bool :=
  let digits := (d.whole ++ d.fraction).dropWhile (· = '0')
  let scale := d.exponent - d.fraction.length
  let magnitude := scale + digits.length
  if digits.isEmpty || magnitude < 300 then true
  else if 320 < magnitude then false
  else
    let value := (Digits.read? 10 digits).getD 0
    let bound := Nat.pow 2 1024 - Nat.pow 2 970
    if 0 ≤ scale then value * Nat.pow 10 scale.toNat < bound
    else value < bound * Nat.pow 10 (-scale).toNat

/-- Whether a text is taken for a number with a point or an exponent, or for one
without an end. -/
def isFloat (text : String) : Bool :=
  let cs := text.toList
  let unsigned :=
    match cs with
    | '-' :: rest | '+' :: rest => rest
    | rest => rest
  [".inf", ".Inf", ".INF"].contains (String.ofList unsigned) ||
    [".nan", ".NaN", ".NAN"].contains text ||
    (!hasLeadingZero unsigned && (Decimal.read? unsigned).any (·.isFinite))

/-- Whether a text in quotes would be taken for something else without them, or
looks like a number. -/
def isAmbiguous (text : String) : Bool :=
  let unsigned :=
    match text.toList with
    | '-' :: rest | '+' :: rest => rest
    | rest => rest
  isNull text || isBool text || isInteger text || isFloat text || hasLeadingZero unsigned

end Yaml

end FramedDuplex
