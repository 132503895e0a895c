import FramedDuplex.Text.Unprintable
import FramedDuplex.Bytes.LittleEndian
/-!
# Quoted text

Text between quotes, in one line and in visible characters: a quote or a
backslash stands behind a backslash, the common controls have letters, and any
other character that is not shown is written by its code point. Bytes between
quotes use the same letters and write other bytes as two digits.
-/

namespace FramedDuplex

namespace Quoted

/-- A character by its code point. -/
def codePoint (c : Char) : String :=
  "\\u\x7b" ++ String.ofList (Nat.toDigits 16 c.toNat) ++ "\x7d"

/-- A character as it stands between two quotes `quote`. -/
def escape (quote : Char) (c : Char) : String :=
  if c = '\x00' then "\\0"
  else if c = '\t' then "\\t"
  else if c = '\r' then "\\r"
  else if c = '\n' then "\\n"
  else if c = '\\' ∨ c = quote then "\\" ++ c.toString
  else if isUnprintable c then codePoint c
  else c.toString

/-- A text between double quotes. -/
def text (s : String) : String :=
  "\"" ++ String.join (s.toList.map (escape '"')) ++ "\""

/-- A character between single quotes. -/
def char (c : Char) : String :=
  "'" ++ escape '\'' c ++ "'"

/-- Two lower-case digits of a byte. -/
def hexPair (b : UInt8) : String :=
  String.ofList [Nat.digitChar (b.toNat / 16), Nat.digitChar (b.toNat % 16)]

/-- A byte as it stands between double quotes. -/
def escapeByte (b : UInt8) : String :=
  if b = 0x00 then "\\0"
  else if b = 0x09 then "\\t"
  else if b = 0x0D then "\\r"
  else if b = 0x0A then "\\n"
  else if b = 0x5C ∨ b = 0x22 then "\\" ++ (Char.ofNat b.toNat).toString
  else if 0x20 ≤ b ∧ b < 0x7F then (Char.ofNat b.toNat).toString
  else "\\x" ++ hexPair b

/-- Bytes between double quotes, marked as bytes. -/
def bytes (bs : Bytes) : String :=
  "b\"" ++ String.join (bs.map escapeByte) ++ "\""

end Quoted

end FramedDuplex
