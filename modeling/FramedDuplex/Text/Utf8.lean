import FramedDuplex.Bytes.LittleEndian
/-!
# Text as bytes

`Utf8.encode` writes a text and `Utf8.decode` reads one. Bytes that are no text
are refused at the first place where no text can go on: either a sequence is
broken, and the fault says how many of its bytes still made sense, or the bytes
end in the middle of a sequence.
-/

namespace FramedDuplex

namespace Utf8

/-- Why bytes are no text. -/
inductive Fault
  /-- From `index` on, `length` bytes begin no character. -/
  | malformed (length index : Nat)
  /-- The bytes end inside the character that begins at `index`. -/
  | incomplete (index : Nat)
deriving DecidableEq, Repr

/-- A fault in words. -/
def Fault.message : Fault → String
  | malformed length index => s!"invalid utf-8 sequence of {length} bytes from index {index}"
  | incomplete index => s!"incomplete utf-8 byte sequence from index {index}"

/-- The bytes of a text. -/
def encode (s : String) : Bytes :=
  s.toByteArray.data.toList

/-- Any byte that continues a character. -/
abbrev continuation : UInt8 × UInt8 := (0x80, 0xBF)

/-- The ranges in which the bytes after a character's first byte lie, if a
character can begin with that byte. The first of them is narrower where a
longer or shorter form, or a surrogate, would be written. -/
def following? (lead : UInt8) : Option (List (UInt8 × UInt8)) :=
  if lead < 0x80 then some []
  else if lead < 0xC2 then none
  else if lead < 0xE0 then some [continuation]
  else if lead = 0xE0 then some [(0xA0, 0xBF), continuation]
  else if lead = 0xED then some [(0x80, 0x9F), continuation]
  else if lead < 0xF0 then some [continuation, continuation]
  else if lead = 0xF0 then some [(0x90, 0xBF), continuation, continuation]
  else if lead < 0xF4 then some [continuation, continuation, continuation]
  else if lead = 0xF4 then some [(0x80, 0x8F), continuation, continuation]
  else none

/-- The first fault of the bytes after position `start + seen`, where a
character that began at `start` has shown `seen` bytes and needs one more in
each of the ranges `owed`. -/
def firstFault (start seen : Nat) (owed : List (UInt8 × UInt8)) : Bytes → Option Fault
  | [] => if owed.isEmpty then none else some (.incomplete start)
  | b :: bs =>
    match owed with
    | [] =>
      match following? b with
      | none => some (.malformed 1 start)
      | some [] => firstFault (start + 1) 0 [] bs
      | some (range :: later) => firstFault start 1 (range :: later) bs
    | (low, high) :: later =>
      if low ≤ b ∧ b ≤ high then
        match later with
        | [] => firstFault (start + seen + 1) 0 [] bs
        | range :: later => firstFault start (seen + 1) (range :: later) bs
      else
        some (.malformed seen start)

/-- The text that bytes stand for, or their first fault. -/
def decode (bs : Bytes) : Except Fault String :=
  match String.fromUTF8? ⟨bs.toArray⟩ with
  | some s => .ok s
  | none => .error ((firstFault 0 0 [] bs).getD (.incomplete bs.length))

end Utf8

end FramedDuplex
