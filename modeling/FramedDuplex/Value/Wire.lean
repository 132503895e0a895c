import FramedDuplex.Value.Type
import FramedDuplex.Codec.Error
/-!
# Values on the wire

What a value is written as when no converter is registered for its type:
a scalar in as many bytes as it is wide, least significant first, and bytes as
they are. Reading takes the leading bytes of a window and ignores the rest of
it, so a scalar may stand in a wider field.

Lengths are integers too, and not every integer is a length
(`IntType.toLength?`) nor every length an integer of a given word
(`IntType.ofLength?`).
-/

namespace FramedDuplex

namespace Scalar

/-- The bytes of a scalar. -/
def encode : (kind : Scalar) → kind.Carrier → Bytes
  | int type, v => Bytes.ofNatLE type.size.bytes v.toNat
  | wide _, v => Bytes.ofNatLE 16 v.toNat
  | float32, v => Bytes.ofNatLE 4 v.toNat
  | float64, v => Bytes.ofNatLE 8 v.toNat
  | bool, v => [if v then 1 else 0]
  | char, v => Bytes.ofNatLE 4 v.toNat

/-- **A scalar's bytes are as many as it is wide.** -/
@[simp] theorem length_encode (kind : Scalar) (v : kind.Carrier) :
    (kind.encode v).length = kind.width := by
  cases kind <;> simp [encode, width]

/-- A number in the digits that name a code point. -/
def hexText (n : Nat) : String :=
  "0x" ++ String.ofList (Nat.toDigits 16 n)

/-- The scalar that exactly `width` bytes stand for. Every pattern is one,
except that a character is no surrogate and lies in the code space. -/
def decode : (kind : Scalar) → Bytes → Except CodecError kind.Carrier
  | int type, bs => .ok (BitVec.ofNat type.size.bits (Bytes.toNatLE bs))
  | wide _, bs => .ok (BitVec.ofNat 128 (Bytes.toNatLE bs))
  | float32, bs => .ok (BitVec.ofNat 32 (Bytes.toNatLE bs))
  | float64, bs => .ok (BitVec.ofNat 64 (Bytes.toNatLE bs))
  | bool, bs => .ok (Bytes.toNatLE bs != 0)
  | char, bs =>
    let code := Bytes.toNatLE bs
    if code.isValidChar then
      .ok (Char.ofNat code)
    else
      .error (.invalidValue "char" s!"{hexText code} is not a Unicode scalar value")

end Scalar

namespace IntType

/-- How many lengths an integer type can count. -/
def lengths (type : IntType) : Nat :=
  1 <<< (type.size.bits - if type.signed then 1 else 0)

/-- The integer that says a length, if the type reaches it. -/
def ofLength? (type : IntType) (n : Nat) : Option (Scalar.int type).Carrier :=
  if n < type.lengths then some (BitVec.ofNat type.size.bits n) else none

/-- The length an integer says; a negative one says none. -/
def toLength? (type : IntType) (v : (Scalar.int type).Carrier) : Option Nat :=
  if v.toNat < type.lengths then some v.toNat else none

/-- **A length that was written is read back.** -/
theorem toLength?_of_ofLength? {type : IntType} {n : Nat} {v : (Scalar.int type).Carrier}
    (h : type.ofLength? n = some v) : type.toLength? v = some n := by
  unfold ofLength? at h
  split at h
  · next hn =>
    cases h
    have hle : type.lengths ≤ 2 ^ type.size.bits := by
      rw [lengths, Nat.one_shiftLeft]
      exact Nat.pow_le_pow_right (by decide) (Nat.sub_le _ _)
    have hmod : n % 2 ^ type.size.bits = n := Nat.mod_eq_of_lt (by omega)
    simp [toLength?, hmod, hn]
  · cases h

end IntType

variable [OwnTypes]

namespace ValueType

/-- The bytes of a value whose type needs no converter. -/
def encode : (type : ValueType) → type.Carrier → Except CodecError Bytes
  | scalar kind, v => .ok (kind.encode v)
  | bytes, v => .ok v
  | sharedBytes, v => .ok v
  | text, _ => .error (.schema (.missingConverter text.name))
  | uuid, _ => .error (.schema (.missingConverter uuid.name))
  | instant, _ => .error (.schema (.missingConverter instant.name))
  | custom name, _ => .error (.schema (.missingConverter name))

/-- The value that a window of the field `field` holds, for a type that needs
no converter. -/
def decode (field : String) : (type : ValueType) → Bytes → Except CodecError type.Carrier
  | scalar kind, window =>
    if window.length < kind.width then
      .error (.fieldTooShort field window.length kind.width)
    else
      kind.decode (window.take kind.width)
  | bytes, window => .ok window
  | sharedBytes, window => .ok window
  | text, _ => .error (.schema (.missingConverter text.name))
  | uuid, _ => .error (.schema (.missingConverter uuid.name))
  | instant, _ => .error (.schema (.missingConverter instant.name))
  | custom name, _ => .error (.schema (.missingConverter name))

end ValueType

end FramedDuplex
