import FramedDuplex.Time.Instant
/-!
# Value types

The types a field of a message can have, and what a value of each of them is
(`ValueType.Carrier`). Scalars have a fixed width on the wire; byte containers
are copied; text, identifiers, instants and an application's own types need a
converter. What the application's own types are is for the application to say
(`OwnTypes`).

An integer is the bit pattern of its machine word, and a floating-point number
is its bit pattern too: nothing here computes with them.
-/

namespace FramedDuplex

/-- The sizes of the machine words that a length can be counted in. -/
inductive WordSize
  | w8 | w16 | w32 | w64
deriving DecidableEq, Repr

/-- A word's size in bytes. -/
def WordSize.bytes : WordSize → Nat
  | w8 => 1
  | w16 => 2
  | w32 => 4
  | w64 => 8

/-- A word's size in bits. -/
abbrev WordSize.bits (size : WordSize) : Nat := 8 * size.bytes

/-- The integers of one machine word. -/
structure IntType where
  size : WordSize
  signed : Bool
deriving DecidableEq, Repr

/-- The types with a built-in encoding of fixed width. -/
inductive Scalar
  | int (type : IntType)
  /-- Integers of 128 bits. -/
  | wide (signed : Bool)
  | float32
  | float64
  | bool
  | char
deriving DecidableEq, Repr

namespace Scalar

/-- Bytes of an encoded value. -/
def width : Scalar → Nat
  | int type => type.size.bytes
  | wide _ => 16
  | float32 => 4
  | float64 => 8
  | bool => 1
  | char => 4

/-- What a value of a scalar type is. -/
abbrev Carrier : Scalar → Type
  | int type => BitVec type.size.bits
  | wide _ => BitVec 128
  | float32 => BitVec 32
  | float64 => BitVec 64
  | bool => Bool
  | char => Char

/-- Zero, false or the code point zero. -/
def blank : (kind : Scalar) → kind.Carrier
  | int _ => (0 : BitVec _)
  | wide _ => (0 : BitVec 128)
  | float32 => (0 : BitVec 32)
  | float64 => (0 : BitVec 64)
  | bool => false
  | char => Char.ofNat 0

instance : (kind : Scalar) → DecidableEq kind.Carrier
  | int type => inferInstanceAs (DecidableEq (BitVec type.size.bits))
  | wide _ => inferInstanceAs (DecidableEq (BitVec 128))
  | float32 => inferInstanceAs (DecidableEq (BitVec 32))
  | float64 => inferInstanceAs (DecidableEq (BitVec 64))
  | bool => inferInstanceAs (DecidableEq Bool)
  | char => inferInstanceAs (DecidableEq Char)

/-- A scalar's name in a schema. -/
def label : Scalar → String
  | int ⟨.w8, false⟩ => "U8"
  | int ⟨.w8, true⟩ => "I8"
  | int ⟨.w16, false⟩ => "U16"
  | int ⟨.w16, true⟩ => "I16"
  | int ⟨.w32, false⟩ => "U32"
  | int ⟨.w32, true⟩ => "I32"
  | int ⟨.w64, false⟩ => "U64"
  | int ⟨.w64, true⟩ => "I64"
  | wide false => "U128"
  | wide true => "I128"
  | float32 => "F32"
  | float64 => "F64"
  | bool => "Bool"
  | char => "Char"

/-- A scalar's name in messages. -/
def name : Scalar → String
  | int ⟨.w8, false⟩ => "u8"
  | int ⟨.w8, true⟩ => "i8"
  | int ⟨.w16, false⟩ => "u16"
  | int ⟨.w16, true⟩ => "i16"
  | int ⟨.w32, false⟩ => "u32"
  | int ⟨.w32, true⟩ => "i32"
  | int ⟨.w64, false⟩ => "u64"
  | int ⟨.w64, true⟩ => "i64"
  | wide false => "u128"
  | wide true => "i128"
  | float32 => "f32"
  | float64 => "f64"
  | bool => "bool"
  | char => "char"

end Scalar

/-- The types that an application brings along, known by their names. -/
class OwnTypes where
  /-- What a value of a type is. -/
  Carrier : String → Type
  /-- The value a field has before anyone sets it. -/
  blank : (name : String) → Carrier name
  /-- Values are equal or they are not. -/
  decEq : (name : String) → DecidableEq (Carrier name)
  /-- A value in words. -/
  render : (name : String) → Carrier name → String

/-- The types a field can have. -/
inductive ValueType
  | scalar (kind : Scalar)
  /-- Bytes, copied as they are. -/
  | bytes
  /-- Bytes behind a shared handle, copied as they are. -/
  | sharedBytes
  | text
  | uuid
  | instant
  /-- An application's own type. -/
  | custom (name : String)
deriving DecidableEq, Repr

namespace ValueType

section Values

variable [OwnTypes]

/-- What a value of a type is. -/
abbrev Carrier : ValueType → Type
  | scalar kind => kind.Carrier
  | bytes => Bytes
  | sharedBytes => Bytes
  | text => String
  | uuid => Vector UInt8 16
  | instant => Instant
  | custom name => OwnTypes.Carrier name

/-- The value a field has before anyone sets it. -/
def blank : (type : ValueType) → type.Carrier
  | scalar kind => kind.blank
  | bytes => []
  | sharedBytes => []
  | text => ""
  | uuid => Vector.replicate 16 0
  | instant => Instant.epoch
  | custom name => OwnTypes.blank name

instance : (type : ValueType) → DecidableEq type.Carrier
  | scalar kind => inferInstanceAs (DecidableEq kind.Carrier)
  | bytes => inferInstanceAs (DecidableEq Bytes)
  | sharedBytes => inferInstanceAs (DecidableEq Bytes)
  | text => inferInstanceAs (DecidableEq String)
  | uuid => inferInstanceAs (DecidableEq (Vector UInt8 16))
  | instant => inferInstanceAs (DecidableEq Instant)
  | custom name => OwnTypes.decEq name

end Values

/-- A type's name in messages. -/
def name : ValueType → String
  | scalar kind => kind.name
  | bytes => "alloc::vec::Vec<u8>"
  | sharedBytes => "bytes::bytes::Bytes"
  | text => "alloc::string::String"
  | uuid => "uuid::Uuid"
  | instant => "chrono::datetime::DateTime<chrono::offset::utc::Utc>"
  | custom name => name

/-- Whether values of a type are copied as they are. -/
def isRaw : ValueType → Bool
  | bytes | sharedBytes => true
  | _ => false

/-- Whether values of a type cannot be written without a converter. -/
def needsConverter : ValueType → Bool
  | scalar _ | bytes | sharedBytes => false
  | text | uuid | instant | custom _ => true

end ValueType

variable [OwnTypes]

/-- A value together with its type. -/
structure Value where
  type : ValueType
  data : type.Carrier

namespace Value

/-- Values are equal when both their types and what they hold are. -/
instance : DecidableEq Value := fun a b =>
  if h : a.type = b.type then
    if h' : h ▸ a.data = b.data then
      isTrue (by
        cases a; cases b
        cases h
        cases h'
        rfl)
    else
      isFalse (by
        intro e
        cases e
        exact h' rfl)
  else
    isFalse (fun e => h (e ▸ rfl))

end Value

end FramedDuplex
