import FramedDuplex.Converter.Registry
import FramedDuplex.Text.Utf8
/-!
# The standard converters

Text is written as UTF-8 and filled up with zero bytes in a fixed field;
a universally unique identifier is its sixteen bytes; an instant is its count
of milliseconds as a signed number of eight bytes.

Nothing is standard about an application's own types. One that does not say what
they are has numbers there (`OwnTypes.standard`).
-/

namespace FramedDuplex

/-- Own types that each wrap a 32-bit number. -/
instance OwnTypes.standard : OwnTypes where
  Carrier _ := BitVec 32
  blank _ := 0
  decEq _ := inferInstanceAs (DecidableEq (BitVec 32))
  render name v := s!"{name}({v.toNat})"

variable [OwnTypes]

namespace Converter

/-- Text, as UTF-8. -/
def text : Converter .text where
  encode s := .ok (Utf8.encode s)
  decode bs := (Utf8.decode bs).mapError (.refused ·.message)
  padded := true

/-- A unique identifier, as its sixteen bytes. -/
def uuid : Converter .uuid where
  encode id := .ok id.toList
  decode bs :=
    if h : bs.length = 16 then
      .ok ⟨bs.toArray, by simp [h]⟩
    else
      .error (.refused s!"invalid length: expected 16 bytes, found {bs.length}")

/-- An instant, as its count of milliseconds. What follows the eight bytes is
ignored. -/
def instant : Converter .instant where
  encode t := .ok (Bytes.ofNatLE 8 (BitVec.ofInt 64 t.millis).toNat)
  decode bs :=
    if bs.length < 8 then
      .error (.refused "timestamp needs 8 bytes")
    else
      let ms := (BitVec.ofNat 64 (Bytes.toNatLE (bs.take 8))).toInt
      match Instant.ofMillis? ms with
      | some t => .ok t
      | none => .error (.refused s!"timestamp {ms} out of range")

end Converter

namespace Registry

/-- With the converter for text. -/
def withStrings (r : Registry) : Registry := r.register Converter.text

/-- With the converter for unique identifiers. -/
def withUuids (r : Registry) : Registry := r.register Converter.uuid

/-- With the converter for instants. -/
def withInstants (r : Registry) : Registry := r.register Converter.instant

/-- The three standard converters. -/
def standard : Registry := empty.withStrings.withUuids.withInstants

end Registry

end FramedDuplex
