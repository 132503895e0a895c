import FramedDuplex.Converter.Registry
import FramedDuplex.Schema.Build
import FramedDuplex.Message
/-!
# Codecs

A codec is a registry of converters and a limit on the bytes after a header.
`Codec.prepare` gives the schema of a layout if the codec can write its
messages: every type that needs a converter has one, and so has every scalar in
a field narrower than the scalar. `Codec.prepareDecoder` asks besides that
reading can set every message inside the message.
-/

namespace FramedDuplex

variable [OwnTypes]

/-- What is needed to write and read messages. -/
structure Codec where
  registry : Registry
  /-- The most bytes that may follow a header. -/
  maxBody : Nat

namespace Codec

/-- The limit that a codec has unless told otherwise. -/
def defaultMaxBody : Nat := 16 * 1024 * 1024

/-- Sizes are counted in words of 64 bits. -/
def sizeBound : Nat := UInt64.size

/-- What the converters lack for a schema. -/
def lack? (c : Codec) (s : Schema) : Option SchemaError :=
  match s.customTypes.find? fun type => !c.registry.contains type with
  | some type => some (.missingConverter type.name)
  | none =>
    (s.narrowFields.find? fun f => !c.registry.contains (.scalar f.kind)).map fun f =>
      .fieldTooNarrow f.owner f.field f.declared f.kind.width

/-- The schema of a layout whose messages the codec can write. -/
def prepare (c : Codec) (l : Layout) : Except SchemaError Schema :=
  match Schema.ofLayout l with
  | .error fault => .error fault
  | .ok s =>
    match c.lack? s with
    | some fault => .error fault
    | none => .ok s

/-- The schema of a layout whose messages the codec can write and read. -/
def prepareDecoder (c : Codec) (l : Layout) : Except SchemaError Schema :=
  match c.prepare l with
  | .error fault => .error fault
  | .ok s =>
    match s.undecodable? with
    | some fault => .error fault
    | none => .ok s

/-- The bytes of a frame with `fixed` bytes of header and `body` bytes after
it, if the limits allow it. -/
def frameLength (c : Codec) (fixed body : Nat) : Except CodecError Nat :=
  if c.maxBody < body ∨ sizeBound ≤ fixed + body then
    .error (.bodyTooLarge body c.maxBody)
  else
    .ok (fixed + body)

theorem frameLength_eq_of_ok {c : Codec} {fixed body total : Nat}
    (h : c.frameLength fixed body = .ok total) : total = fixed + body := by
  unfold frameLength at h
  split at h
  · cases h
  · cases h; rfl

end Codec

end FramedDuplex
