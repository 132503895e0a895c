import FramedDuplex.Codec.Basic
/-!
# Reading frames

A frame says in its header how many bytes follow it. `Codec.decodeFrame` reads
a frame that is there whole and refuses one of any other length;
`Codec.decodeNext` takes the first frame off a buffer as soon as the buffer
holds it.
-/

namespace FramedDuplex

variable [OwnTypes]

/-- A frame that was read. -/
structure Decoded where
  key : Key
  message : Message
  /-- How many bytes the frame took. -/
  length : Nat

namespace Codec

/-- The number of bytes that a complete header announces. -/
def bodyLength (c : Codec) (fields : List HeaderField) (head : Bytes) : Except CodecError Nat :=
  match Schema.lengthFieldFrom 0 fields with
  | none => .ok 0
  | some f =>
    let window := Bytes.orient f.reversed ((head.drop f.offset).take f.length)
    match c.registry.decode f.name (.scalar (.int f.type)) window with
    | .error fault => .error fault
    | .ok v =>
      match f.type.toLength? v with
      | some n => .ok n
      | none => .error (.invalidValue (Scalar.int f.type).name "length field is negative")

/-- The length of the frame that begins with a complete header. -/
def announced (c : Codec) (s : Schema) (head : Bytes) : Except CodecError Nat :=
  match c.bodyLength s.header head with
  | .error fault => .error fault
  | .ok n => c.frameLength s.fixedSize n

/-- Sets the header fields from their windows, which stand one after the other. -/
def readHeader (c : Codec) (m : Message) : List HeaderField → Bytes → Except CodecError Message
  | [], _ => .ok m
  | f :: rest, bs =>
    match c.registry.decode f.name f.type (Bytes.orient f.reversed (bs.take f.length)) with
    | .error fault => .error fault
    | .ok v => c.readHeader (m.set f.name f.type v) rest (bs.drop f.length)

/-- The message in a frame that is there whole. -/
def readMessage (c : Codec) (s : Schema) (frame : Bytes) : Except CodecError Message :=
  if frame.length < s.fixedSize then
    .error (.frameLength s.fixedSize frame.length)
  else
    match c.announced s (frame.take s.fixedSize) with
    | .error fault => .error fault
    | .ok expected =>
      if frame.length ≠ expected then
        .error (.frameLength expected frame.length)
      else
        match c.readHeader .blank s.header frame with
        | .error fault => .error fault
        | .ok m =>
          let tail := frame.drop s.fixedSize
          match s with
          | .flat .. => .ok m
          | .withBody _ _ body =>
            match c.registry.decode body.name body.type (Bytes.orient body.reversed tail) with
            | .error fault => .error fault
            | .ok v => .ok (m.set body.name body.type v)
          | .withMessage _ _ part inner =>
            if part.writable then
              match c.readMessage inner (Bytes.orient part.reversed tail) with
              | .error fault => .error fault
              | .ok v => .ok (m.setPart part.name v)
            else
              .error (.notDecodable part.name)

/-- Reads a frame that is there whole. -/
def decodeFrame (c : Codec) (s : Schema) (frame : Bytes) : Except CodecError Decoded :=
  match c.readMessage s frame with
  | .error fault => .error fault
  | .ok m => .ok ⟨s.keyOf m, m, frame.length⟩

/-- Takes the first frame off a buffer: its reading, or nothing if it is not
there whole, and the buffer that is left. A frame that cannot be read is taken
off all the same, but a header that cannot be read stays. -/
def decodeNext (c : Codec) (s : Schema) (buffer : Bytes) :
    Except CodecError (Option Decoded) × Bytes :=
  if buffer.length < s.fixedSize then
    (.ok none, buffer)
  else
    match c.announced s (buffer.take s.fixedSize) with
    | .error fault => (.error fault, buffer)
    | .ok total =>
      if buffer.length < total then
        (.ok none, buffer)
      else
        ((c.decodeFrame s (buffer.take total)).map some, buffer.drop total)

end Codec

end FramedDuplex
