import FramedDuplex.Codec.Basic
/-!
# Writing messages

A frame is the windows of the header fields one after the other, each filled up
with zero bytes and reversed where the schema says so, and then the body. The
length field is set to the size of the body before the header is written, so
writing changes the message, and changes nothing else of it.

The steps come in this order, and the first that fails ends the writing: the
body (for a message inside the message, its whole writing), the limit on its
size, its length as a value of the length field, the header field by field.
-/

namespace FramedDuplex

/-- A written message, with the written message inside it. -/
inductive Frame where
  | flat (bytes : Bytes)
  | around (bytes : Bytes) (inner : Frame)

namespace Frame

/-- All bytes of a frame, those of the frame inside it included. -/
def bytes : Frame → Bytes
  | flat bytes => bytes
  | around bytes _ => bytes

/-- The frame inside a frame. -/
def inner? : Frame → Option Frame
  | flat _ => none
  | around _ inner => some inner

/-- A frame of some bytes around another or around none. -/
def of (bytes : Bytes) : Option Frame → Frame
  | none => flat bytes
  | some inner => around bytes inner

@[simp] theorem bytes_of (bs : Bytes) (inner : Option Frame) : (of bs inner).bytes = bs := by
  cases inner <;> rfl

end Frame

variable [OwnTypes]

/-- What writing a message leaves. -/
structure Serialized where
  outcome : Except CodecError Frame
  /-- The message with its length fields overwritten as far as the writing got. -/
  message : Message
  /-- The sizes of the buffers taken for it, innermost first. -/
  acquired : List Nat

namespace Schema

/-- The message with its length field set to `n`. -/
def writeLength (header : List HeaderField) (n : Nat) (m : Message) : Except CodecError Message :=
  match lengthFieldFrom 0 header with
  | none => .ok m
  | some f =>
    match f.type.ofLength? n with
    | none => .error (.lengthOutOfRange n)
    | some v => .ok (m.set f.name (.scalar (.int f.type)) v)

end Schema

namespace Codec

/-- The window of one header field. -/
def window (c : Codec) (m : Message) (f : HeaderField) : Except CodecError Bytes :=
  match c.registry.encode f.type (m.get f.name f.type) with
  | .error fault => .error fault
  | .ok bs =>
    if f.length < bs.length then .error (.fieldOverflow f.name f.length bs.length)
    else .ok (Bytes.orient f.reversed (Bytes.padTo f.length bs))

/-- The windows of a header, one after the other. -/
def header (c : Codec) (m : Message) : List HeaderField → Except CodecError Bytes
  | [] => .ok []
  | f :: rest =>
    match c.window m f with
    | .error fault => .error fault
    | .ok w =>
      match c.header m rest with
      | .error fault => .error fault
      | .ok ws => .ok (w ++ ws)

/-- Writes the header before a body that is written already. -/
def enclose (c : Codec) (fields : List HeaderField) (body : Bytes) (inner : Option Frame)
    (m : Message) (acquired : List Nat) : Serialized :=
  match c.frameLength (Schema.sizeOf fields) body.length with
  | .error fault => ⟨.error fault, m, acquired⟩
  | .ok total =>
    match Schema.writeLength fields body.length m with
    | .error fault => ⟨.error fault, m, acquired⟩
    | .ok m =>
      match c.header m fields with
      | .error fault => ⟨.error fault, m, acquired ++ [total]⟩
      | .ok head => ⟨.ok (Frame.of (head ++ body) inner), m, acquired ++ [total]⟩

/-- Writes a message of a schema. -/
def serialize (c : Codec) : Schema → Message → Serialized
  | .flat _ fields, m => c.enclose fields [] none m []
  | .withBody _ fields body, m =>
    match c.registry.encode body.type (m.get body.name body.type) with
    | .error fault => ⟨.error fault, m, []⟩
    | .ok bs => c.enclose fields (Bytes.orient body.reversed bs) none m []
  | .withMessage _ fields part inner, m =>
    let written := c.serialize inner (m.part part.name)
    let m := if part.writable then m.setPart part.name written.message else m
    match written.outcome with
    | .error fault => ⟨.error fault, m, written.acquired⟩
    | .ok frame =>
      c.enclose fields (Bytes.orient part.reversed frame.bytes) (some frame) m written.acquired

end Codec

end FramedDuplex
