import FramedDuplex.Bytes.InPlace
import FramedDuplex.Codec.Serialize
import FramedDuplex.Pool.Basic
/-!
# Writing into buffers of a pool

A frame is written into a buffer from a pool. The buffer is emptied and filled up with
zero bytes to the length of the frame; the bytes of each field are copied to the front of
its window, which is then turned around where its byte order is reversed; and at last the
body is copied behind the header and turned likewise. A message inside the message is
written first, into a buffer of its own, and its bytes are copied from there; the buffer
stays with the frame.

When the writing fails after a buffer was taken, the buffer is dropped.
-/

namespace FramedDuplex

variable [OwnTypes]

/-- A pool, and the bytes that were left in its buffers, by their serial numbers. -/
structure Arena where
  pool : Pool
  left : Nat → Bytes

/-- Takes a buffer of at least a capacity, and empties it. -/
def Arena.acquire (a : Arena) (capacity : Nat) : Buffer × Bytes × Arena :=
  let (b, pool) := a.pool.acquire capacity
  (b, (a.left b.serial).resize 0, { a with pool })

/-- A frame in the buffer it was written into: the bytes of the buffer, how many of them
are the frame, and the frame inside it in a buffer of its own. -/
inductive Packed where
  | flat (buffer : Buffer) (content : Bytes) (length : Nat)
  | around (buffer : Buffer) (content : Bytes) (length : Nat) (inner : Packed)

namespace Packed

/-- A frame around another or around none. -/
def of (buffer : Buffer) (content : Bytes) (length : Nat) : Option Packed → Packed
  | none => flat buffer content length
  | some inner => around buffer content length inner

/-- The bytes of the frame. -/
def bytes : Packed → Bytes
  | flat _ content length => content.take length
  | around _ content length _ => content.take length

/-- How long the frame is. -/
def length : Packed → Nat
  | flat _ _ length => length
  | around _ _ length _ => length

/-- Gives the buffers back to a pool: that of the frame inside first. -/
def release (pool : Pool) : Packed → Pool
  | flat buffer _ _ => pool.release buffer
  | around buffer _ _ inner => (inner.release pool).release buffer

end Packed

/-- What writing into buffers leaves. -/
structure Loaded where
  outcome : Except CodecError Packed
  message : Message
  arena : Arena

namespace Codec

/-- Writes header fields into their windows, the first of which begins at `offset`. -/
def fill (c : Codec) (m : Message) (offset : Nat) :
    List HeaderField → Bytes → Except CodecError Bytes
  | [], content => .ok content
  | f :: rest, content =>
    match c.registry.encode f.type (m.get f.name f.type) with
    | .error fault => .error fault
    | .ok value =>
      if f.length < value.length then
        .error (.fieldOverflow f.name f.length value.length)
      else
        let content := content.copyAt offset value
        let content := if f.reversed then content.reverseAt offset f.length else content
        c.fill m (offset + f.length) rest content

/-- Takes a buffer, and writes the header and then the body into it. -/
def load (c : Codec) (fields : List HeaderField) (body : Bytes) (reversed : Bool)
    (inner : Option Packed) (m : Message) (a : Arena) : Loaded :=
  match c.frameLength (Schema.sizeOf fields) body.length with
  | .error fault => ⟨.error fault, m, a⟩
  | .ok total =>
    match Schema.writeLength fields body.length m with
    | .error fault => ⟨.error fault, m, a⟩
    | .ok m =>
      let (buffer, content, a) := a.acquire total
      match c.fill m 0 fields (content.resize total) with
      | .error fault => ⟨.error fault, m, a⟩
      | .ok content =>
        let content := content.copyAt (Schema.sizeOf fields) body
        let content :=
          if reversed then content.reverseAt (Schema.sizeOf fields) body.length else content
        ⟨.ok (Packed.of buffer content total inner), m, a⟩

/-- Writes a message of a schema into buffers. -/
def serializeIn (c : Codec) : Schema → Message → Arena → Loaded
  | .flat _ fields, m, a => c.load fields [] false none m a
  | .withBody _ fields body, m, a =>
    match c.registry.encode body.type (m.get body.name body.type) with
    | .error fault => ⟨.error fault, m, a⟩
    | .ok bs => c.load fields bs body.reversed none m a
  | .withMessage _ fields part inner, m, a =>
    let written := c.serializeIn inner (m.part part.name) a
    let m := if part.writable then m.setPart part.name written.message else m
    match written.outcome with
    | .error fault => ⟨.error fault, m, written.arena⟩
    | .ok packed => c.load fields packed.bytes part.reversed (some packed) m written.arena

end Codec

end FramedDuplex
