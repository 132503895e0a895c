import FramedDuplex.Proofs.Codec.Window
import FramedDuplex.Proofs.Schema.Lengths
/-!
# What writing leaves of a message

Writing sets lengths, and only those that it can reach (`Codec.slot_serialize`):
whatever comes of it, every other value of the message is what it was.
-/

namespace FramedDuplex

variable [OwnTypes]

namespace Codec

variable {c : Codec} {s : Schema} {m m' : Message} {fields : List HeaderField} {body : Bytes}
variable {inner : Option Frame} {acquired : List ℕ} {path : List String} {type : ValueType}

/-- Setting the length of a header sets nothing but a length. -/
theorem slot_writeLength {n : ℕ} (h : Schema.writeLength fields n m = .ok m')
    (hpath : ¬ Schema.HeaderPlays (· = .length) fields path type) :
    m'.slot path type = m.slot path type := by
  rcases writeLength_ok h with ⟨-, rfl⟩ | ⟨l, v, hl, -, rfl⟩
  · rfl
  · have hne : ¬ (path = [l.name] ∧ ValueType.scalar (.int l.type) = type) := by
      rintro ⟨rfl, rfl⟩
      exact hpath (Schema.headerPlays_of_lengthFieldFrom hl)
    simp [Message.set, hne]

/-- Nor does writing the header before a body. -/
theorem slot_enclose (hpath : ¬ Schema.HeaderPlays (· = .length) fields path type) :
    (c.enclose fields body inner m acquired).message.slot path type = m.slot path type := by
  rw [enclose]
  split
  · rfl
  · split
    · rfl
    · next left hwrite =>
      have same : left.slot path type = m.slot path type := slot_writeLength hwrite hpath
      split <;> exact same

/-- **Writing sets nothing but the lengths that it can reach**, whether or not it
succeeds. -/
theorem slot_serialize (hpath : ¬ s.IsOpenLength path type) :
    (c.serialize s m).message.slot path type = m.slot path type := by
  induction s generalizing m path with
  | flat name header => exact slot_enclose hpath
  | withBody name header body =>
    rw [serialize]
    split
    · rfl
    · exact slot_enclose hpath
  | withMessage name header part inner ih =>
    have within : (if part.writable then
        m.setPart part.name (c.serialize inner (m.part part.name)).message else m).slot path type =
          m.slot path type := by
      split
      · next hset =>
        cases path with
        | nil => rfl
        | cons first rest =>
          by_cases hfirst : first = part.name
          · subst hfirst
            simp only [Message.setPart, if_true]
            exact ih fun hrest => hpath (.inr ⟨hset, rest, rfl, hrest⟩)
          · simp [Message.setPart, hfirst]
      · rfl
    rw [serialize]
    split
    · exact within
    · exact (slot_enclose fun hown => hpath (.inl hown)).trans within

/-- So writing the message inside sets no field of the message around it. -/
theorem get_part_serialize (s : Schema) (m : Message) (part : PartField) (field : String)
    (type : ValueType) :
    (if part.writable then m.setPart part.name (c.serialize s (m.part part.name)).message
      else m).get field type = m.get field type := by
  split
  · by_cases hname : field = part.name
    · subst hname
      simp only [Message.get, Message.setPart, if_true]
      exact slot_serialize fun h => h.isLength.ne_nil rfl
    · simp [Message.get, Message.setPart, hname]
  · rfl

end Codec

end FramedDuplex
