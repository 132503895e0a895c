import FramedDuplex.Proofs.Codec.LaidOut
import FramedDuplex.Proofs.Codec.Prepared
import FramedDuplex.Proofs.Codec.RoundTrip
/-!
# Which lengths writing overwrites

Writing works from the inside out, and may fail at any level after the levels
inside it have been measured. What it leaves of the message can be said level by
level all the same (`Codec.Counts`): a length is overwritten exactly if what
follows its header could be encoded, the limits admit that, and the type of the
length has the number; else it is what the caller set (`Codec.spares_of_prepare`).
-/

namespace FramedDuplex

variable [OwnTypes]

namespace Message

/-- Two messages have the same values, those of the messages inside them included. -/
def Alike (m other : Message) : Prop :=
  ∀ first rest type, m.slot (first :: rest) type = other.slot (first :: rest) type

variable {m other : Message}

theorem Alike.get (h : m.Alike other) (field : String) (type : ValueType) :
    m.get field type = other.get field type :=
  h field [] type

theorem Alike.part (h : m.Alike other) (field : String) : m.part field = other.part field := by
  ext path type
  exact h field path type

end Message

namespace Schema

/-- A fact of a message and of what is left of it, at every level that is reached
through messages that can be set. -/
def ThroughOpen (P : Schema → Message → Message → Prop) : Schema → Message → Message → Prop
  | flat name header, m, left => P (flat name header) m left
  | withBody name header body, m, left => P (withBody name header body) m left
  | withMessage name header part inner, m, left =>
    P (withMessage name header part inner) m left ∧
      (part.writable = true → inner.ThroughOpen P (m.part part.name) (left.part part.name))

end Schema

namespace Codec

variable {c : Codec} {s : Schema} {l : Layout} {m left other : Message} {type : IntType}
variable {fields : List HeaderField} {body : Bytes} {inner : Option Frame} {acquired : List ℕ}
variable {frame : Frame}

/-! ## What a length has to say -/

/-- An integer says how many bytes follow the header of a message: they could be
encoded, the limits admit them, and it is their number. -/
def Sizes (c : Codec) (s : Schema) (m : Message) (type : IntType)
    (v : (Scalar.int type).Carrier) : Prop :=
  ∃ bs, c.Follows s m bs ∧ c.Admits s bs.length ∧ type.value v = bs.length

/-- Every length of a level says how many bytes follow its header. -/
def Measures (c : Codec) (s : Schema) (m left : Message) : Prop :=
  ∀ f ∈ s.header, ∀ type, f.content = .length type →
    c.Sizes s m type (left.get f.name (.scalar (.int type)))

/-- **Every length of a level says how many bytes follow its header, if one can**;
else it is what it was. -/
def Counts (c : Codec) (s : Schema) (m left : Message) : Prop :=
  ∀ f ∈ s.header, ∀ type, f.content = .length type →
    (∀ v, c.Sizes s m type v → left.get f.name (.scalar (.int type)) = v) ∧
      ((∀ v, ¬ c.Sizes s m type v) →
        left.get f.name (.scalar (.int type)) = m.get f.name (.scalar (.int type)))

/-- What follows a header is one thing. -/
theorem Follows.unique {bs other : Bytes} (h : c.Follows s m bs) (h' : c.Follows s m other) :
    bs = other := by
  cases h with
  | nothing =>
    cases h'
    rfl
  | body hbs =>
    cases h' with
    | body hother => exact Except.ok.inj (hbs.symm.trans hother)
  | message hlaid =>
    cases h' with
    | message hother =>
      rw [← serialize_eq_ok_iff] at hlaid hother
      rw [Except.ok.inj (hlaid.symm.trans hother)]

/-! ## One level -/

/-- Setting the length sets every length field, since there is one at most. -/
theorem Measured.set_of_mem {n : ℕ} {f : HeaderField} (h : Measured s n m left)
    (one : s.OneLength) (hf : f ∈ s.header) (hcontent : f.content = .length type) :
    ∃ v, type.value v = n ∧ left = m.set f.name (.scalar (.int type)) v := by
  obtain ⟨offset, hfield⟩ := Schema.lengthFieldFrom_of_mem 0 one.here hf hcontent
  cases h with
  | nothing hnone =>
    rw [Schema.lengthField?, hfield] at hnone
    cases hnone
  | length hl hv =>
    rw [Schema.lengthField?, hfield] at hl
    obtain rfl := Option.some.inj hl
    exact ⟨_, hv, rfl⟩

/-- Where a message was written, its lengths were. -/
theorem Counts.measures (h : c.Counts s m left) (one : s.OneLength) (hlaid : c.LaidOut s m frame) :
    c.Measures s m left := by
  intro f hf type hcontent
  obtain ⟨bs, ws, hfollows, ⟨hadmits, m', hm', -⟩, -⟩ := hlaid.parts
  obtain ⟨v, hv, -⟩ := hm'.set_of_mem one hf hcontent
  have sized : c.Sizes s m type v := ⟨bs, hfollows, hadmits, hv⟩
  rwa [(h f hf type hcontent).1 v sized]

/-! ## Every level -/

/-- What writing a message leaves of it. -/
structure Spares (c : Codec) (s : Schema) (m : Message) : Prop where
  /-- Every value but a length is what it was, at every level, whatever came of the
  writing. -/
  payload : ∀ path type, ¬ s.IsLength path type →
    (c.serialize s m).message.slot path type = m.slot path type
  /-- So is the key, unless the identifier is a length as well. -/
  key : (∀ field type, s.identifier? = some (field, type) → ¬ s.IsLength [field] type) →
    s.keyOf (c.serialize s m).message = s.keyOf m
  /-- So is everything in a message that cannot be set, its lengths included. -/
  readOnly : ∀ path type, s.IsSealed path →
    (c.serialize s m).message.slot path type = m.slot path type
  /-- Whatever came of the writing, a length that can be reached is the number of bytes
  that follow its header if those could be encoded, the limits admit them and its type
  has the number. Else it is what it was. -/
  counts : s.ThroughOpen c.Counts m (c.serialize s m).message
  /-- If writing succeeded, each of them is that number. -/
  measures : ∀ frame, (c.serialize s m).outcome = .ok frame →
    s.ThroughOpen c.Measures m (c.serialize s m).message

end Codec

end FramedDuplex

namespace FramedDuplex.Codec

/-- A ticket of number 7 with two bytes. -/
def ticket : Message :=
  (Message.blank.set "n" (.scalar (.int ⟨.w32, false⟩)) 7#32).set "b" .bytes [1, 2]

end FramedDuplex.Codec
