import FramedDuplex.Proofs.Codec.Left
import FramedDuplex.Proofs.Schema.Framed
import Mathlib.Data.List.Permutation
import Mathlib.Tactic.Set
/-!
# What was written is read

A frame that was written is read back as the message that the writing left, at
every depth of messages inside messages (`Codec.decodeFrame_serialize`). The
values have to be such that each comes back out of its own window
(`Schema.Restorable`); everything else the codec sees to itself: the length
read is the length written, both sides refuse the same sizes, and a turned
window is turned back.

A body that its converter reads otherwise than it was written comes back as it is
read (`Schema.ComesBack`), and the frame with it (`Codec.readMessage_of_comesBack`).

The induction is on the schema. Its hypothesis speaks of every path, registered
or not (`Schema.Renders`): what the schema registers is as it was written, what
it does not is blank.
-/

namespace FramedDuplex

variable [OwnTypes]

/-- At every level, each value of a message comes back out of its window. A
body's window is as long as the body. -/
def Schema.Restorable (r : Registry) : Schema → Message → Prop
  | flat _ header, m => ∀ f ∈ header, r.Restorable f.length f.type (m.get f.name f.type)
  | withBody _ header body, m =>
    (∀ f ∈ header, r.Restorable f.length f.type (m.get f.name f.type)) ∧
      r.Restorable 0 body.type (m.get body.name body.type)
  | withMessage _ header part inner, m =>
    (∀ f ∈ header, r.Restorable f.length f.type (m.get f.name f.type)) ∧
      inner.Restorable r (m.part part.name)

/-- What comes back of a message: at every level the header as it is, and a body as
its bytes are read. -/
def Schema.ComesBack (r : Registry) : Schema → Message → Message → Prop
  | flat _ header, m, back =>
    (∀ f ∈ header, r.Restorable f.length f.type (m.get f.name f.type)) ∧ back = m
  | withBody _ header body, m, back =>
    (∀ f ∈ header, r.Restorable f.length f.type (m.get f.name f.type)) ∧
      ∃ v, (∀ bs, r.encode body.type (m.get body.name body.type) = .ok bs →
          r.decode body.name body.type bs = .ok v) ∧ back = m.set body.name body.type v
  | withMessage _ header part inner, m, back =>
    (∀ f ∈ header, r.Restorable f.length f.type (m.get f.name f.type)) ∧
      ∃ within, inner.ComesBack r (m.part part.name) within ∧ back = m.setPart part.name within

/-- A message whose values come back comes back. -/
theorem Schema.Restorable.comesBack {r : Registry} {s : Schema} {m : Message}
    (h : s.Restorable r m) : s.ComesBack r m m := by
  induction s generalizing m with
  | flat name header => exact ⟨h, rfl⟩
  | withBody name header body =>
    refine ⟨h.1, m.get body.name body.type, fun bs hbs => ?_, (Message.set_get ..).symm⟩
    have read := Registry.decode_of_restorable h.2 hbs body.name
    rwa [Bytes.padTo_of_le (Nat.zero_le _)] at read
  | withMessage name header part inner ih =>
    exact ⟨h.1, m.part part.name, ih h.2, (Message.setPart_part ..).symm⟩

namespace Codec

variable {c : Codec} {s : Schema} {m : Message} {fields : List HeaderField}
variable {body head tail : Bytes} {frame : Frame}

/-- What is ready to be read: a schema of the layout in which every message
inside can be set. -/
theorem prepareDecoder_ok {l : Layout} (h : c.prepareDecoder l = .ok s) :
    Schema.ofLayout l = .ok s ∧ s.undecodable? = none := by
  rw [prepareDecoder, prepare] at h
  cases hmade : Schema.ofLayout l with
  | error fault => simp [hmade] at h
  | ok made =>
    cases hlack : c.lack? made with
    | some fault => simp [hmade, hlack] at h
    | none =>
      cases hset : made.undecodable? with
      | some fault => simp [hmade, hlack, hset] at h
      | none =>
        simp only [hmade, hlack, hset, Except.ok.injEq] at h
        exact ⟨congrArg Except.ok h, h ▸ hset⟩

/-! ## Writing the header before a body -/

/-- **What writing a header before a body leaves**, when it succeeds: the
length set, the header of the message so changed, and the body after it. -/
theorem enclose_ok {inner : Option Frame} {acquired : List ℕ}
    (h : (c.enclose fields body inner m acquired).outcome = .ok frame) :
    ∃ m' head, (c.enclose fields body inner m acquired).message = m' ∧
      c.frameLength (Schema.sizeOf fields) body.length =
        .ok (Schema.sizeOf fields + body.length) ∧
      Schema.writeLength fields body.length m = .ok m' ∧ c.header m' fields = .ok head ∧
      frame.bytes = head ++ body := by
  rw [enclose] at h ⊢
  cases hframe : c.frameLength (Schema.sizeOf fields) body.length with
  | error fault => simp [hframe] at h
  | ok total =>
    cases hwrite : Schema.writeLength fields body.length m with
    | error fault => simp [hframe, hwrite] at h
    | ok m' =>
      cases hhead : c.header m' fields with
      | error fault => simp [hframe, hwrite, hhead] at h
      | ok head =>
        simp only [hframe, hwrite, hhead, Except.ok.injEq] at h
        refine ⟨m', head, ?_, ?_, rfl, hhead, ?_⟩
        · simp [hhead]
        · rw [frameLength_eq_of_ok hframe]
        · rw [← h, Frame.bytes_of]

/-! ## Reading past the header -/

/-- **What reading does with a frame whose header is sound.** -/
theorem readMessage_append {read : Message} (hlen : head.length = s.fixedSize)
    (hann : c.announced s head = .ok (s.fixedSize + tail.length))
    (hread : c.readHeader .blank s.header (head ++ tail) = .ok read) :
    c.readMessage s (head ++ tail) =
      match s with
      | .flat .. => .ok read
      | .withBody _ _ body =>
        match c.registry.decode body.name body.type (Bytes.orient body.reversed tail) with
        | .error fault => .error fault
        | .ok v => .ok (read.set body.name body.type v)
      | .withMessage _ _ part inner =>
        if part.writable then
          match c.readMessage inner (Bytes.orient part.reversed tail) with
          | .error fault => .error fault
          | .ok v => .ok (read.setPart part.name v)
        else
          .error (.notDecodable part.name) := by
  -- the three checks on the length of a frame, which all come out well
  have whole : ¬ (head ++ tail).length < s.fixedSize := by
    rw [List.length_append]
    omega
  have front : (head ++ tail).take s.fixedSize = head := by rw [← hlen, List.take_left']; rfl
  have back : (head ++ tail).drop s.fixedSize = tail := by rw [← hlen, List.drop_left']; rfl
  have fits : ¬ (head ++ tail).length ≠ s.fixedSize + tail.length := by
    rw [List.length_append, hlen]
    exact not_not.mpr rfl
  rw [readMessage]
  simp only [whole, front, back, fits, hann, hread, if_false]
  cases s with
  | flat name header => rfl
  | withBody name header body =>
    cases c.registry.decode body.name body.type (Bytes.orient body.reversed tail) <;> rfl
  | withMessage name header part inner =>
    cases c.readMessage inner (Bytes.orient part.reversed tail) <;> rfl

/-- **A header that was written before a body opens the frame**: it announces
the body and gives its fields the values they were written with. -/
theorem opens_of_enclose (fields : List HeaderField) {owner : String} {inner : Option Frame}
    {acquired : List ℕ} (hs : s.header = fields)
    (h : (c.enclose fields body inner m acquired).outcome = .ok frame)
    (hnone : Schema.lengthFieldFrom 0 fields = none → body.length = 0)
    (hr : ∀ f ∈ fields, c.registry.Restorable f.length f.type
      ((c.enclose fields body inner m acquired).message.get f.name f.type)) :
    ∃ head read, frame.bytes = head ++ body ∧ head.length = s.fixedSize ∧
      c.announced s head = .ok (s.fixedSize + body.length) ∧
      c.readHeader .blank s.header (head ++ body) = .ok read ∧
      (Schema.flat owner fields).Renders read
        (c.enclose fields body inner m acquired).message := by
  subst hs
  obtain ⟨m', head, hm', hframe, hwrite, hhead, hbytes⟩ := enclose_ok h
  rw [hm'] at hr ⊢
  obtain ⟨read, hread, hin, hout⟩ := readHeader_header hhead hr .blank body
  refine ⟨head, read, hbytes, length_of_header hhead, ?_, hread, hin, hout⟩
  rw [announced, bodyLength_header hnone hwrite hhead hr]
  exact hframe

/-! ## The round trip -/

/-- A message of the schema is left one of the schema. -/
theorem covers_serialize (covers : s.Covers m) : s.Covers (c.serialize s m).message := by
  intro path type hpath
  rw [slot_serialize fun hlength => hpath hlength.isLength.registers, covers path type hpath]

/-- **Reading a written frame gives what comes back of the message that the
writing left**: where the schema registers a field, and blank elsewhere. -/
theorem readMessage_of_comesBack {back : Message} (framed : s.Framed) (distinct : s.NamesDistinct)
    (settable : s.undecodable? = none) (h : (c.serialize s m).outcome = .ok frame)
    (hback : s.ComesBack c.registry (c.serialize s m).message back) :
    ∃ read, c.readMessage s frame.bytes = .ok read ∧ s.Renders read back := by
  induction s generalizing m frame back with
  | flat name header =>
    rw [serialize] at h hback
    obtain ⟨hfields, rfl⟩ := hback
    obtain ⟨head, read, hbytes, hlen, hann, hread, hheader⟩ :=
      opens_of_enclose (s := .flat name header) header rfl h (fun _ => rfl) hfields
    refine ⟨read, ?_, hheader⟩
    rw [hbytes, readMessage_append hlen hann hread]
  | withBody name header body =>
    rw [serialize] at h hback
    cases hbody : c.registry.encode body.type (m.get body.name body.type) with
    | error fault => simp [hbody] at h
    | ok bs =>
      simp only [hbody] at h hback
      obtain ⟨hfields, v, hvalue, rfl⟩ := hback
      have long : Schema.lengthFieldFrom 0 header = none →
          (Bytes.orient body.reversed bs).length = 0 := by
        intro hnone
        exact absurd hnone (Option.isSome_iff_ne_none.mp framed)
      obtain ⟨head, read, hbytes, hlen, hann, hread, hheader⟩ :=
        opens_of_enclose (s := .withBody name header body) header rfl h long hfields
      set left := (c.enclose header (Bytes.orient body.reversed bs) none m []).message
      -- setting the length leaves the body what it was when it was encoded
      have kept : left.get body.name body.type = m.get body.name body.type :=
        slot_enclose fun hlength =>
          Schema.not_hasField_of_nodup_concat distinct [] hlength.hasField
      have value := hvalue bs (kept ▸ hbody)
      have hbeside : (Schema.flat name header).Renders read (left.set body.name body.type v) :=
        hheader.set (Schema.not_hasField_of_nodup_concat distinct []) v
      have hall := hbeside.withBody distinct
      rw [Message.get_set] at hall
      refine ⟨read.set body.name body.type v, ?_, hall⟩
      rw [hbytes, readMessage_append hlen hann hread]
      simp only [Bytes.orient_orient, value]
  | withMessage name header part inner ih =>
    obtain ⟨hsome, hinner⟩ := framed
    obtain ⟨hnodup, hdistinct⟩ := distinct
    -- a decoder is not prepared for a part that cannot be set
    have hset : part.writable = true := by
      by_contra hset
      simp [Schema.undecodable?, hset] at settable
    rw [Schema.undecodable?, if_pos hset] at settable
    rw [serialize] at h hback
    simp only [hset, if_true] at h hback
    cases hwritten : (c.serialize inner (m.part part.name)).outcome with
    | error fault => simp [hwritten] at h
    | ok written =>
      simp only [hwritten] at h hback
      set within := (c.serialize inner (m.part part.name)).message
      set bs := Bytes.orient part.reversed written.bytes
      set acquired := (c.serialize inner (m.part part.name)).acquired
      obtain ⟨hfields, returned, hvalue, rfl⟩ := hback
      have long : Schema.lengthFieldFrom 0 header = none → bs.length = 0 := by
        intro hnone
        exact absurd hnone (Option.isSome_iff_ne_none.mp hsome)
      obtain ⟨head, read, hbytes, hlen, hann, hread, hheader⟩ :=
        opens_of_enclose (s := .withMessage name header part inner) header rfl h long hfields
      set left := (c.enclose header bs (some written) (m.setPart part.name within) acquired).message
      -- setting the outer length leaves the inner message as its own writing left it
      have kept : left.part part.name = within := by
        ext path type
        have hpath : ¬ Schema.HasField header (part.name :: path) type :=
          Schema.not_hasField_of_nodup_concat hnodup path
        rw [Message.part, slot_enclose fun hlength => hpath hlength.hasField]
        simp [Message.setPart]
      rw [kept] at hvalue
      obtain ⟨inside, hinside, hrenders⟩ := ih hinner hdistinct settable hwritten hvalue
      have hpart : (left.setPart part.name returned).part part.name = returned :=
        Message.part_setPart ..
      rw [← hpart] at hrenders
      refine ⟨read.setPart part.name inside, ?_,
        (hheader.setPart hnodup returned).withMessage hnodup hrenders⟩
      rw [hbytes, readMessage_append hlen hann hread]
      simp only [bs, hset, if_true, Bytes.orient_orient, hinside]

/-- **Reading a written frame gives the message that the writing left**, if its
values come back. -/
theorem readMessage_serialize (framed : s.Framed) (distinct : s.NamesDistinct)
    (settable : s.undecodable? = none) (h : (c.serialize s m).outcome = .ok frame)
    (hr : s.Restorable c.registry (c.serialize s m).message) :
    ∃ read, c.readMessage s frame.bytes = .ok read ∧
      s.Renders read (c.serialize s m).message :=
  readMessage_of_comesBack framed distinct settable h hr.comesBack

/-- **What was written is read.** For every layout with a schema that the codec
can write and read, and every message of that schema whose values come back out
of their windows: if writing succeeds, then reading exactly the bytes written
succeeds, with the message that the writing left, its key, and the number of
the bytes. -/
theorem decodeFrame_serialize {l : Layout} (prepared : c.prepareDecoder l = .ok s)
    (distinct : s.NamesDistinct) (covers : s.Covers m)
    (h : (c.serialize s m).outcome = .ok frame)
    (hr : s.Restorable c.registry (c.serialize s m).message) :
    c.decodeFrame s frame.bytes =
      .ok ⟨s.keyOf (c.serialize s m).message, (c.serialize s m).message, frame.bytes.length⟩ := by
  obtain ⟨made, settable⟩ := prepareDecoder_ok prepared
  have framed := Schema.framed_of_ofLayout l s made
  obtain ⟨read, hread, hrenders⟩ := readMessage_serialize framed distinct settable h hr
  obtain rfl := hrenders.eq (covers_serialize covers)
  rw [decodeFrame, hread]

end Codec

end FramedDuplex

namespace FramedDuplex.Codec

/-! ## A letter in an envelope

Runs on fixed messages have to say what an application's own types are. Here and in
other modules they are the standard ones. -/

/-- The standard converters and the standard limit. -/
def standard : Codec := ⟨.standard, defaultMaxBody⟩

/-- A letter turned around in an envelope, the fields of both in disorder. -/
def envelopeLayout : Layout :=
  .mk "Envelope"
    [⟨"letter", 22, .composed
        (.mk "Letter"
          [⟨"size", 6, .length ⟨.w16, true⟩ 2, true, true⟩,
            ⟨"to", 0, .metaData .text 6, true, true⟩,
            ⟨"content", 8, .body .bytes, true, true⟩]), true, true⟩,
      ⟨"seq", 0, .identifier (.scalar (.int ⟨.w32, false⟩)) 4, false, true⟩,
      ⟨"from", 4, .metaData .uuid 16, false, true⟩,
      ⟨"size", 20, .length ⟨.w8, false⟩ 2, false, true⟩]

/-- The schema of the letter. -/
def letterSchema : Schema :=
  .withBody "Letter"
    [⟨"to", 6, .metaData .text, true⟩, ⟨"size", 2, .length ⟨.w16, true⟩, true⟩]
    ⟨"content", .bytes, true⟩

/-- The schema of the envelope. -/
def envelopeSchema : Schema :=
  .withMessage "Envelope"
    [⟨"seq", 4, .identifier (.scalar (.int ⟨.w32, false⟩)), false⟩,
      ⟨"from", 16, .metaData .uuid, false⟩,
      ⟨"size", 2, .length ⟨.w8, false⟩, false⟩]
    ⟨"letter", true, true⟩ letterSchema

/-- A letter to write, its lengths not set. -/
def letter : Message :=
  (Message.blank.set "to" .text "Ada").set "content" .bytes [1, 2, 3]

/-- The envelope around it. -/
def envelope : Message :=
  ((Message.blank.set "seq" (.scalar (.int ⟨.w32, false⟩)) 7#32).set "from" .uuid
    (Vector.replicate 16 1)).setPart "letter" letter

/-- The envelope as it is written. -/
def envelopeBytes : Bytes :=
  [7, 0, 0, 0, 1, 1, 1, 1, 1, 1, 1, 1, 1, 1, 1, 1, 1, 1, 1, 1, 11, 0,
    1, 2, 3, 3, 0, 65, 100, 97, 0, 0, 0]

theorem prepareDecoder_envelope : standard.prepareDecoder envelopeLayout = .ok envelopeSchema := by
  cbv

theorem serialize_envelope : (standard.serialize envelopeSchema envelope).outcome =
    .ok (.around envelopeBytes (.flat [0, 0, 0, 97, 100, 65, 0, 3, 3, 2, 1])) :=
  rfl

theorem namesDistinct_envelope : envelopeSchema.NamesDistinct := by
  simp [envelopeSchema, letterSchema, Schema.NamesDistinct]

theorem decodeFrame_envelope :
    standard.decodeFrame envelopeSchema envelopeBytes =
      .ok ⟨.of ⟨.scalar (.int ⟨.w32, false⟩), 7#32⟩,
        (standard.serialize envelopeSchema envelope).message, 33⟩ := by
  have recipient : letterSchema.Registers ["to"] .text :=
    Schema.registers_of_hasField ⟨_, .head _, rfl, rfl⟩
  have content : letterSchema.Registers ["content"] .bytes := Or.inr ⟨rfl, rfl⟩
  have seq : envelopeSchema.Registers ["seq"] (.scalar (.int ⟨.w32, false⟩)) :=
    Schema.registers_of_hasField ⟨_, .head _, rfl, rfl⟩
  have sender : envelopeSchema.Registers ["from"] .uuid :=
    Schema.registers_of_hasField ⟨_, .tail _ (.head _), rfl, rfl⟩
  have covers : envelopeSchema.Covers envelope :=
    (((Schema.covers_blank _).set seq _).set sender _).setPart
      (((Schema.covers_blank _).set recipient _).set content _)
  have restorable : envelopeSchema.Restorable standard.registry
      (standard.serialize envelopeSchema envelope).message := by
    refine ⟨?_, ?_, ?_⟩
    · simp only [List.forall_mem_cons]
      exact ⟨.scalar _ rfl, .uuid _ rfl (by decide), .scalar _ rfl, by simp⟩
    · simp only [List.forall_mem_cons]
      refine ⟨.text _ rfl ?_, .scalar _ rfl, by simp⟩
      decide +kernel
    · exact .bytes _ rfl (Nat.zero_le _)
  exact decodeFrame_serialize prepareDecoder_envelope namesDistinct_envelope covers
    serialize_envelope restorable

end FramedDuplex.Codec
