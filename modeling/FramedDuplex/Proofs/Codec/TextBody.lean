import FramedDuplex.Proofs.Codec.RoundTrip
/-!
# A body of text

The standard converter for text drops the zero bytes at the end of what it reads,
since a text shorter than its field is filled up with them. A body has exactly the
bytes of its text and is not filled up, and is read the same way all the same: a
text that ends in U+0000 comes back without its end (`Codec.text_body_iff`).

Everything else comes back (`Schema.OthersSurvive`), and the text does where it
does not end in U+0000, and nowhere else.
-/

namespace FramedDuplex

variable [OwnTypes]

variable {field : String} {width : ℕ} {type : ValueType} {v : type.Carrier}

/-! ## The standard converters -/

namespace Registry

/-- A value is written, and comes back out of its window. -/
def Survives (r : Registry) (field : String) (width : ℕ) (type : ValueType) (v : type.Carrier) :
    Prop :=
  ∃ bs, r.encode type v = .ok bs ∧ r.decode field type (Bytes.padTo width bs) = .ok v

/-- What a converter reads is what the registry reads. -/
theorem Survives.restores {r : Registry} {c : Converter type} (hfind : r.find? type = some c)
    (h : r.Survives field width type v) : c.Restores width v := by
  obtain ⟨bs, hwritten, hread⟩ := h
  intro out hout
  obtain rfl : bs = out := by simpa [encode_ok_of_find? hfind hwritten] using hout
  rwa [decode_eq_of_find? hfind, mapError_eq_ok] at hread

omit [OwnTypes] in
/-- Bytes that come back leave no room in their window. -/
theorem le_of_padTo_eq {bs : Bytes} (h : Bytes.padTo width bs = bs) : width ≤ bs.length := by
  have length := congrArg List.length h
  rw [Bytes.length_padTo] at length
  omega

/-- **A value that comes back under the standard converters** is as such a value
has to be. -/
theorem Survives.restorable (h : standard.Survives field width type v) :
    standard.Restorable width type v := by
  cases type with
  | scalar kind => exact .scalar v rfl
  | bytes =>
    obtain ⟨bs, hwritten, hread⟩ := h
    have hnone : standard.find? .bytes = none := rfl
    obtain rfl : v = bs := by simpa [ValueType.encode] using encode_ok_of_find?_none hnone hwritten
    rw [decode, hnone] at hread
    exact .bytes v hnone (le_of_padTo_eq (Except.ok.inj hread))
  | sharedBytes =>
    obtain ⟨bs, hwritten, hread⟩ := h
    have hnone : standard.find? .sharedBytes = none := rfl
    obtain rfl : v = bs := by simpa [ValueType.encode] using encode_ok_of_find?_none hnone hwritten
    rw [decode, hnone] at hread
    exact .sharedBytes v hnone (le_of_padTo_eq (Except.ok.inj hread))
  | text => exact .converted v rfl (h.restores rfl)
  | uuid => exact .converted v rfl (h.restores rfl)
  | instant => exact .converted v rfl (h.restores rfl)
  | custom name =>
    obtain ⟨bs, hwritten, -⟩ := h
    have := encode_ok_of_find?_none rfl hwritten
    simp [ValueType.encode] at this

end Registry

/-! ## What comes back -/

namespace Schema

/-- At every level, each value but a body of text comes back out of its window. -/
def OthersSurvive (r : Registry) : Schema → Message → Prop
  | flat _ header, m => ∀ f ∈ header, r.Survives f.name f.length f.type (m.get f.name f.type)
  | withBody _ header body, m =>
    (∀ f ∈ header, r.Survives f.name f.length f.type (m.get f.name f.type)) ∧
      (body.type ≠ .text → r.Survives body.name 0 body.type (m.get body.name body.type))
  | withMessage _ header part inner, m =>
    (∀ f ∈ header, r.Survives f.name f.length f.type (m.get f.name f.type)) ∧
      inner.OthersSurvive r (m.part part.name)

/-- The names that lead to a body of text, at whatever level it is. -/
def textBody? : Schema → Option (List String)
  | flat .. => none
  | withBody _ _ body => if body.type = .text then some [body.name] else none
  | withMessage _ _ part inner => inner.textBody?.map (part.name :: ·)

/-- The message with the end of its body of text dropped, if that is U+0000. -/
def dropNuls : Schema → Message → Message
  | flat .., m => m
  | withBody _ _ body, m =>
    if body.type = .text then m.set body.name .text (Utf8.dropNuls (m.get body.name .text)) else m
  | withMessage _ _ part inner, m => m.setPart part.name (inner.dropNuls (m.part part.name))

variable {s : Schema} {m : Message} {path : List String}

theorem slot_dropNuls (h : s.textBody? = some path) :
    (s.dropNuls m).slot path .text = Utf8.dropNuls (m.slot path .text) := by
  induction s generalizing m path with
  | flat name header => simp [textBody?] at h
  | withBody name header body =>
    rw [textBody?] at h
    split at h
    · next htext =>
      obtain rfl := Option.some.inj h
      rw [dropNuls, if_pos htext]
      exact Message.get_set ..
    · simp at h
  | withMessage name header part inner ih =>
    obtain ⟨rest, hrest, rfl⟩ := Option.map_eq_some_iff.mp h
    simp only [dropNuls, Message.setPart, if_true]
    exact ih hrest

/-- Nothing else is dropped. -/
theorem slot_dropNuls_of_ne {type : ValueType} (h : s.textBody? ≠ some path ∨ type ≠ .text) :
    (s.dropNuls m).slot path type = m.slot path type := by
  induction s generalizing m path with
  | flat name header => rfl
  | withBody name header body =>
    rw [dropNuls]
    split
    · next htext =>
      have hne : ¬ (path = [body.name] ∧ .text = type) := by
        rintro ⟨rfl, rfl⟩
        simp [textBody?, htext] at h
      simp [Message.set, hne]
    · rfl
  | withMessage name header part inner ih =>
    cases path with
    | nil => rfl
    | cons first rest =>
      by_cases hfirst : first = part.name
      · subst hfirst
        simp only [dropNuls, Message.setPart, if_true]
        refine ih (h.imp_left fun hne heq => hne ?_)
        simp [textBody?, heq]
      · simp [dropNuls, Message.setPart, hfirst]

omit [OwnTypes] in
/-- A body of text is a field of the schema, -/
theorem registers_of_textBody? (h : s.textBody? = some path) : s.Registers path .text := by
  induction s generalizing path with
  | flat name header => simp [textBody?] at h
  | withBody name header body =>
    rw [textBody?] at h
    split at h
    · next htext => exact .inr ⟨(Option.some.inj h).symm, htext.symm⟩
    · simp at h
  | withMessage name header part inner ih =>
    obtain ⟨rest, hrest, rfl⟩ := Option.map_eq_some_iff.mp h
    exact .inr ⟨rest, rfl, ih hrest⟩

/-- so the message remains one of the schema. -/
theorem Covers.dropNuls (h : s.Covers m) : s.Covers (s.dropNuls m) := by
  intro path type hout
  have hne : s.textBody? ≠ some path ∨ type ≠ .text := by
    by_contra hboth
    obtain ⟨hpath, rfl⟩ : s.textBody? = some path ∧ type = .text := by simpa using hboth
    exact hout (registers_of_textBody? hpath)
  rw [slot_dropNuls_of_ne hne, h path type hout]

/-- Two messages that differ in integers at most. -/
def AgreeBesideInts (left m : Message) : Prop :=
  ∀ path type, (∀ t, type ≠ .scalar (.int t)) → left.slot path type = m.slot path type

/-- A value that survives does so where only integers were changed. -/
theorem restorable_of_agree {left : Message} (agree : AgreeBesideInts left m)
    (h : Registry.standard.Survives field width type (m.get field type)) :
    Registry.standard.Restorable width type (left.get field type) := by
  by_cases hscalar : ∃ kind, type = .scalar kind
  · obtain ⟨kind, rfl⟩ := hscalar
    exact .scalar _ rfl
  · have same : left.get field type = m.get field type :=
      agree [field] type fun t ht => hscalar ⟨_, ht⟩
    rw [same]
    exact h.restorable

/-- **A message whose other values survive comes back**, with the end of its body of
text dropped. -/
theorem comesBack_dropNuls {left : Message} (h : s.OthersSurvive .standard m)
    (agree : AgreeBesideInts left m) : s.ComesBack .standard left (s.dropNuls left) := by
  induction s generalizing m left with
  | flat name header => exact ⟨fun f hf => restorable_of_agree agree (h f hf), rfl⟩
  | withBody name header body =>
    refine ⟨fun f hf => restorable_of_agree agree (h.1 f hf), ?_⟩
    obtain ⟨bodyName, type, reversed⟩ := body
    by_cases htext : type = .text
    · subst htext
      refine ⟨Utf8.dropNuls (left.get bodyName .text), fun bs hbs => ?_, if_pos rfl⟩
      -- the converter trims a body as it trims a field
      obtain rfl : Utf8.encode (left.get bodyName .text) = bs := by
        simpa [Converter.text] using Registry.encode_ok_of_find? (c := Converter.text) rfl hbs
      rw [Registry.decode_eq_of_find? (c := Converter.text) rfl]
      simp [Converter.text, Utf8.trimZeros_encode, Registry.mapError_eq_ok]
    · refine ⟨left.get bodyName type, fun bs hbs => ?_, ?_⟩
      · have kept := restorable_of_agree agree (h.2 htext)
        have read := Registry.decode_of_restorable kept hbs bodyName
        rwa [Bytes.padTo_of_le (Nat.zero_le _)] at read
      · rw [dropNuls, if_neg htext, Message.set_get]
  | withMessage name header part inner ih =>
    exact ⟨fun f hf => restorable_of_agree agree (h.1 f hf), _,
      ih h.2 fun path type htype => agree (part.name :: path) type htype, rfl⟩

end Schema

namespace Codec

variable {c : Codec} {s : Schema} {m : Message} {frame : Frame}

/-- Writing sets lengths, and those are integers. -/
theorem agree_serialize (c : Codec) (s : Schema) (m : Message) :
    Schema.AgreeBesideInts (c.serialize s m).message m := by
  intro path type htype
  refine slot_serialize fun hlength => ?_
  obtain ⟨t, rfl⟩ := hlength.type_eq
  exact htype t rfl

/-- **A body of text comes back without the characters U+0000 at its end.** For every
layout with a schema that the codec with the standard converters can write and read,
and every message whose other values come back out of their windows: if writing
succeeds, then reading exactly the bytes written succeeds, with the message that the
writing left but for the end of its body of text; so the text is equal to the original
if and only if the original does not end in U+0000. -/
theorem text_body_iff {limit : ℕ} {l : Layout}
    (prepared : (Codec.mk .standard limit).prepareDecoder l = .ok s)
    (distinct : s.NamesDistinct) (covers : s.Covers m)
    (h : ((Codec.mk .standard limit).serialize s m).outcome = .ok frame)
    (others : s.OthersSurvive .standard m) :
    let read := s.dropNuls ((Codec.mk .standard limit).serialize s m).message
    (Codec.mk .standard limit).decodeFrame s frame.bytes =
        .ok ⟨s.keyOf read, read, frame.bytes.length⟩ ∧
      ∀ path, s.textBody? = some path →
        read.slot path .text = Utf8.dropNuls (m.slot path .text) ∧
        (read.slot path .text = m.slot path .text ↔
          (m.slot path .text).toList.getLast? ≠ some '\x00') := by
  intro read
  obtain ⟨made, settable⟩ := prepareDecoder_ok prepared
  have framed := Schema.framed_of_ofLayout l s made
  have agree := agree_serialize (.mk .standard limit) s m
  obtain ⟨found, hread, hrenders⟩ := readMessage_of_comesBack framed distinct settable h
    (Schema.comesBack_dropNuls others agree)
  obtain rfl : found = read := hrenders.eq (covers_serialize covers).dropNuls
  refine ⟨by rw [decodeFrame, hread], fun path hpath => ?_⟩
  have hslot : read.slot path .text = Utf8.dropNuls (m.slot path .text) := by
    rw [Schema.slot_dropNuls hpath, agree path .text (by simp)]
  exact ⟨hslot, hslot ▸ Utf8.dropNuls_eq_self_iff⟩

end Codec

end FramedDuplex

namespace FramedDuplex.Codec

/-! ## A note -/

/-- A note, its length before it. -/
def noteLayout : Layout :=
  .mk "Note"
    [⟨"size", 0, .length ⟨.w8, false⟩ 1, false, true⟩, ⟨"text", 1, .body .text, false, true⟩]

/-- The schema of a note. -/
def noteSchema : Schema :=
  .withBody "Note" [⟨"size", 1, .length ⟨.w8, false⟩, false⟩] ⟨"text", .text, false⟩

/-- A note with a text. -/
def note (text : String) : Message := Message.blank.set "text" .text text

/-- A note whose text does not end in U+0000 comes back. -/
theorem text_body_note :
    standard.prepareDecoder noteLayout = .ok noteSchema ∧
      (standard.decodeFrame noteSchema [2, 104, 105]).map (·.message.slot ["text"] .text) =
        .ok ((note "hi").slot ["text"] .text) := by
  have prepared : standard.prepareDecoder noteLayout = .ok noteSchema := by cbv
  have distinct : noteSchema.NamesDistinct := by simp [noteSchema, Schema.NamesDistinct]
  have content : noteSchema.Registers ["text"] .text := .inr ⟨rfl, rfl⟩
  have covers : noteSchema.Covers (note "hi") := (Schema.covers_blank _).set content "hi"
  have written :
      (standard.serialize noteSchema (note "hi")).outcome = .ok (.flat [2, 104, 105]) := rfl
  have others : noteSchema.OthersSurvive .standard (note "hi") := by
    refine ⟨?_, fun hne => absurd rfl hne⟩
    simp only [List.forall_mem_cons]
    exact ⟨⟨[0], rfl, rfl⟩, by simp⟩
  obtain ⟨hread, htext⟩ := text_body_iff prepared distinct covers written others
  have hread : standard.decodeFrame noteSchema [2, 104, 105] = _ := hread
  have hsame := (htext ["text"] rfl).2.mpr (by decide)
  rw [hread]
  exact ⟨prepared, congrArg Except.ok hsame⟩

/-- A note with the text `a` and U+0000 comes back as `a`. -/
theorem note_shortened :
    standard.prepareDecoder noteLayout = .ok noteSchema ∧
      (standard.serialize noteSchema (note "a\x00")).outcome = .ok (.flat [2, 97, 0]) ∧
      (standard.decodeFrame noteSchema [2, 97, 0]).map (·.message.get "text" .text) = .ok "a" := by
  exact ⟨by cbv, rfl, rfl⟩

end FramedDuplex.Codec
