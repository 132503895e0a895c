import FramedDuplex.Codec.Assembly
import FramedDuplex.Proofs.Codec.Grammar
import FramedDuplex.Proofs.Codec.RoundTrip
import FramedDuplex.Proofs.Converter.Registered
import FramedDuplex.Proofs.Schema.Lengths
import Mathlib.Data.List.Find
/-!
# Which converters are consulted

For a message type a codec consults its converters about the types of its fields, at
every depth, and about no other type. Codecs with one limit whose registries answer
alike for these types (`Codec.Agrees`) therefore do everything alike with that message
type: they are prepared for it or lack the same, and they write and read alike
(`Codec.alike_of_agrees`). The key of a message is not looked up in a registry at all.

So a registration is local to its type, and of the registrations for one type only the
last counts (`Codec.registrations_local`).
-/

namespace FramedDuplex

namespace Schema

/-- The types that the values of a schema have, at every depth. -/
def Consults (s : Schema) (type : ValueType) : Prop := ∃ n, (type, n) ∈ s.demands

variable {s inner : Schema} {header : List HeaderField} {name : String}

theorem consults_iff {type : ValueType} :
    s.Consults type ↔ ∃ d, s.Has d ∧ d.content = .value type := by
  simp only [Consults, mem_demands_iff]
  constructor
  · rintro ⟨n, d, hd, hcontent, -⟩
    exact ⟨d, hd, hcontent⟩
  · rintro ⟨d, hd, hcontent⟩
    exact ⟨d.length, d, hd, hcontent, rfl⟩

/-- The header is written and read by the types of its fields. -/
theorem consults_header {f : HeaderField} (hf : f ∈ s.header) : s.Consults f.type := by
  refine ⟨f.length, ?_⟩
  have hmem : (f.type, f.length) ∈ s.header.map fun f => (f.type, f.length) :=
    List.mem_map_of_mem hf
  cases s with
  | flat name header => exact hmem
  | withBody name header body => exact List.mem_append_left _ hmem
  | withMessage name header part inner => exact List.mem_append_left _ hmem

theorem consults_body {body : BodyField} : (withBody name header body).Consults body.type :=
  ⟨0, List.mem_append_right _ (List.mem_singleton_self _)⟩

theorem consults_inner {part : PartField} {type : ValueType} (h : inner.Consults type) :
    (withMessage name header part inner).Consults type := by
  obtain ⟨n, hn⟩ := h
  exact ⟨n, List.mem_append_right _ hn⟩

/-- The length is read by the type of its field. -/
theorem consults_length {l : LengthField} (h : lengthFieldFrom 0 s.header = some l) :
    s.Consults (.scalar (.int l.type)) := by
  obtain ⟨f, hf, -, -, htype⟩ := headerPlays_of_lengthFieldFrom h
  exact htype ▸ consults_header hf

end Schema

variable [OwnTypes]

namespace Codec

/-- **Two codecs agree on a schema**: they have one limit, and their registries answer
alike for the types of its values. -/
structure Agrees (c c' : Codec) (s : Schema) : Prop where
  limit : c'.maxBody = c.maxBody
  converters : ∀ type, s.Consults type → c'.registry.find? type = c.registry.find? type

variable {c c' : Codec} {s : Schema} {m : Message} {bs : Bytes}

theorem frameLength_of_agrees (h : c.Agrees c' s) (fixed body : ℕ) :
    c'.frameLength fixed body = c.frameLength fixed body := by
  rw [frameLength, frameLength, h.limit]

theorem Agrees.inner {name : String} {header : List HeaderField} {part : PartField} {inner : Schema}
    (h : c.Agrees c' (.withMessage name header part inner)) : c.Agrees c' inner where
  limit := h.limit
  converters := fun type htype => h.converters type (Schema.consults_inner htype)

/-! ## What is lacking -/

/-- The converters in demand are all there, or the first that is missing is the same. -/
theorem lack?_of_agrees (h : c.Agrees c' s) : c'.lack? s = c.lack? s := by
  have custom : ∀ type ∈ s.customTypes,
      (!c'.registry.contains type) = !c.registry.contains type := by
    intro type htype
    obtain ⟨-, hdemanded⟩ := Schema.mem_customTypes_iff.mp htype
    rw [Registry.contains_congr (h.converters type hdemanded)]
  have narrow : ∀ f ∈ s.narrowFields,
      (!c'.registry.contains (.scalar f.kind)) = !c.registry.contains (.scalar f.kind) := by
    intro f hf
    obtain ⟨n, hn, -⟩ := Schema.exists_narrowFields_iff.mp ⟨f, hf, rfl⟩
    rw [Registry.contains_congr (h.converters _ ⟨n, hn⟩)]
  rw [lack?, lack?, List.find?_congr custom, List.find?_congr narrow]

/-! ## Writing -/

theorem header_of_find?_eq {fields : List HeaderField}
    (h : ∀ f ∈ fields, c'.registry.find? f.type = c.registry.find? f.type) (m : Message) :
    c'.header m fields = c.header m fields := by
  induction fields with
  | nil => rfl
  | cons f rest ih =>
    have hwindow : c'.window m f = c.window m f := by
      rw [window, window, Registry.encode_congr (h f List.mem_cons_self)]
    rw [header, header, hwindow, ih fun g hg => h g (List.mem_cons_of_mem _ hg)]

theorem header_of_agrees (h : c.Agrees c' s) (m : Message) :
    c'.header m s.header = c.header m s.header :=
  header_of_find?_eq (fun _ hf => h.converters _ (Schema.consults_header hf)) m

theorem enclose_of_agrees (h : c.Agrees c' s) (body : Bytes) (inner : Option Frame) (m : Message)
    (acquired : List ℕ) :
    c'.enclose s.header body inner m acquired = c.enclose s.header body inner m acquired := by
  simp only [enclose, frameLength_of_agrees h, header_of_agrees h]

/-- **Codecs that agree write alike.** -/
theorem serialize_of_agrees (h : c.Agrees c' s) (m : Message) :
    c'.serialize s m = c.serialize s m := by
  induction s generalizing m with
  | flat name header => exact enclose_of_agrees h [] none m []
  | withBody name header body =>
    rw [serialize, serialize, Registry.encode_congr (h.converters _ Schema.consults_body)]
    cases c.registry.encode body.type (m.get body.name body.type) with
    | error fault => rfl
    | ok bs => exact enclose_of_agrees h _ none m []
  | withMessage name header part inner ih =>
    simp only [serialize, ih h.inner]
    cases (c.serialize inner (m.part part.name)).outcome with
    | error fault => rfl
    | ok frame => exact enclose_of_agrees h _ (some frame) _ _

/-! ## Reading -/

theorem announced_of_agrees (h : c.Agrees c' s) (head : Bytes) :
    c'.announced s head = c.announced s head := by
  have hbody : c'.bodyLength s.header head = c.bodyLength s.header head := by
    rw [bodyLength, bodyLength]
    cases hlength : Schema.lengthFieldFrom 0 s.header with
    | none => rfl
    | some l =>
      simp only [Registry.decode_congr (h.converters _ (Schema.consults_length hlength))]
  simp only [announced, hbody, frameLength_of_agrees h]

theorem readHeader_of_find?_eq {fields : List HeaderField}
    (h : ∀ f ∈ fields, c'.registry.find? f.type = c.registry.find? f.type) (m : Message)
    (bs : Bytes) : c'.readHeader m fields bs = c.readHeader m fields bs := by
  induction fields generalizing m bs with
  | nil => rfl
  | cons f rest ih =>
    have later := ih fun g hg => h g (List.mem_cons_of_mem _ hg)
    simp only [readHeader, Registry.decode_congr (h f List.mem_cons_self), later]

/-- Reading is alike if what follows the header is read alike. -/
theorem readMessage_of_finish (h : c.Agrees c' s)
    (hfinish : ∀ tail m, c'.finish s tail m = c.finish s tail m) (frame : Bytes) :
    c'.readMessage s frame = c.readMessage s frame := by
  rw [readMessage_eq, readMessage_eq]
  simp only [announced_of_agrees h, hfinish,
    readHeader_of_find?_eq fun f hf => h.converters _ (Schema.consults_header hf)]

theorem finish_of_agrees (h : c.Agrees c' s) (tail : Bytes) (m : Message) :
    c'.finish s tail m = c.finish s tail m := by
  induction s generalizing tail m with
  | flat name header => rfl
  | withBody name header body =>
    rw [finish, finish, Registry.decode_congr (h.converters _ Schema.consults_body)]
  | withMessage name header part inner ih =>
    rw [finish, finish, readMessage_of_finish h.inner (ih h.inner)]

/-- **Codecs that agree read alike.** -/
theorem readMessage_of_agrees (h : c.Agrees c' s) (frame : Bytes) :
    c'.readMessage s frame = c.readMessage s frame :=
  readMessage_of_finish h (finish_of_agrees h) frame

theorem decodeFrame_of_agrees (h : c.Agrees c' s) (frame : Bytes) :
    c'.decodeFrame s frame = c.decodeFrame s frame := by
  rw [decodeFrame, decodeFrame, readMessage_of_agrees h]

theorem decodeNext_of_agrees (h : c.Agrees c' s) (buffer : Bytes) :
    c'.decodeNext s buffer = c.decodeNext s buffer := by
  simp only [decodeNext, announced_of_agrees h, decodeFrame_of_agrees h]

/-- Codecs that agree take frames off a stream alike, from any part of a frame on. -/
theorem readFrame_of_agrees (h : c.Agrees c' s) (a : Assembly) (deliveries : List Delivery) :
    c'.readFrame s a deliveries = c.readFrame s a deliveries := by
  have haccept (a : Assembly) (bs : Bytes) : c'.accept s a bs = c.accept s a bs := by
    simp only [accept, announced_of_agrees h, decodeFrame_of_agrees h]
  have habsorb (a : Assembly) (bs : Bytes) : c'.absorb s a bs = c.absorb s a bs := by
    simp only [absorb, haccept]
  induction deliveries generalizing a with
  | nil => rfl
  | cons delivery rest ih =>
    cases delivery with
    | failure reason => rfl
    | bytes bs => simp only [readFrame, habsorb, ih]

/-! ## Registrations -/

/-- **Two codecs do everything alike with a message type.** -/
structure Alike (c c' : Codec) (l : Layout) : Prop where
  /-- They are prepared for it, or lack the same. -/
  prepare : c'.prepare l = c.prepare l
  prepareDecoder : c'.prepareDecoder l = c.prepareDecoder l
  /-- They write the same bytes or fail alike, and leave the same message. -/
  serialize : ∀ s, Schema.ofLayout l = .ok s → ∀ m, c'.serialize s m = c.serialize s m
  /-- They read frames alike, off buffers and off streams. -/
  decodeFrame : ∀ s, Schema.ofLayout l = .ok s → ∀ frame,
    c'.decodeFrame s frame = c.decodeFrame s frame
  decodeNext : ∀ s, Schema.ofLayout l = .ok s → ∀ buffer,
    c'.decodeNext s buffer = c.decodeNext s buffer
  readFrame : ∀ s, Schema.ofLayout l = .ok s → ∀ a deliveries,
    c'.readFrame s a deliveries = c.readFrame s a deliveries

/-- Codecs that agree on what a layout makes do everything alike with it. -/
theorem alike_of_agrees {l : Layout} (h : ∀ s, Schema.ofLayout l = .ok s → c.Agrees c' s) :
    c.Alike c' l := by
  have hprepare : c'.prepare l = c.prepare l := by
    rw [prepare, prepare]
    cases hmade : Schema.ofLayout l with
    | error fault => rfl
    | ok s => simp only [lack?_of_agrees (h s hmade)]
  exact {
    prepare := hprepare
    prepareDecoder := by rw [prepareDecoder, prepareDecoder, hprepare]
    serialize := fun s hs => serialize_of_agrees (h s hs)
    decodeFrame := fun s hs => decodeFrame_of_agrees (h s hs)
    decodeNext := fun s hs => decodeNext_of_agrees (h s hs)
    readFrame := fun s hs => readFrame_of_agrees (h s hs) }

/-- A codec after registrations. -/
def registering (c : Codec) (registrations : List ((type : ValueType) × Converter type)) : Codec :=
  { c with registry := c.registry.registerAll registrations }

/-- **Registrations are local, and the last one wins.** A converter for a type that no field
has, at any depth, changes nothing that is done with a message type; and two sequences of
registrations that name the same converters last do everything alike. -/
theorem registrations_local (c : Codec) :
    (∀ (type : ValueType) (converter : Converter type) (l : Layout),
      (∀ d, l.Has d → d.content ≠ .value type) → c.Alike (c.registering [⟨type, converter⟩]) l) ∧
      ∀ one other, (∀ type, Registry.last? type one = Registry.last? type other) →
        ∀ l, (c.registering one).Alike (c.registering other) l := by
  constructor
  · intro type converter l hnone
    refine alike_of_agrees fun s hs => ⟨rfl, fun consulted hconsults => ?_⟩
    obtain ⟨d, hd, hcontent⟩ := Schema.consults_iff.mp hconsults
    have hne : consulted ≠ type := by
      rintro rfl
      exact hnone d ((Schema.has_iff_of_ofLayout hs).mpr hd) hcontent
    exact Registry.find?_register_of_ne c.registry converter hne
  · intro one other hlast l
    refine alike_of_agrees fun s _ => ⟨rfl, fun type _ => ?_⟩
    simp only [registering, Registry.find?_registerAll, hlast]

/-- A converter that refuses everything. -/
def refusing (type : ValueType) : Converter type where
  encode _ := .error (.refused "never")
  decode _ := .error (.refused "never")

end Codec

end FramedDuplex

namespace FramedDuplex.Codec

theorem registrations_local_envelope :
    (∀ d, envelopeLayout.Has d → d.content ≠ .value .instant) ∧
      ((standard.registering [⟨.instant, refusing .instant⟩]).serialize envelopeSchema
        envelope).outcome =
          .ok (.around envelopeBytes (.flat [0, 0, 0, 97, 100, 65, 0, 3, 3, 2, 1])) ∧
      ((standard.registering [⟨.text, refusing .text⟩, ⟨.text, .text⟩]).serialize envelopeSchema
        envelope).outcome =
          .ok (.around envelopeBytes (.flat [0, 0, 0, 97, 100, 65, 0, 3, 3, 2, 1])) := by
  have made := (prepareDecoder_ok prepareDecoder_envelope).1
  have absent : ∀ d, envelopeLayout.Has d → d.content ≠ .value .instant := by
    intro d hd
    have listed : d ∈ envelopeSchema.descriptors ++ letterSchema.descriptors :=
      List.mem_append.mpr ((Schema.has_iff_of_ofLayout made).mp hd)
    clear hd
    revert d
    decide
  have last : ∀ type, Registry.last? type [⟨.text, .text⟩] =
      Registry.last? type [⟨.text, refusing .text⟩, ⟨.text, .text⟩] := by
    intro type
    by_cases htext : ValueType.text = type
    · subst htext
      rfl
    · simp [Registry.last?, Registry.lookup, htext]
  refine ⟨absent, ?_, ?_⟩
  · rw [((registrations_local standard).1 _ (refusing .instant) _ absent).serialize _ made]
    exact serialize_envelope
  · rw [((registrations_local standard).2 _ _ last envelopeLayout).serialize _ made]
    rfl

end FramedDuplex.Codec
