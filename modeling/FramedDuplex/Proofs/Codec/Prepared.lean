import FramedDuplex.Proofs.Codec.Grammar
import FramedDuplex.Proofs.Codec.LaidOut
import FramedDuplex.Proofs.Codec.Reader
import FramedDuplex.Proofs.Schema.Within
/-!
# What was checked beforehand does not go wrong later

A codec looks at a layout once, before there is any message. It refuses a layout
that makes no schema, and one with a field, at any depth, for which it lacks a
converter; to read as well, it refuses a message inside that cannot be set. Once a
layout has passed, no message and no byte brings one of these faults up again
(`Codec.foresees`): whatever writing or reading reports is the fault of a value or
of bytes.
-/

namespace FramedDuplex

variable [OwnTypes]

/-- Whether a fault is one of how a message type and a codec were set up. -/
def CodecError.isConfiguration : CodecError → Bool
  | schema _ | notDecodable _ | fieldTooShort .. | typeMismatch _ => true
  | _ => false

namespace Registry

variable {r : Registry} {type : ValueType} {n : ℕ} {fault : CodecError} {bs : Bytes}

omit [OwnTypes] in
theorem not_isConfiguration_toCodecError (type : ValueType) (failure : ConvertFailure) :
    (failure.toCodecError type).isConfiguration = false := by
  cases failure <;> rfl

/-- **Where nothing is lacking, only a converter refuses a value.** -/
theorem encode_error {v : type.Carrier} (h : ¬ r.Lacks type n)
    (he : r.encode type v = .error fault) :
    ∃ failure : ConvertFailure, fault = failure.toCodecError type := by
  rw [encode] at he
  cases hfind : r.find? type with
  | some converter =>
    simp only [hfind] at he
    cases hc : converter.encode v with
    | ok out => simp [hc, Except.mapError] at he
    | error failure =>
      simp only [hc, Except.mapError, Except.error.injEq] at he
      exact ⟨failure, he.symm⟩
  | none =>
    have hmissing : r.contains type = false := by simp [contains, hfind]
    simp only [hfind] at he
    cases type with
    | scalar kind => cases he
    | bytes => cases he
    | sharedBytes => cases he
    | _ => exact absurd ⟨hmissing, .inl rfl⟩ h

/-- **A value that is too long** was written by a converter, or copied. -/
theorem contains_or_isRaw_of_long {v : type.Carrier} (h : ¬ r.Lacks type n)
    (he : r.encode type v = .ok bs) (hlong : n < bs.length) :
    r.contains type = true ∨ type.isRaw = true := by
  by_contra hnot
  obtain ⟨hmissing, hcopied⟩ := not_or.mp hnot
  rw [Bool.not_eq_true] at hmissing
  have hfind : r.find? type = none := by simpa [contains] using hmissing
  have henc := encode_ok_of_find?_none hfind he
  cases type with
  | scalar kind =>
    -- the built-in bytes of a scalar fit in its field
    obtain rfl := Except.ok.inj henc
    refine h ⟨hmissing, .inr ⟨kind, rfl, ?_⟩⟩
    rwa [Scalar.length_encode] at hlong
  | bytes => exact hcopied rfl
  | sharedBytes => exact hcopied rfl
  | _ => cases henc

/-- **Where nothing is lacking and the window is there, only a value is refused.** -/
theorem not_isConfiguration_decode {field : String} {window : Bytes} (h : ¬ r.Lacks type n)
    (hlen : n ≤ window.length) (he : r.decode field type window = .error fault) :
    fault.isConfiguration = false := by
  cases hfind : r.find? type with
  | some converter =>
    rw [decode_eq_of_find? hfind] at he
    generalize converter.decode _ = answer at he
    cases answer with
    | ok v => cases he
    | error failure =>
      cases he
      exact not_isConfiguration_toCodecError type failure
  | none =>
    have hmissing : r.contains type = false := by simp [contains, hfind]
    simp only [decode, hfind] at he
    cases type with
    | scalar kind =>
      have hwide : ¬ window.length < kind.width := by
        intro hshort
        exact h ⟨hmissing, .inr ⟨kind, rfl, by omega⟩⟩
      rw [ValueType.decode, if_neg hwide] at he
      cases kind with
      | char =>
        simp only [Scalar.decode] at he
        split at he
        · cases he
        · cases he
          rfl
      | _ => cases he
    | bytes => cases he
    | sharedBytes => cases he
    | _ => exact absurd ⟨hmissing, .inl rfl⟩ h

end Registry

namespace Codec

variable {c : Codec} {s : Schema} {l : Layout} {m start : Message} {fault : CodecError}
variable {frame head : Bytes} {header : List HeaderField} {offset : ℕ}

/-! ## Writing -/

/-- A field of the header whose bytes may be too many: those of a converter, or
those of the value itself. -/
def Elastic (c : Codec) (s : Schema) (field : String) (declared : ℕ) : Prop :=
  ∃ d type, s.Has d ∧ d.isVariable = false ∧ d.name = field ∧ d.length = declared ∧
    d.content = .value type ∧ (c.registry.contains type = true ∨ type.isRaw = true)

/-- A fault of a value: none of the configuration, and if a value is too long, then
in a field in which that may happen. -/
def OfValue (c : Codec) (s : Schema) (fault : CodecError) : Prop :=
  fault.isConfiguration = false ∧
    ∀ field declared actual, fault = .fieldOverflow field declared actual →
      c.Elastic s field declared

theorem ofValue_toCodecError (s : Schema) (type : ValueType) (failure : ConvertFailure) :
    c.OfValue s (failure.toCodecError type) := by
  refine ⟨Registry.not_isConfiguration_toCodecError type failure, fun field declared actual h => ?_⟩
  cases failure <;> cases h

/-- A value that does not fill its window is at fault itself. -/
theorem ofValue_of_unfit (equips : c.Equips s) {f : HeaderField} (hf : f ∈ s.header)
    (h : c.Unfit m f fault) : c.OfValue s fault := by
  obtain ⟨d, hd, hname, hlength, hcontent⟩ := Schema.exists_mem_describeFrom hf 0
  have hhas : s.Has d := Schema.has_of_mem (List.mem_append_left _ hd)
  have hlacks := equips d hhas f.type hcontent
  cases h with
  | unwritten he =>
    obtain ⟨failure, rfl⟩ := Registry.encode_error hlacks he
    exact ofValue_toCodecError _ _ failure
  | tooLong he hlong =>
    refine ⟨rfl, ?_⟩
    rintro field declared actual ⟨rfl, rfl, rfl⟩
    obtain ⟨hfixed, -⟩ := Schema.of_mem_describeFrom hd
    exact ⟨d, f.type, hhas, hfixed, hname, hlength, hcontent,
      Registry.contains_or_isRaw_of_long hlacks he (hlength ▸ hlong)⟩

/-- **Writing finds fault with values only.** -/
theorem ofValue_of_firstFault (equips : c.Equips s) (h : c.FirstFault s m fault) :
    c.OfValue s fault := by
  induction h with
  | @body name header body m fault he =>
    have hd : (Schema.withBody name header body).Has
        ⟨body.name, (Schema.withBody name header body).fixedSize, 0, .body, .value body.type,
          body.reversed, true⟩ := List.mem_append_right _ List.mem_cons_self
    obtain ⟨failure, rfl⟩ := Registry.encode_error (equips _ hd _ rfl) he
    exact ofValue_toCodecError _ _ failure
  | message _ ih =>
    obtain ⟨hfault, hlong⟩ := ih fun d hd => equips d (.inr hd)
    refine ⟨hfault, fun field declared actual h => ?_⟩
    obtain ⟨d, type, hd, he⟩ := hlong field declared actual h
    exact ⟨d, type, .inr hd, he⟩
  | header _ hfault =>
    cases hfault with
    | tooLarge _ => exact ⟨rfl, fun _ _ _ h => by cases h⟩
    | unmeasured _ _ => exact ⟨rfl, fun _ _ _ h => by cases h⟩
    | unfit _ _ hsplit _ hunfit =>
      exact ofValue_of_unfit equips (hsplit ▸ List.mem_append_right _ List.mem_cons_self) hunfit

/-! ## Reading -/

omit [OwnTypes] in
/-- The window of a field is as long as the field declares, if the header is there. -/
theorem length_le_window {d : Schema.Descriptor} (hd : d ∈ s.descriptors)
    (hlen : s.fixedSize ≤ frame.length) : d.length ≤ (d.window frame).length := by
  obtain ⟨hstop, hvariable⟩ := Schema.stop_le_of_mem_descriptors hd
  rw [Schema.Descriptor.window, Schema.Descriptor.spanIn, Bytes.length_orient]
  split_ifs with hlast
  · have := hvariable hlast
    omega
  · simp only [Schema.Descriptor.span, List.length_take, List.length_drop]
    omega

/-- So what it reads is refused for its value alone. -/
theorem not_isConfiguration_window (equips : c.Equips s) {d : Schema.Descriptor}
    (hd : d ∈ s.descriptors) (hlen : s.fixedSize ≤ frame.length) {type : ValueType}
    (htype : d.content = .value type)
    (he : c.registry.decode d.name type (d.window frame) = .error fault) :
    fault.isConfiguration = false :=
  Registry.not_isConfiguration_decode (equips d (Schema.has_of_mem hd) type htype)
    (length_le_window hd hlen) he

omit [OwnTypes] in
/-- The length field is a field of the header. -/
theorem exists_of_lengthFieldFrom {f : Schema.LengthField}
    (h : Schema.lengthFieldFrom offset header = some f) :
    ∃ d ∈ Schema.describeFrom offset header, d.content = .value (.scalar (.int f.type)) ∧
      d.name = f.name ∧ d.offset = f.offset ∧ d.length = f.length ∧ d.reversed = f.reversed := by
  induction header generalizing offset with
  | nil => cases h
  | cons g rest ih =>
    rw [Schema.lengthFieldFrom] at h
    rw [Schema.describeFrom]
    split at h
    · next type htype =>
      obtain rfl := Option.some.inj h
      refine ⟨_, List.mem_cons_self, ?_, rfl, rfl, rfl, rfl⟩
      simp [HeaderField.type, htype, HeaderContent.type]
    · obtain ⟨d, hd, he⟩ := ih h
      exact ⟨d, List.mem_cons_of_mem _ hd, he⟩

/-- **A header that is there whole** does not say its length wrong for the
configuration. -/
theorem not_isConfiguration_announced (equips : c.Equips s) (hlen : s.fixedSize ≤ head.length)
    (h : c.announced s head = .error fault) : fault.isConfiguration = false := by
  rcases announced_eq_error_iff.mp h with ⟨hf, hread⟩ | ⟨-, -, -⟩ | ⟨-, -⟩
  · obtain ⟨d, hd, htype, hname, hoffset, hlength, hreversed⟩ := exists_of_lengthFieldFrom hf
    refine not_isConfiguration_window equips (List.mem_append_left _ hd) hlen htype ?_
    rw [window_of_mem 0 s.header hd, hname, hoffset, hlength, hreversed]
    exact hread
  · rfl
  · rfl

/-- A header that cannot be read has a field that cannot. -/
theorem exists_of_readHeader_error
    (h : c.readHeader start header (frame.drop offset) = .error fault) :
    ∃ d ∈ Schema.describeFrom offset header, ∃ type, d.content = .value type ∧
      c.registry.decode d.name type (d.window frame) = .error fault := by
  induction header generalizing start offset with
  | nil => cases h
  | cons f rest ih =>
    have first := window_of_mem offset (f :: rest) List.mem_cons_self frame
    rw [readHeader, List.drop_drop] at h
    rw [Schema.describeFrom]
    split at h
    · next cause hcause =>
      cases h
      exact ⟨_, List.mem_cons_self, f.type, rfl, first ▸ hcause⟩
    · obtain ⟨d, hd, he⟩ := ih h
      exact ⟨d, List.mem_cons_of_mem _ hd, he⟩

/-- Why a frame is not read: it has another length than it should, its header does
not say any, a field is not legible, or a message inside cannot be set or read. -/
inductive ReadFault (c : Codec) : Schema → Bytes → CodecError → Prop where
  | length {s : Schema} {frame : Bytes} {expected : ℕ} :
      ReadFault c s frame (.frameLength expected frame.length)
  | header {s : Schema} {frame : Bytes} {fault : CodecError} : s.fixedSize ≤ frame.length →
      c.announced s (frame.take s.fixedSize) = .error fault → ReadFault c s frame fault
  | field {s : Schema} {frame : Bytes} {d : Schema.Descriptor} {type : ValueType}
      {fault : CodecError} : s.fixedSize ≤ frame.length → d ∈ s.descriptors →
      d.content = .value type → c.registry.decode d.name type (d.window frame) = .error fault →
        ReadFault c s frame fault
  | readOnly {name : String} {header : List HeaderField} {part : PartField} {inner : Schema}
      {frame : Bytes} : part.writable = false →
        ReadFault c (.withMessage name header part inner) frame (.notDecodable part.name)
  | message {name : String} {header : List HeaderField} {part : PartField} {inner : Schema}
      {frame : Bytes} {fault : CodecError} : part.writable = true →
      c.readMessage inner (Bytes.orient part.reversed (frame.drop (Schema.sizeOf header))) =
        .error fault → ReadFault c (.withMessage name header part inner) frame fault

theorem readFault_of_readMessage (h : c.readMessage s frame = .error fault) :
    c.ReadFault s frame fault := by
  rw [readMessage] at h
  split_ifs at h with hshort
  · obtain rfl := Except.error.inj h
    exact .length
  · have hlen : s.fixedSize ≤ frame.length := by omega
    split at h
    · next cause hann =>
      obtain rfl := Except.error.inj h
      exact .header hlen hann
    · next total hann =>
      split_ifs at h with htotal
      · obtain rfl := Except.error.inj h
        exact .length
      · split at h
        · next cause hhead =>
          obtain rfl := Except.error.inj h
          rw [← List.drop_zero (l := frame)] at hhead
          obtain ⟨d, hd, type, htype, he⟩ := exists_of_readHeader_error hhead
          exact .field hlen (List.mem_append_left _ hd) htype he
        · -- the header was read, so what follows it was not
          cases s with
          | flat name header => cases h
          | withBody name header body =>
            simp only at h
            split at h
            · next cause he =>
              obtain rfl := Except.error.inj h
              refine .field hlen (List.mem_append_right _ List.mem_cons_self) rfl ?_
              rw [window_of_isVariable (by simp [Schema.Descriptor.isVariable])]
              exact he
            · cases h
          | withMessage name header part inner =>
            simp only at h
            split_ifs at h with hset
            · split at h
              · next cause he =>
                obtain rfl := Except.error.inj h
                exact .message hset he
              · cases h
            · obtain rfl := Except.error.inj h
              exact .readOnly (by simpa using hset)

/-- A fault of one level is one of bytes if those of the message inside are. -/
theorem not_isConfiguration_of_readFault (equips : c.Equips s) (settable : s.undecodable? = none)
    (inside : ∀ name header part inner, s = .withMessage name header part inner →
      part.writable = true → ∀ frame fault, c.readMessage inner frame = .error fault →
        fault.isConfiguration = false)
    (h : c.ReadFault s frame fault) : fault.isConfiguration = false := by
  cases h with
  | length => rfl
  | header hlen hann => exact not_isConfiguration_announced equips (by simp [hlen]) hann
  | field hlen hd htype he => exact not_isConfiguration_window equips hd hlen htype he
  | readOnly hset =>
    rw [Schema.undecodable?, if_neg (by simp [hset])] at settable
    cases settable
  | message hset he => exact inside _ _ _ _ rfl hset _ _ he

/-- **Reading finds fault with bytes only**, where every message can be set. -/
theorem not_isConfiguration_readMessage (equips : c.Equips s) (settable : s.undecodable? = none)
    (h : c.readMessage s frame = .error fault) : fault.isConfiguration = false := by
  induction s generalizing frame fault with
  | flat name header =>
    refine not_isConfiguration_of_readFault equips settable ?_ (readFault_of_readMessage h)
    rintro _ _ _ _ ⟨⟩
  | withBody name header body =>
    refine not_isConfiguration_of_readFault equips settable ?_ (readFault_of_readMessage h)
    rintro _ _ _ _ ⟨⟩
  | withMessage name header part inner ih =>
    refine not_isConfiguration_of_readFault equips settable ?_ (readFault_of_readMessage h)
    rintro _ _ _ _ ⟨rfl, rfl, rfl, rfl⟩ hset frame fault he
    rw [Schema.undecodable?, if_pos hset] at settable
    exact ih (fun d hd => equips d (.inr hd)) settable he

theorem not_isConfiguration_decodeFrame (equips : c.Equips s) (settable : s.undecodable? = none)
    (h : c.decodeFrame s frame = .error fault) : fault.isConfiguration = false := by
  rw [decodeFrame] at h
  split at h
  · next hread =>
    obtain rfl := Except.error.inj h
    exact not_isConfiguration_readMessage equips settable hread
  · cases h

theorem not_isConfiguration_decodeNext (equips : c.Equips s) (settable : s.undecodable? = none)
    {buffer : Bytes} (h : (c.decodeNext s buffer).1 = .error fault) :
    fault.isConfiguration = false := by
  rw [decodeNext_eq] at h
  cases hfront : c.front s buffer with
  | short =>
    simp only [hfront] at h
    cases h
  | broken cause =>
    simp only [hfront] at h
    obtain ⟨hlen, hfault⟩ := front_eq_broken_iff.mp hfront
    obtain rfl := Except.error.inj h
    exact not_isConfiguration_announced equips (by simp [hlen]) (announced_eq_error_iff.mpr hfault)
  | frame total =>
    simp only [hfront] at h
    cases hread : c.decodeFrame s (buffer.take total) with
    | ok d =>
      rw [hread] at h
      cases h
    | error cause =>
      rw [hread] at h
      obtain rfl := Except.error.inj h
      exact not_isConfiguration_decodeFrame equips settable hread

/-! ## Reading off a stream -/

/-- As long as the header has not been read, all of it is waited for. -/
def AwaitsHeader (s : Schema) (a : Assembly) : Prop :=
  a.headerRead = false → s.fixedSize ≤ a.arrived.length + a.missing

/-- What becomes of an assembly finds fault with bytes only. -/
structure Harmless (s : Schema) (arrival : Arrival) : Prop where
  more : ∀ a, arrival = .more a → AwaitsHeader s a
  done : ∀ fault, arrival = .done (.error fault) → fault.isConfiguration = false

/-- **Adding bytes to an assembly**, no more than it asks for. -/
theorem harmless_accept (equips : c.Equips s) (settable : s.undecodable? = none) {a : Assembly}
    {bs : Bytes} (ha : AwaitsHeader s a) (hbs : bs.length ≤ a.missing) :
    Harmless s (c.accept s a bs) := by
  have hadded : AwaitsHeader s (a.add bs) := by
    intro hread
    have := ha hread
    rw [Assembly.arrived_add, List.length_append, missing_add]
    omega
  have hframe (frame : Bytes) : Harmless s (.done (c.decodeFrame s frame)) := by
    refine ⟨fun b hb => (by cases hb), fun fault hfault => ?_⟩
    exact not_isConfiguration_decodeFrame equips settable (Arrival.done.inj hfault)
  rw [accept]
  split_ifs with hmissing hread
  · exact ⟨fun b hb => Arrival.more.inj hb ▸ hadded, fun fault hfault => by cases hfault⟩
  · exact hframe _
  · -- the header has just become complete
    have hlen : s.fixedSize ≤ (a.add bs).arrived.length := by
      have := hadded (by simpa using hread)
      omega
    split
    · next cause hann =>
      refine ⟨fun b hb => (by cases hb), ?_⟩
      rintro fault ⟨rfl⟩
      exact not_isConfiguration_announced equips hlen hann
    · next total hann =>
      split_ifs with htotal
      · exact hframe _
      · refine ⟨?_, fun fault hfault => by cases hfault⟩
        rintro b ⟨rfl⟩ hfalse
        cases hfalse

theorem harmless_absorb (equips : c.Equips s) (settable : s.undecodable? = none) {a : Assembly}
    (ha : AwaitsHeader s a) (bs : Bytes) : Harmless s (c.absorb s a bs).1 := by
  have hfirst : Harmless s (c.accept s a (bs.take a.missing)) :=
    harmless_accept equips settable ha (List.length_take_le _ _)
  rw [absorb]
  split
  · next result hdone => exact hdone ▸ hfirst
  · next b hmore =>
    have hb := hfirst.more b hmore
    split_ifs
    · exact ⟨fun b' hb' => Arrival.more.inj hb' ▸ hb, fun fault hfault => by cases hfault⟩
    · exact harmless_accept equips settable hb (List.length_take_le _ _)

/-- **Reading off a stream** that does anything finds fault with its bytes, or with
the stream itself. -/
theorem not_isConfiguration_readFrame (equips : c.Equips s) (settable : s.undecodable? = none)
    {a : Assembly} (ha : AwaitsHeader s a) {deliveries : List Delivery}
    (h : (c.readFrame s a deliveries).1 = .error fault) : fault.isConfiguration = false := by
  have hended (a : Assembly) : a.ended.isConfiguration = false := by
    rw [Assembly.ended]
    split_ifs <;> rfl
  induction deliveries generalizing a with
  | nil =>
    obtain rfl := Except.error.inj h
    exact hended a
  | cons d rest ih =>
    cases d with
    | failure reason =>
      obtain rfl := Except.error.inj h
      rfl
    | bytes bs =>
      have harmless := harmless_absorb equips settable ha bs
      rw [readFrame] at h
      split_ifs at h with hempty
      · obtain rfl := Except.error.inj h
        exact hended a
      · split at h
        · next result left habsorb =>
          rw [habsorb] at harmless
          exact harmless.done fault (congrArg Arrival.done h)
        · next b left habsorb =>
          rw [habsorb] at harmless
          exact ih (harmless.more b rfl) h

/-! ## Before there is any message -/

omit [OwnTypes] in
/-- What is made and then checked comes out exactly if it is made and nothing is found
in it. -/
theorem checked_eq_ok_iff {ε α : Type} {made checked : Except ε α} {found? : α → Option ε} {a : α}
    (fails : ∀ e, made = .error e → checked = .error e)
    (finds : ∀ b e, made = .ok b → found? b = some e → checked = .error e)
    (passes : ∀ b, made = .ok b → found? b = none → checked = .ok b) :
    checked = .ok a ↔ made = .ok a ∧ found? a = none := by
  refine ⟨fun h => ?_, fun ⟨hmade, hnone⟩ => passes a hmade hnone⟩
  cases hmade : made with
  | error e =>
    rw [fails e hmade] at h
    cases h
  | ok b =>
    cases hfound : found? b with
    | some e =>
      rw [finds b e hmade hfound] at h
      cases h
    | none =>
      rw [passes b hmade hfound] at h
      obtain rfl := Except.ok.inj h
      exact ⟨rfl, hfound⟩

theorem prepare_eq_ok_iff : c.prepare l = .ok s ↔ Schema.ofLayout l = .ok s ∧ c.Equips s := by
  rw [← lack?_eq_none_iff]
  refine checked_eq_ok_iff (fun e hmade => ?_) (fun b e hmade hfound => ?_) fun b hmade hfound => ?_
  · rw [prepare, hmade]
  · simp only [prepare, hmade, hfound]
  · simp only [prepare, hmade, hfound]

theorem prepareDecoder_eq_ok_iff :
    c.prepareDecoder l = .ok s ↔ c.prepare l = .ok s ∧ s.undecodable? = none := by
  refine checked_eq_ok_iff (fun e hmade => ?_) (fun b e hmade hfound => ?_) fun b hmade hfound => ?_
  · rw [prepareDecoder, hmade]
  · simp only [prepareDecoder, hmade, hfound]
  · simp only [prepareDecoder, hmade, hfound]

omit [OwnTypes] in
/-- A computation fails exactly if it has no result. -/
theorem exists_error_iff {ε α : Type} {x : Except ε α} :
    (∃ e, x = .error e) ↔ ¬ ∃ a, x = .ok a := by
  cases x <;> simp

/-- **A layout is refused** for having no schema, or for a field that lacks a
converter. -/
theorem exists_prepare_error_iff : (∃ fault, c.prepare l = .error fault) ↔
    (∃ fault, Schema.ofLayout l = .error fault) ∨
      ∃ d type, l.Has d ∧ d.content = .value type ∧ c.registry.Lacks type d.length := by
  rw [exists_error_iff, exists_error_iff]
  constructor
  · intro hnone
    by_contra hnot
    obtain ⟨hmade, hlacks⟩ := not_or.mp hnot
    obtain ⟨s, made⟩ := not_not.mp hmade
    refine hnone ⟨s, prepare_eq_ok_iff.mpr ⟨made, fun d hd type hcontent h => hlacks ?_⟩⟩
    exact ⟨d, type, (Schema.has_iff_of_ofLayout made).mpr hd, hcontent, h⟩
  · rintro h ⟨s, hs⟩
    obtain ⟨made, equips⟩ := prepare_eq_ok_iff.mp hs
    rcases h with h | ⟨d, type, hd, hcontent, hlacks⟩
    · exact h ⟨s, made⟩
    · exact equips d ((Schema.has_iff_of_ofLayout made).mp hd) type hcontent hlacks

/-- **And for reading**, for a message that cannot be set. -/
theorem exists_prepareDecoder_error_iff : (∃ fault, c.prepareDecoder l = .error fault) ↔
    (∃ fault, c.prepare l = .error fault) ∨
      ∃ d, l.Has d ∧ d.role = .composed ∧ d.writable = false := by
  rw [exists_error_iff, exists_error_iff]
  constructor
  · intro hnone
    by_contra hnot
    obtain ⟨hprepare, hset⟩ := not_or.mp hnot
    obtain ⟨s, hs⟩ := not_not.mp hprepare
    obtain ⟨made, -⟩ := prepare_eq_ok_iff.mp hs
    refine hnone ⟨s, prepareDecoder_eq_ok_iff.mpr ⟨hs, ?_⟩⟩
    refine Schema.undecodable?_eq_none_iff.mpr fun d hd hrole => by_contra fun hro => hset ?_
    exact ⟨d, (Schema.has_iff_of_ofLayout made).mpr hd, hrole, by simpa using hro⟩
  · rintro h ⟨s, hs⟩
    obtain ⟨hprepare, settable⟩ := prepareDecoder_eq_ok_iff.mp hs
    obtain ⟨made, -⟩ := prepare_eq_ok_iff.mp hprepare
    rcases h with h | ⟨d, hd, hrole, hro⟩
    · exact h ⟨s, hprepare⟩
    · rw [Schema.undecodable?_eq_none_iff.mp settable d
        ((Schema.has_iff_of_ofLayout made).mp hd) hrole] at hro
      cases hro

/-- What a codec finds out about a layout before there is any message. -/
structure Foresees (c : Codec) (l : Layout) : Prop where
  /-- It refuses the layout exactly if there is no schema or a field at some depth
  lacks a converter. -/
  refused : (∃ fault, c.prepare l = .error fault) ↔ (∃ fault, Schema.ofLayout l = .error fault) ∨
    ∃ d type, l.Has d ∧ d.content = .value type ∧ c.registry.Lacks type d.length
  /-- It refuses to read it exactly if it refuses it or a message at some depth is
  read-only. -/
  refusedReading : (∃ fault, c.prepareDecoder l = .error fault) ↔
    (∃ fault, c.prepare l = .error fault) ∨
      ∃ d, l.Has d ∧ d.role = .composed ∧ d.writable = false
  /-- Otherwise writing finds fault with values only, and a value is too long only
  where a converter or the value itself says how long it is. -/
  writing : ∀ s, c.prepare l = .ok s → ∀ m fault, (c.serialize s m).outcome = .error fault →
    fault.isConfiguration = false ∧
      ∀ field declared actual, fault = .fieldOverflow field declared actual →
        ∃ d type, l.Has d ∧ d.isVariable = false ∧ d.name = field ∧ d.length = declared ∧
          d.content = .value type ∧ (c.registry.contains type = true ∨ type.isRaw = true)
  /-- And reading finds fault with bytes only: those of a frame, those of a buffer, and
  those of a stream that delivers anything. -/
  reading : ∀ s, c.prepareDecoder l = .ok s → ∀ fault, fault.isConfiguration = true →
    (∀ frame, c.decodeFrame s frame ≠ .error fault) ∧
      (∀ buffer, (c.decodeNext s buffer).1 ≠ .error fault) ∧
        ∀ deliveries, (c.readFrame s (.start s) deliveries).1 ≠ .error fault

/-- **What was checked beforehand does not go wrong later.** -/
theorem foresees (c : Codec) (l : Layout) : c.Foresees l where
  refused := exists_prepare_error_iff
  refusedReading := exists_prepareDecoder_error_iff
  writing := by
    intro s hs m fault h
    obtain ⟨made, equips⟩ := prepare_eq_ok_iff.mp hs
    obtain ⟨hfault, hlong⟩ := ofValue_of_firstFault equips (serialize_eq_error_iff.mp h)
    refine ⟨hfault, fun field declared actual he => ?_⟩
    obtain ⟨d, type, hd, rest⟩ := hlong field declared actual he
    exact ⟨d, type, (Schema.has_iff_of_ofLayout made).mpr hd, rest⟩
  reading := by
    intro s hs fault hfault
    obtain ⟨hprepare, settable⟩ := prepareDecoder_eq_ok_iff.mp hs
    obtain ⟨-, equips⟩ := prepare_eq_ok_iff.mp hprepare
    have awaits : AwaitsHeader s (.start s) := fun _ => Nat.le_add_left _ _
    refine ⟨fun frame h => ?_, fun buffer h => ?_, fun deliveries h => ?_⟩
    · rw [not_isConfiguration_decodeFrame equips settable h] at hfault
      cases hfault
    · rw [not_isConfiguration_decodeNext equips settable h] at hfault
      cases hfault
    · rw [not_isConfiguration_readFrame equips settable awaits h] at hfault
      cases hfault

end Codec

end FramedDuplex
