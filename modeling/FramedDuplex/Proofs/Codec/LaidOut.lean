import FramedDuplex.Proofs.Codec.Front
import FramedDuplex.Proofs.Codec.Left
import FramedDuplex.Proofs.Schema.Sound
import Mathlib.Data.List.Forall2
/-!
# Frames by the book

What the frame of a message has to be can be said without writing it
(`Codec.LaidOut`): the windows of the header one after the other, each filled
with its value, and then the body, for whose length the header was measured. Why
a message has no frame can be said as well (`Codec.FirstFault`): the first thing
in a fixed order that is at fault.

Writing a message comes to exactly that (`Codec.writes`): its frame if it has
one, and else its first fault. That holds of every schema, at every depth.
-/

namespace FramedDuplex

/-- **A length is written exactly as the integer that it is**, if the type has
that integer. -/
theorem IntType.ofLength?_eq_some_iff {type : IntType} {n : ℕ} {v : (Scalar.int type).Carrier} :
    type.ofLength? n = some v ↔ type.value v = n := by
  rw [← toLength?_eq_some_iff]
  refine ⟨toLength?_of_ofLength?, fun h => ?_⟩
  rw [toLength?] at h
  split_ifs at h with hlt
  obtain rfl := Option.some.inj h
  rw [ofLength?, if_pos hlt, BitVec.ofNat_toNat, BitVec.setWidth_eq]

/-- Whether what follows the header stands in reverse. -/
def Schema.turned : Schema → Bool
  | flat .. => false
  | withBody _ _ body => body.reversed
  | withMessage _ _ part _ => part.reversed

variable [OwnTypes]

/-- Two messages have the same values in all their own fields. -/
def Message.Agree (m other : Message) : Prop :=
  ∀ field type, m.get field type = other.get field type

theorem Message.Agree.symm {m other : Message} (h : m.Agree other) : other.Agree m :=
  fun field type => (h field type).symm

/-- They still have after the same field is set in both. -/
theorem Message.Agree.set {m other : Message} (h : m.Agree other) (field : String)
    (type : ValueType) (v : type.Carrier) :
    (m.set field type v).Agree (other.set field type v) := by
  intro name kind
  simp only [Message.get, Message.set]
  split
  · rfl
  · exact h name kind

namespace Codec

variable {c : Codec} {s : Schema} {m m' other : Message} {f : HeaderField}
variable {fields : List HeaderField} {w head body : Bytes} {ws : List Bytes} {n : ℕ}
variable {fault : CodecError} {frame : Frame} {inner : Option Frame} {acquired : List ℕ}

/-! ## What there should be -/

/-- The window of a header field: the bytes of its value, filled up with zeros and
turned if the schema says so. -/
def Fills (c : Codec) (m : Message) (f : HeaderField) (w : Bytes) : Prop :=
  ∃ bs, c.registry.encode f.type (m.get f.name f.type) = .ok bs ∧ bs.length ≤ f.length ∧
    w = Bytes.orient f.reversed (Bytes.padTo f.length bs)

/-- A value does not fill its window: it has no bytes, or too many. -/
inductive Unfit (c : Codec) (m : Message) (f : HeaderField) : CodecError → Prop where
  | unwritten {fault : CodecError} :
      c.registry.encode f.type (m.get f.name f.type) = .error fault → Unfit c m f fault
  | tooLong {bs : Bytes} : c.registry.encode f.type (m.get f.name f.type) = .ok bs →
      f.length < bs.length → Unfit c m f (.fieldOverflow f.name f.length bs.length)

/-- A message with its length field set to `n`. A schema without one sets nothing. -/
inductive Measured (s : Schema) (n : ℕ) (m : Message) : Message → Prop where
  | nothing : s.lengthField? = none → Measured s n m m
  | length {f : Schema.LengthField} {v : (Scalar.int f.type).Carrier} :
      s.lengthField? = some f → f.type.value v = n →
        Measured s n m (m.set f.name (.scalar (.int f.type)) v)

/-- The windows of the header before `n` bytes. -/
structure Headed (c : Codec) (s : Schema) (m : Message) (n : ℕ) (ws : List Bytes) : Prop where
  admitted : c.Admits s n
  filled : ∃ m', Measured s n m m' ∧ List.Forall₂ (c.Fills m') s.header ws

/-- **The frame of a message.** The frame of a message inside it is kept beside
its bytes. -/
inductive LaidOut (c : Codec) : Schema → Message → Frame → Prop where
  | flat {name : String} {header : List HeaderField} {m : Message} {ws : List Bytes} :
      Headed c (.flat name header) m 0 ws → LaidOut c (.flat name header) m (.flat ws.flatten)
  | withBody {name : String} {header : List HeaderField} {body : BodyField} {m : Message}
      {bs : Bytes} {ws : List Bytes} :
      c.registry.encode body.type (m.get body.name body.type) = .ok bs →
        Headed c (.withBody name header body) m bs.length ws →
          LaidOut c (.withBody name header body) m
            (.flat (ws.flatten ++ Bytes.orient body.reversed bs))
  | withMessage {name : String} {header : List HeaderField} {part : PartField} {inner : Schema}
      {m : Message} {within : Frame} {ws : List Bytes} :
      LaidOut c inner (m.part part.name) within →
        Headed c (.withMessage name header part inner) m within.bytes.length ws →
          LaidOut c (.withMessage name header part inner) m
            (.around (ws.flatten ++ Bytes.orient part.reversed within.bytes) within)

/-- What follows the header of a message, before it is turned. -/
inductive Follows (c : Codec) : Schema → Message → Bytes → Prop where
  | nothing {name : String} {header : List HeaderField} {m : Message} :
      Follows c (.flat name header) m []
  | body {name : String} {header : List HeaderField} {body : BodyField} {m : Message} {bs : Bytes} :
      c.registry.encode body.type (m.get body.name body.type) = .ok bs →
        Follows c (.withBody name header body) m bs
  | message {name : String} {header : List HeaderField} {part : PartField} {inner : Schema}
      {m : Message} {within : Frame} :
      LaidOut c inner (m.part part.name) within →
        Follows c (.withMessage name header part inner) m within.bytes

/-- The first fault of a header before `n` bytes: the limits, then the length,
then the fields in the order of the wire. -/
inductive HeadFault (c : Codec) (s : Schema) (m : Message) (n : ℕ) : CodecError → Prop where
  | tooLarge : ¬ c.Admits s n → HeadFault c s m n (.bodyTooLarge n c.maxBody)
  | unmeasured : c.Admits s n → (∀ m', ¬ Measured s n m m') →
      HeadFault c s m n (.lengthOutOfRange n)
  | unfit {before after : List HeaderField} {f : HeaderField} {m' : Message} {fault : CodecError} :
      c.Admits s n → Measured s n m m' → s.header = before ++ f :: after →
        (∀ g ∈ before, ∃ w, c.Fills m' g w) → c.Unfit m' f fault → HeadFault c s m n fault

/-- **The first fault of a message**: that of its body, or of the message inside
it, and then that of its header. -/
inductive FirstFault (c : Codec) : Schema → Message → CodecError → Prop where
  | body {name : String} {header : List HeaderField} {body : BodyField} {m : Message}
      {fault : CodecError} :
      c.registry.encode body.type (m.get body.name body.type) = .error fault →
        FirstFault c (.withBody name header body) m fault
  | message {name : String} {header : List HeaderField} {part : PartField} {inner : Schema}
      {m : Message} {fault : CodecError} :
      FirstFault c inner (m.part part.name) fault →
        FirstFault c (.withMessage name header part inner) m fault
  | header {s : Schema} {m : Message} {bs : Bytes} {fault : CodecError} :
      Follows c s m bs → HeadFault c s m bs.length fault → FirstFault c s m fault

/-! ## One window, and all of them -/

theorem Fills.agree (h : c.Fills m f w) (same : m.Agree other) : c.Fills other f w := by
  rw [Fills, ← same]
  exact h

theorem Unfit.agree (h : c.Unfit m f fault) (same : m.Agree other) : c.Unfit other f fault := by
  cases h with
  | unwritten hcause => exact .unwritten (same _ _ ▸ hcause)
  | tooLong hbs hlong => exact .tooLong (same _ _ ▸ hbs) hlong

theorem window_eq_ok_iff : c.window m f = .ok w ↔ c.Fills m f w := by
  refine ⟨window_ok, ?_⟩
  rintro ⟨bs, hbs, hfits, rfl⟩
  rw [window, hbs]
  simp only [if_neg (by omega : ¬ f.length < bs.length)]

theorem window_eq_error_iff : c.window m f = .error fault ↔ c.Unfit m f fault := by
  rw [window]
  constructor
  · intro h
    split at h
    · next cause hcause =>
      obtain rfl := Except.error.inj h
      exact .unwritten hcause
    · next bs hbs =>
      split_ifs at h with hlong
      obtain rfl := Except.error.inj h
      exact .tooLong hbs hlong
  · rintro (hcause | ⟨hbs, hlong⟩)
    · rw [hcause]
    · rw [hbs]
      simp only [if_pos hlong]

/-- **A header is the windows of its fields**, one after the other. -/
theorem header_eq_ok_iff : c.header m fields = .ok head ↔
    ∃ ws, List.Forall₂ (c.Fills m) fields ws ∧ head = ws.flatten := by
  induction fields generalizing head with
  | nil =>
    simp only [header, Except.ok.injEq, List.forall₂_nil_left_iff, exists_eq_left, List.flatten_nil]
    exact eq_comm
  | cons f rest ih =>
    constructor
    · intro h
      obtain ⟨w, later, hw, hlater, rfl⟩ := header_cons_ok h
      obtain ⟨ws, hws, rfl⟩ := ih.mp hlater
      exact ⟨w :: ws, .cons (window_eq_ok_iff.mp hw) hws, rfl⟩
    · rintro ⟨ws, hws, rfl⟩
      obtain ⟨w, later, hw, hlater, rfl⟩ := List.forall₂_cons_left_iff.mp hws
      rw [header, window_eq_ok_iff.mpr hw]
      simp only [ih.mpr ⟨later, hlater, rfl⟩, List.flatten_cons]

/-- **A header is at fault where its first unfit value is.** -/
theorem header_eq_error_iff : c.header m fields = .error fault ↔
    ∃ before f after, fields = before ++ f :: after ∧ (∀ g ∈ before, ∃ w, c.Fills m g w) ∧
      c.Unfit m f fault := by
  induction fields with
  | nil => simp [header]
  | cons f rest ih =>
    rw [header]
    cases hwindow : c.window m f with
    | error cause =>
      simp only [Except.error.injEq]
      constructor
      · rintro rfl
        exact ⟨[], f, rest, rfl, by simp, window_eq_error_iff.mp hwindow⟩
      · rintro ⟨before, g, after, hsplit, hfills, hunfit⟩
        cases before with
        | nil =>
          obtain ⟨rfl, rfl⟩ := List.cons.inj hsplit
          rw [← window_eq_error_iff, hwindow] at hunfit
          exact Except.error.inj hunfit
        | cons first before =>
          -- the first field would fill its window
          obtain ⟨rfl, -⟩ := List.cons.inj hsplit
          obtain ⟨w, hw⟩ := hfills f (by simp)
          rw [← window_eq_ok_iff, hwindow] at hw
          cases hw
    | ok w =>
      have hfill := window_eq_ok_iff.mp hwindow
      -- the rest of the header decides
      trans c.header m rest = .error fault
      · cases c.header m rest <;> simp
      rw [ih]
      constructor
      · rintro ⟨before, g, after, rfl, hfills, hunfit⟩
        refine ⟨f :: before, g, after, rfl, ?_, hunfit⟩
        exact List.forall_mem_cons.mpr ⟨⟨w, hfill⟩, hfills⟩
      · rintro ⟨before, g, after, hsplit, hfills, hunfit⟩
        cases before with
        | nil =>
          obtain ⟨rfl, -⟩ := List.cons.inj hsplit
          rw [← window_eq_error_iff, hwindow] at hunfit
          cases hunfit
        | cons first before =>
          obtain ⟨rfl, rfl⟩ := List.cons.inj hsplit
          exact ⟨before, g, after, rfl, (List.forall_mem_cons.mp hfills).2, hunfit⟩

/-! ## The length -/

theorem Measured.agree (h : Measured s n m m') (same : m.Agree other) :
    ∃ other', Measured s n other other' ∧ m'.Agree other' := by
  cases h with
  | nothing hnone => exact ⟨other, .nothing hnone, same⟩
  | length hf hv => exact ⟨_, .length hf hv, same.set _ _ _⟩

theorem writeLength_eq_ok_iff :
    Schema.writeLength s.header n m = .ok m' ↔ Measured s n m m' := by
  constructor
  · intro h
    rcases writeLength_ok h with ⟨hnone, rfl⟩ | ⟨f, v, hf, hv, rfl⟩
    · exact .nothing hnone
    · exact .length hf (IntType.ofLength?_eq_some_iff.mp hv)
  · rintro (hnone | ⟨hf, hv⟩)
    · rw [Schema.writeLength, show Schema.lengthFieldFrom 0 s.header = none from hnone]
    · rw [Schema.writeLength, show Schema.lengthFieldFrom 0 s.header = some _ from hf]
      simp only [IntType.ofLength?_eq_some_iff.mpr hv]

/-- **The length is out of range exactly if no message has it.** -/
theorem writeLength_eq_error_iff : Schema.writeLength s.header n m = .error fault ↔
    fault = .lengthOutOfRange n ∧ ∀ m', ¬ Measured s n m m' := by
  simp only [← writeLength_eq_ok_iff]
  constructor
  · intro h
    refine ⟨?_, fun m' h' => by rw [h] at h'; cases h'⟩
    rw [Schema.writeLength] at h
    split at h
    · cases h
    · split at h
      · exact (Except.error.inj h).symm
      · cases h
  · rintro ⟨rfl, hnone⟩
    cases hwrite : Schema.writeLength s.header n m with
    | ok m' => exact absurd hwrite (hnone m')
    | error cause =>
      rw [Schema.writeLength] at hwrite
      split at hwrite
      · cases hwrite
      · split at hwrite
        · exact congrArg Except.error (Except.error.inj hwrite).symm
        · cases hwrite

/-! ## The header before a body -/

/-- **Writing a header before a body** gives the windows of the header and the
body. -/
theorem enclose_eq_ok_iff (fields : List HeaderField) (hs : s.header = fields) :
    (c.enclose fields body inner m acquired).outcome = .ok frame ↔
    ∃ ws, c.Headed s m body.length ws ∧ frame = Frame.of (ws.flatten ++ body) inner := by
  subst hs
  rw [enclose, show Schema.sizeOf s.header = s.fixedSize from rfl, frameLength_eq]
  by_cases hadmits : c.Admits s body.length
  · simp only [if_pos hadmits]
    constructor
    · intro h
      split at h
      · cases h
      · next m' hm' =>
        split at h
        · cases h
        · next head hhead =>
          obtain ⟨ws, hws, rfl⟩ := header_eq_ok_iff.mp hhead
          exact ⟨ws, ⟨hadmits, m', writeLength_eq_ok_iff.mp hm', hws⟩, (Except.ok.inj h).symm⟩
    · rintro ⟨ws, ⟨-, m', hm', hws⟩, rfl⟩
      rw [writeLength_eq_ok_iff.mpr hm']
      simp only [header_eq_ok_iff.mpr ⟨ws, hws, rfl⟩]
  · simp only [if_neg hadmits, reduceCtorEq, false_iff]
    rintro ⟨ws, ⟨h, -⟩, -⟩
    exact hadmits h

/-- **Or the first fault of the header.** -/
theorem enclose_eq_error_iff (fields : List HeaderField) (hs : s.header = fields) :
    (c.enclose fields body inner m acquired).outcome = .error fault ↔
    c.HeadFault s m body.length fault := by
  subst hs
  rw [enclose, show Schema.sizeOf s.header = s.fixedSize from rfl, frameLength_eq]
  by_cases hadmits : c.Admits s body.length
  · simp only [if_pos hadmits]
    constructor
    · intro h
      split at h
      · next cause hwrite =>
        obtain ⟨rfl, hnone⟩ := writeLength_eq_error_iff.mp hwrite
        obtain rfl := Except.error.inj h
        exact .unmeasured hadmits hnone
      · next m' hm' =>
        split at h
        · next cause hhead =>
          obtain rfl := Except.error.inj h
          obtain ⟨before, f, after, hsplit, hfills, hunfit⟩ := header_eq_error_iff.mp hhead
          exact .unfit hadmits (writeLength_eq_ok_iff.mp hm') hsplit hfills hunfit
        · cases h
    · rintro (h | ⟨-, hnone⟩ | ⟨-, hm', hsplit, hfills, hunfit⟩)
      · exact absurd hadmits h
      · rw [writeLength_eq_error_iff.mpr ⟨rfl, hnone⟩]
      · rw [writeLength_eq_ok_iff.mpr hm']
        simp only [header_eq_error_iff.mpr ⟨_, _, _, hsplit, hfills, hunfit⟩]
  · simp only [if_neg hadmits, Except.error.injEq]
    constructor
    · rintro rfl
      exact .tooLarge hadmits
    · rintro (h | ⟨h, -⟩ | ⟨h, -⟩)
      · rfl
      · exact absurd h hadmits
      · exact absurd h hadmits

/-! ## The message around a message -/

/-- **What is written of a header depends on the values of its fields alone.** -/
theorem Headed.agree (h : c.Headed s m n ws) (same : m.Agree other) : c.Headed s other n ws := by
  obtain ⟨hadmits, m', hm', hws⟩ := h
  obtain ⟨other', hother', same'⟩ := hm'.agree same
  exact ⟨hadmits, other', hother', hws.imp fun _ _ hfill => hfill.agree same'⟩

/-- And so does its fault. -/
theorem HeadFault.agree (h : c.HeadFault s m n fault) (same : m.Agree other) :
    c.HeadFault s other n fault := by
  cases h with
  | tooLarge hadmits => exact .tooLarge hadmits
  | unmeasured hadmits hnone =>
    refine .unmeasured hadmits fun other' hother' => ?_
    obtain ⟨m', hm', -⟩ := hother'.agree same.symm
    exact hnone m' hm'
  | unfit hadmits hm' hsplit hfills hunfit =>
    obtain ⟨other', hother', same'⟩ := hm'.agree same
    exact .unfit hadmits hother' hsplit
      (fun g hg => (hfills g hg).imp fun _ hfill => hfill.agree same') (hunfit.agree same')

/-! ## Whole messages -/

/-- **The frame that is written is the frame of the message.** -/
theorem serialize_eq_ok_iff : (c.serialize s m).outcome = .ok frame ↔ c.LaidOut s m frame := by
  induction s generalizing m frame with
  | flat name header =>
    rw [serialize, enclose_eq_ok_iff (s := .flat name header) header rfl]
    constructor
    · rintro ⟨ws, hws, rfl⟩
      rw [List.append_nil]
      exact .flat hws
    · rintro ⟨hws⟩
      exact ⟨_, hws, by rw [List.append_nil]; rfl⟩
  | withBody name header body =>
    rw [serialize]
    cases hbody : c.registry.encode body.type (m.get body.name body.type) with
    | error cause =>
      simp only [reduceCtorEq, false_iff]
      rintro (_ | ⟨hbs, -⟩)
      rw [hbody] at hbs
      cases hbs
    | ok bs =>
      simp only [enclose_eq_ok_iff (s := .withBody name header body) header rfl,
        Bytes.length_orient]
      constructor
      · rintro ⟨ws, hws, rfl⟩
        exact .withBody hbody hws
      · rintro (_ | ⟨hbs, hws⟩)
        obtain rfl := Except.ok.inj (hbody.symm.trans hbs)
        exact ⟨_, hws, rfl⟩
  | withMessage name header part within ih =>
    rw [serialize]
    have same : (if part.writable then
        m.setPart part.name (c.serialize within (m.part part.name)).message else m).Agree m :=
      get_part_serialize within m part
    cases hwithin : (c.serialize within (m.part part.name)).outcome with
    | error cause =>
      simp only [reduceCtorEq, false_iff]
      rintro (_ | _ | ⟨hlaid, -⟩)
      rw [ih.mpr hlaid] at hwithin
      cases hwithin
    | ok nested =>
      simp only [enclose_eq_ok_iff (s := .withMessage name header part within) header rfl,
        Bytes.length_orient]
      constructor
      · rintro ⟨ws, hws, rfl⟩
        exact .withMessage (ih.mp hwithin) (hws.agree same)
      · rintro (_ | _ | ⟨hlaid, hws⟩)
        obtain rfl := Except.ok.inj (hwithin.symm.trans (ih.mpr hlaid))
        exact ⟨_, hws.agree same.symm, rfl⟩

/-- **The fault that is reported is the first fault of the message.** -/
theorem serialize_eq_error_iff :
    (c.serialize s m).outcome = .error fault ↔ c.FirstFault s m fault := by
  induction s generalizing m fault with
  | flat name header =>
    rw [serialize, enclose_eq_error_iff (s := .flat name header) header rfl]
    constructor
    · exact .header .nothing
    · rintro (_ | _ | ⟨⟨⟩, h⟩)
      exact h
  | withBody name header body =>
    rw [serialize]
    cases hbody : c.registry.encode body.type (m.get body.name body.type) with
    | error cause =>
      simp only [Except.error.injEq]
      constructor
      · rintro rfl
        exact .body hbody
      · rintro (hcause | _ | ⟨_ | hbs, -⟩)
        · exact Except.error.inj (hbody.symm.trans hcause)
        · rw [hbody] at hbs
          cases hbs
    | ok bs =>
      simp only [enclose_eq_error_iff (s := .withBody name header body) header rfl,
        Bytes.length_orient]
      constructor
      · exact .header (.body hbody)
      · rintro (hcause | _ | ⟨_ | hbs, h⟩)
        · rw [hbody] at hcause
          cases hcause
        · obtain rfl := Except.ok.inj (hbody.symm.trans hbs)
          exact h
  | withMessage name header part within ih =>
    rw [serialize]
    have same : (if part.writable then
        m.setPart part.name (c.serialize within (m.part part.name)).message else m).Agree m :=
      get_part_serialize within m part
    cases hwithin : (c.serialize within (m.part part.name)).outcome with
    | error cause =>
      simp only [Except.error.injEq]
      constructor
      · rintro rfl
        exact .message (ih.mp hwithin)
      · rintro (_ | hfault | ⟨_ | _ | hlaid, -⟩)
        · exact Except.error.inj (hwithin.symm.trans (ih.mpr hfault))
        · rw [serialize_eq_ok_iff.mpr hlaid] at hwithin
          cases hwithin
    | ok nested =>
      simp only [enclose_eq_error_iff (s := .withMessage name header part within) header rfl,
        Bytes.length_orient]
      constructor
      · exact fun h => .header (.message (serialize_eq_ok_iff.mp hwithin)) (h.agree same)
      · rintro (_ | hfault | ⟨_ | _ | hlaid, h⟩)
        · rw [ih.mpr hfault] at hwithin
          cases hwithin
        · obtain rfl := Except.ok.inj (hwithin.symm.trans (serialize_eq_ok_iff.mpr hlaid))
          exact h.agree same.symm

/-! ## All of it -/

/-- Windows that are filled are as long as their header. -/
theorem length_flatten_of_fills (h : List.Forall₂ (c.Fills m) fields ws) :
    ws.flatten.length = Schema.sizeOf fields :=
  length_of_header (header_eq_ok_iff.mpr ⟨ws, h, rfl⟩)

/-- **Each field is found where its descriptor says.** -/
theorem window_of_fills {offset : ℕ} {d : Schema.Descriptor}
    (h : List.Forall₂ (c.Fills m) fields ws) (hd : d ∈ Schema.describeFrom offset fields)
    (tail : Bytes) :
    ∃ type bs, d.content = .value type ∧ c.registry.encode type (m.get d.name type) = .ok bs ∧
      bs.length ≤ d.length ∧ ((ws.flatten ++ tail).drop (d.offset - offset)).take d.length =
        Bytes.orient d.reversed (Bytes.padTo d.length bs) := by
  induction h generalizing offset with
  | nil => simp [Schema.describeFrom] at hd
  | @cons f w fields ws hfill hrest ih =>
    have hlen : w.length = f.length := length_of_window (window_eq_ok_iff.mpr hfill)
    obtain ⟨bs, hbs, hfits, rfl⟩ := hfill
    rw [Schema.describeFrom] at hd
    rw [List.flatten_cons, List.append_assoc]
    rcases List.mem_cons.mp hd with rfl | hd
    · refine ⟨f.type, bs, rfl, hbs, hfits, ?_⟩
      simp only [Nat.sub_self, List.drop_zero]
      exact List.take_left' hlen
    · -- a later field begins behind the first window
      obtain ⟨type, bs', hcontent, hbs', hfits', hwindow⟩ := ih hd
      obtain ⟨-, -, hle, -⟩ := Schema.of_mem_describeFrom hd
      refine ⟨type, bs', hcontent, hbs', hfits', ?_⟩
      rw [List.drop_append, List.drop_eq_nil_of_le (by omega), List.nil_append, hlen, Nat.sub_sub]
      exact hwindow

/-- A frame is a header before what follows it. -/
theorem LaidOut.parts (h : c.LaidOut s m frame) : ∃ bs ws, c.Follows s m bs ∧
    c.Headed s m bs.length ws ∧ frame.bytes = ws.flatten ++ Bytes.orient s.turned bs := by
  cases h with
  | flat hws => exact ⟨[], _, .nothing, hws, (List.append_nil _).symm⟩
  | withBody hbs hws => exact ⟨_, _, .body hbs, hws, rfl⟩
  | withMessage hlaid hws => exact ⟨_, _, .message hlaid, hws, rfl⟩

/-- Where what follows can be written and the header before it as well, there is a
frame. -/
theorem Follows.laidOut (h : c.Follows s m body) (hws : c.Headed s m body.length ws) :
    ∃ frame, c.LaidOut s m frame := by
  cases h with
  | nothing => exact ⟨_, .flat hws⟩
  | body hbs => exact ⟨_, .withBody hbs hws⟩
  | message hlaid => exact ⟨_, .withMessage hlaid hws⟩

/-- Windows for a header exist exactly if no value is unfit. -/
theorem exists_fills_iff : (∃ ws, List.Forall₂ (c.Fills m) fields ws) ↔
    ∀ f ∈ fields, ∃ bs, c.registry.encode f.type (m.get f.name f.type) = .ok bs ∧
      bs.length ≤ f.length := by
  induction fields with
  | nil => simp
  | cons f rest ih =>
    rw [List.forall_mem_cons, ← ih]
    constructor
    · rintro ⟨ws, hws⟩
      obtain ⟨w, later, ⟨bs, hbs, hfits, -⟩, hlater, -⟩ := List.forall₂_cons_left_iff.mp hws
      exact ⟨⟨bs, hbs, hfits⟩, later, hlater⟩
    · rintro ⟨⟨bs, hbs, hfits⟩, later, hlater⟩
      exact ⟨_, .cons ⟨bs, hbs, hfits, rfl⟩ hlater⟩

/-- What writing a message of a schema does. -/
structure Writes (c : Codec) (s : Schema) (m : Message) : Prop where
  /-- The frame that is written is that of the message. -/
  frame : ∀ frame, (c.serialize s m).outcome = .ok frame ↔ c.LaidOut s m frame
  /-- It is written exactly if what follows the header can be, the limits admit
  that and the length field can say it, and every field of the header has a value
  that fits. -/
  succeeds : (∃ frame, (c.serialize s m).outcome = .ok frame) ↔
    ∃ bs m', c.Follows s m bs ∧ c.Admits s bs.length ∧ Measured s bs.length m m' ∧
      ∀ f ∈ s.header, ∃ value, c.registry.encode f.type (m'.get f.name f.type) = .ok value ∧
        value.length ≤ f.length
  /-- It has as many bytes as the fields of the header declare and what follows
  them has. Each field of the header is where its descriptor says, and what follows
  the header is behind it. -/
  placed : ∀ frame, (c.serialize s m).outcome = .ok frame →
    ∃ bs m', c.Follows s m bs ∧ Measured s bs.length m m' ∧
      frame.bytes.length = (s.header.map (·.length)).sum + bs.length ∧
      frame.bytes.drop s.fixedSize = Bytes.orient s.turned bs ∧
      ∀ d ∈ s.descriptors, d.isVariable = false → ∃ type value, d.content = .value type ∧
        c.registry.encode type (m'.get d.name type) = .ok value ∧ value.length ≤ d.length ∧
        (frame.bytes.drop d.offset).take d.length =
          Bytes.orient d.reversed (Bytes.padTo d.length value)
  /-- A message that is not written is refused for its first fault. -/
  refused : ∀ fault, (c.serialize s m).outcome = .error fault ↔ c.FirstFault s m fault

/-- **Writing a message comes to its frame, or else to its first fault.** -/
theorem writes (c : Codec) (s : Schema) (m : Message) : c.Writes s m where
  frame _ := serialize_eq_ok_iff
  succeeds := by
    simp only [serialize_eq_ok_iff]
    constructor
    · rintro ⟨frame, hlaid⟩
      obtain ⟨bs, ws, hfollows, ⟨hadmits, m', hm', hws⟩, -⟩ := hlaid.parts
      exact ⟨bs, m', hfollows, hadmits, hm', exists_fills_iff.mp ⟨ws, hws⟩⟩
    · rintro ⟨bs, m', hfollows, hadmits, hm', hfits⟩
      obtain ⟨ws, hws⟩ := exists_fills_iff.mpr hfits
      exact hfollows.laidOut ⟨hadmits, m', hm', hws⟩
  placed frame h := by
    obtain ⟨bs, ws, hfollows, ⟨-, m', hm', hws⟩, hbytes⟩ := (serialize_eq_ok_iff.mp h).parts
    have hlen : ws.flatten.length = s.fixedSize := length_flatten_of_fills hws
    refine ⟨bs, m', hfollows, hm', ?_, ?_, fun d hd hfixed => ?_⟩
    · rw [hbytes, List.length_append, hlen, Bytes.length_orient, ← Schema.sizeOf_eq_sum]
      rfl
    · rw [hbytes]
      exact List.drop_left' hlen
    · have hheader : d ∈ Schema.describeFrom 0 s.header := by
        rcases Schema.descriptors_cases s with he | ⟨e, he, hvariable, -⟩
        · rwa [he] at hd
        · rw [he] at hd
          rcases List.mem_append.mp hd with hd | hd
          · exact hd
          · obtain rfl := List.mem_singleton.mp hd
            rw [hfixed] at hvariable
            cases hvariable
      rw [hbytes]
      exact window_of_fills hws hheader _
  refused _ := serialize_eq_error_iff

end Codec

end FramedDuplex
