import FramedDuplex.Bytes.InPlace
import FramedDuplex.Proofs.Bytes.BigEndian
import FramedDuplex.Proofs.Codec.Grammar
import FramedDuplex.Proofs.Codec.LaidOut
import FramedDuplex.Proofs.Codec.RoundTrip
import FramedDuplex.Proofs.Schema.Unturned
/-!
# A byte order turns a window around

Of two schemas that differ in byte orders only, either is the other seen through one
change of bytes: the windows of the fields whose byte order differs are turned around
where they stand (`Schema.turning`). A message is written to the frame so turned, or
is refused for the same fault; a frame is read as the other reads the frame so turned;
and a header announces what the other is told by the header so turned
(`Codec.byteOrders_turn`).

`exchange` is the same change as the codec meets it, field by field from the front of
the bytes.
-/

namespace FramedDuplex

namespace Bytes

/-- One byte order is another one turned around, if they differ. -/
theorem orient_bne (one other : Bool) (bs : Bytes) :
    orient (one != other) (orient one bs) = orient other bs := by
  cases one <;> cases other <;> simp [orient]

theorem orient_bne_comm (one other : Bool) (bs : Bytes) :
    orient one (orient (one != other) bs) = orient other bs := by
  cases one <;> cases other <;> simp [orient]

end Bytes

namespace Schema

/-- Turns a field of a frame around, in bytes of its length, if the byte order of the
other one is different. -/
def turnField (frame bs : Bytes) (pair : Descriptor × Descriptor) : Bytes :=
  if pair.1.reversed = pair.2.reversed then bs
  else bs.reverseAt (pair.1.spanIn frame).start (pair.1.spanIn frame).length

/-- **A frame of one schema as the other has it**: the window of each field whose byte
order differs is turned around. The window of what follows the header is everything
behind the header. -/
def turning (s t : Schema) (frame : Bytes) : Bytes :=
  (s.descriptors.zip t.descriptors).foldl (turnField frame) frame

/-- Two header fields differ in byte order at most. -/
def SameField (f g : HeaderField) : Prop := ∃ reversed, g = { f with reversed }

/-- Turns around the windows of a header whose byte order differs within a pair of its
fields, and what follows them if that differs as well. -/
def exchange (behind : Bool) : List (HeaderField × HeaderField) → Bytes → Bytes
  | [], bs => Bytes.orient behind bs
  | (f, g) :: rest, bs =>
    Bytes.orient (f.reversed != g.reversed) (bs.take f.length) ++
      exchange behind rest (bs.drop f.length)

variable {s t : Schema} {fs gs : List HeaderField} {f g : HeaderField} {bs head tail frame : Bytes}
variable {behind : Bool} {offset : ℕ} {pairs : List (HeaderField × HeaderField)}

/-! ## Fields in pairs -/

theorem sameField_of_unturned (h : f.unturned = g.unturned) : SameField f g := by
  obtain ⟨name, length, content, reversed⟩ := f
  obtain ⟨name', length', content', reversed'⟩ := g
  obtain ⟨rfl, rfl, rfl, -⟩ := HeaderField.mk.inj h
  exact ⟨reversed', rfl⟩

theorem sameFields_of_unturned (h : fs.map (·.unturned) = gs.map (·.unturned)) :
    List.Forall₂ SameField fs gs := by
  rw [← List.forall₂_eq_eq_eq, List.forall₂_map_left_iff, List.forall₂_map_right_iff] at h
  exact h.imp fun _ _ => sameField_of_unturned

theorem sizeOf_of_sameFields (h : List.Forall₂ SameField fs gs) : sizeOf gs = sizeOf fs := by
  induction h with
  | nil => rfl
  | cons hfirst _ ih =>
    obtain ⟨reversed, rfl⟩ := hfirst
    rw [sizeOf, sizeOf, ih]

/-- Schemas that differ in byte orders only have headers that do. -/
theorem sameFields_header (h : s.unturned = t.unturned) :
    List.Forall₂ SameField s.header t.header := by
  have hheader := congrArg Schema.header h
  rw [header_unturned, header_unturned] at hheader
  exact sameFields_of_unturned hheader

/-! ## The exchange -/

@[simp] theorem length_exchange (behind : Bool) (pairs : List (HeaderField × HeaderField))
    (bs : Bytes) : (exchange behind pairs bs).length = bs.length := by
  induction pairs generalizing bs with
  | nil => rw [exchange, Bytes.length_orient]
  | cons pair rest ih =>
    rw [exchange, List.length_append, Bytes.length_orient, ih, ← List.length_append,
      List.take_append_drop]

/-- The first window, and what comes after it. -/
theorem split_exchange_cons (f g : HeaderField) (behind : Bool)
    (pairs : List (HeaderField × HeaderField)) (hlen : f.length ≤ bs.length) :
    (exchange behind ((f, g) :: pairs) bs).take f.length =
        Bytes.orient (f.reversed != g.reversed) (bs.take f.length) ∧
      (exchange behind ((f, g) :: pairs) bs).drop f.length =
        exchange behind pairs (bs.drop f.length) := by
  have hfirst : (Bytes.orient (f.reversed != g.reversed) (bs.take f.length)).length = f.length := by
    rw [Bytes.length_orient, List.length_take]
    omega
  exact ⟨List.take_left' hfirst, List.drop_left' hfirst⟩

/-- **What follows the header is turned for itself.** -/
theorem exchange_eq_append (behind : Bool) (hlen : sizeOf fs ≤ bs.length)
    (hpairs : fs.length = gs.length) :
    exchange behind (fs.zip gs) bs =
      exchange false (fs.zip gs) (bs.take (sizeOf fs)) ++
        Bytes.orient behind (bs.drop (sizeOf fs)) := by
  induction fs generalizing gs bs with
  | nil => simp [exchange, sizeOf, Bytes.orient]
  | cons f fs ih =>
    obtain ⟨g, gs, rfl⟩ := List.exists_cons_of_length_eq_add_one hpairs.symm
    rw [sizeOf] at hlen
    have hlater : sizeOf fs ≤ (bs.drop f.length).length := by
      rw [List.length_drop]
      omega
    have hpairs' : fs.length = gs.length := Nat.succ.inj hpairs
    rw [List.zip_cons_cons, exchange, exchange, ih hlater hpairs', sizeOf, List.append_assoc,
      List.take_take, List.drop_take, List.drop_drop, Nat.min_eq_left (Nat.le_add_right ..),
      Nat.add_sub_cancel_left]

/-- The length field of two headers is the same one but for its byte order, and is read out
of the bytes after the one header as out of those after the other. -/
def ReadsLength (offset : ℕ) (fs gs : List HeaderField) (bs bs' : Bytes) : Prop :=
  lengthFieldFrom offset fs = none ∧ lengthFieldFrom offset gs = none ∨
    ∃ l reversed, lengthFieldFrom offset fs = some l ∧
      lengthFieldFrom offset gs = some { l with reversed } ∧ offset ≤ l.offset ∧
      Bytes.orient reversed ((bs.drop (l.offset - offset)).take l.length) =
        Bytes.orient l.reversed ((bs'.drop (l.offset - offset)).take l.length)

/-- A field that is not a length is passed over, in the search and in the bytes alike. -/
theorem ReadsLength.cons {bs' : Bytes}
    (hf : lengthFieldFrom offset (f :: fs) = lengthFieldFrom (offset + f.length) fs)
    (hg : lengthFieldFrom offset (g :: gs) = lengthFieldFrom (offset + f.length) gs)
    (h : ReadsLength (offset + f.length) fs gs (bs.drop f.length) (bs'.drop f.length)) :
    ReadsLength offset (f :: fs) (g :: gs) bs bs' := by
  rw [ReadsLength, hf, hg]
  rcases h with hnone | ⟨l, reversed, hl, hl', hle, hsame⟩
  · exact .inl hnone
  · have past : f.length + (l.offset - (offset + f.length)) = l.offset - offset := by omega
    rw [List.drop_drop, List.drop_drop, past] at hsame
    exact .inr ⟨l, reversed, hl, hl', by omega, hsame⟩

/-- **The length is read alike after the exchange.** -/
theorem readsLength_exchange (behind : Bool) (h : List.Forall₂ SameField fs gs)
    (hlen : sizeOf fs ≤ bs.length) (offset : ℕ) :
    ReadsLength offset fs gs bs (exchange behind (fs.zip gs) bs) := by
  induction h generalizing offset bs with
  | nil => exact .inl ⟨rfl, rfl⟩
  | @cons f g fs gs hfirst _ ih =>
    rw [sizeOf] at hlen
    have hfront : f.length ≤ bs.length := by omega
    obtain ⟨hwindow, hrest⟩ := split_exchange_cons f g behind (fs.zip gs) hfront
    have hlater : sizeOf fs ≤ (bs.drop f.length).length := by
      rw [List.length_drop]
      omega
    have later := ih hlater (offset + f.length)
    rw [← hrest] at later
    obtain ⟨reversed, rfl⟩ := hfirst
    obtain ⟨name, length, content, first⟩ := f
    cases content with
    | length type =>
      refine .inr ⟨_, reversed, rfl, rfl, Nat.le_refl _, ?_⟩
      simp only [Nat.sub_self, List.drop_zero, List.zip_cons_cons]
      rw [hwindow, Bytes.orient_bne_comm]
    | metaData type => exact .cons rfl rfl later
    | identifier type => exact .cons rfl rfl later

/-! ## The same change, window by window -/

/-- A window is turned around where it stands, if its byte order differs. -/
theorem turnField_header {pair : Descriptor × Descriptor} {n : ℕ}
    (hspan : pair.1.spanIn frame = ⟨offset, n⟩) :
    turnField frame bs pair = bs.take offset ++
      Bytes.orient (pair.1.reversed != pair.2.reversed) ((bs.drop offset).take n) ++
        bs.drop (offset + n) := by
  rw [turnField, hspan]
  by_cases hsame : pair.1.reversed = pair.2.reversed
  · rw [if_pos hsame, hsame, bne_self_eq_false, Bytes.orient, if_neg Bool.false_ne_true,
      List.append_assoc, ← List.drop_drop, List.take_append_drop, List.take_append_drop]
  · rw [if_neg hsame, Bytes.reverseAt, Bytes.orient, if_pos (by simpa using hsame)]

/-- The bytes of a header field in any frame. -/
theorem spanIn_of_mem {header : List HeaderField} {d : Descriptor}
    (hd : d ∈ describeFrom offset header) (frame : Bytes) :
    d.spanIn frame = ⟨d.offset, d.length⟩ := by
  obtain ⟨hfixed, -⟩ := of_mem_describeFrom hd
  rw [Descriptor.spanIn, hfixed]
  rfl

/-- **Turning the windows of a header around where they stand** is the exchange. -/
theorem foldl_turnField (h : List.Forall₂ SameField fs gs) (frame : Bytes)
    (hlen : offset + sizeOf fs ≤ bs.length) :
    ((describeFrom offset fs).zip (describeFrom offset gs)).foldl (turnField frame) bs =
      bs.take offset ++ exchange false (fs.zip gs) (bs.drop offset) := by
  induction h generalizing offset bs with
  | nil => simp [describeFrom, exchange, Bytes.orient]
  | @cons f g fs gs hfirst _ ih =>
    have hmem : (⟨f.name, offset, f.length, f.content.role, .value f.type, f.reversed, true⟩ :
        Descriptor) ∈ describeFrom offset (f :: fs) := List.mem_cons_self
    have hspan := spanIn_of_mem hmem frame
    simp only at hspan
    obtain ⟨reversed, rfl⟩ := hfirst
    rw [sizeOf] at hlen
    have hfront : (bs.take offset ++
        Bytes.orient (f.reversed != reversed) ((bs.drop offset).take f.length)).length =
          offset + f.length := by
      simp only [List.length_append, Bytes.length_orient, List.length_take, List.length_drop]
      omega
    rw [describeFrom, describeFrom, List.zip_cons_cons, List.foldl_cons, turnField_header hspan,
      ih ?_, List.take_left' hfront, List.drop_left' hfront, List.append_assoc, List.zip_cons_cons,
      exchange, List.drop_drop]
    rw [List.length_append, hfront, List.length_drop]
    omega

@[simp] theorem length_describeFrom (offset : ℕ) (header : List HeaderField) :
    (describeFrom offset header).length = header.length := by
  induction header generalizing offset with
  | nil => rfl
  | cons f rest ih => rw [describeFrom, List.length_cons, ih, List.length_cons]

/-- Turning the windows of a header leaves what follows it. -/
theorem foldl_turnField_header (h : List.Forall₂ SameField fs gs)
    (hlen : sizeOf fs ≤ frame.length) :
    ((describeFrom 0 fs).zip (describeFrom 0 gs)).foldl (turnField frame) frame =
      exchange false (fs.zip gs) (frame.take (sizeOf fs)) ++ frame.drop (sizeOf fs) := by
  rw [foldl_turnField h frame (by rw [Nat.zero_add]; exact hlen), List.take_zero, List.nil_append,
    List.drop_zero, exchange_eq_append _ hlen h.length_eq]
  rfl

/-- What follows the header is turned around as far as the frame goes. -/
theorem foldl_turnField_concat (h : List.Forall₂ SameField fs gs) (hlen : sizeOf fs ≤ frame.length)
    {d e : Descriptor} (hvariable : d.isVariable = true) (hoffset : d.offset = sizeOf fs) :
    ((describeFrom 0 fs ++ [d]).zip (describeFrom 0 gs ++ [e])).foldl (turnField frame) frame =
      exchange (d.reversed != e.reversed) (fs.zip gs) frame := by
  have hspan : d.spanIn frame = ⟨sizeOf fs, frame.length - sizeOf fs⟩ := by
    rw [Descriptor.spanIn, if_pos hvariable, hoffset]
  have hfront : (exchange false (fs.zip gs) (frame.take (sizeOf fs))).length = sizeOf fs := by
    rw [length_exchange, List.length_take]
    omega
  have hrest : (frame.drop (sizeOf fs)).take (frame.length - sizeOf fs) =
      frame.drop (sizeOf fs) := by
    rw [List.take_of_length_le]
    rw [List.length_drop]
  have hend : (exchange false (fs.zip gs) (frame.take (sizeOf fs)) ++ frame.drop (sizeOf fs)).drop
      (sizeOf fs + (frame.length - sizeOf fs)) = [] := by
    rw [List.drop_eq_nil_iff, List.length_append, hfront, List.length_drop]
  rw [List.zip_append (by simp [h.length_eq]), List.foldl_append, foldl_turnField_header h hlen,
    List.zip_cons_cons, List.foldl_cons, turnField_header hspan, hend, List.take_left' hfront,
    List.drop_left' hfront, hrest, exchange_eq_append _ hlen h.length_eq, List.append_nil]
  rfl

/-- **Turning a frame** is the exchange of its header and of what follows it. -/
theorem turning_eq (same : s.unturned = t.unturned) (hlen : s.fixedSize ≤ frame.length) :
    s.turning t frame = exchange (s.turned != t.turned) (s.header.zip t.header) frame := by
  have fields := sameFields_header same
  rw [turning]
  cases twins_of_unturned same with
  | flat name =>
    rw [descriptors, descriptors, List.append_nil, List.append_nil]
    rw [exchange_eq_append _ hlen fields.length_eq]
    exact foldl_turnField_header fields hlen
  | withBody => exact foldl_turnField_concat fields hlen rfl rfl
  | withMessage => exact foldl_turnField_concat fields hlen rfl rfl

/-- Turning a frame keeps its length. -/
theorem length_turning (same : s.unturned = t.unturned) (hlen : s.fixedSize ≤ frame.length) :
    (s.turning t frame).length = frame.length := by
  rw [turning_eq same hlen, length_exchange]

theorem fixedSize_of_unturned (same : s.unturned = t.unturned) : t.fixedSize = s.fixedSize :=
  sizeOf_of_sameFields (sameFields_header same)

/-- The header and what follows it are turned apart from each other. -/
theorem split_turning (same : s.unturned = t.unturned) (hlen : s.fixedSize ≤ frame.length) :
    (s.turning t frame).take s.fixedSize =
        exchange false (s.header.zip t.header) (frame.take s.fixedSize) ∧
      (s.turning t frame).drop s.fixedSize =
        Bytes.orient (s.turned != t.turned) (frame.drop s.fixedSize) := by
  have hfront : (exchange false (s.header.zip t.header) (frame.take (sizeOf s.header))).length =
      s.fixedSize := by
    rw [length_exchange, List.length_take]
    exact Nat.min_eq_left hlen
  rw [turning_eq same hlen, exchange_eq_append _ hlen (sameFields_header same).length_eq]
  exact ⟨List.take_left' hfront, List.drop_left' hfront⟩

end Schema

/-- A frame with other bytes around the frame inside it. -/
def Frame.alter (change : Bytes → Bytes) : Frame → Frame
  | flat bytes => flat (change bytes)
  | around bytes inner => around (change bytes) inner

variable [OwnTypes]

/-- What writing leaves, with other bytes. -/
def Serialized.alter (change : Bytes → Bytes) (w : Serialized) : Serialized :=
  ⟨w.outcome.map (·.alter change), w.message, w.acquired⟩

/-- The number whose bytes a scalar is written as. -/
def Scalar.number : (kind : Scalar) → kind.Carrier → ℕ
  | int _, v => v.toNat
  | wide _, v => v.toNat
  | float32, v => v.toNat
  | float64, v => v.toNat
  | bool, v => v.toNat
  | char, v => v.toNat

omit [OwnTypes] in
theorem Scalar.encode_eq_ofNatLE (kind : Scalar) (v : kind.Carrier) :
    kind.encode v = Bytes.ofNatLE kind.width (kind.number v) := by
  cases kind with
  | bool => cases v <;> rfl
  | _ => rfl

namespace Codec

variable {c : Codec} {s t : Schema} {m : Message} {fs gs : List HeaderField} {f g : HeaderField}
variable {bs frame body : Bytes} {behind : Bool} {inner : Option Frame} {acquired : List ℕ}

/-! ## Writing -/

/-- **A window in another byte order** is the window turned around. -/
theorem window_of_sameField (h : Schema.SameField f g) (m : Message) :
    c.window m g = (c.window m f).map (Bytes.orient (f.reversed != g.reversed)) := by
  obtain ⟨reversed, rfl⟩ := h
  have htype : HeaderField.type { f with reversed } = f.type := rfl
  rw [window, window, htype]
  cases c.registry.encode f.type (m.get f.name f.type) with
  | error fault => rfl
  | ok bs =>
    by_cases hlong : f.length < bs.length
    · simp only [if_pos hlong, Except.map]
    · simp only [if_neg hlong, Except.map, Bytes.orient_bne]

/-- So is a header, window by window. -/
theorem header_of_sameFields (h : List.Forall₂ Schema.SameField fs gs) (m : Message) :
    c.header m gs = (c.header m fs).map (Schema.exchange false (fs.zip gs)) := by
  induction h with
  | nil => rfl
  | @cons f g fs gs hfirst _ ih =>
    rw [header, header, window_of_sameField hfirst, ih]
    cases hwindow : c.window m f with
    | error fault => rfl
    | ok w =>
      have hlen := length_of_window hwindow
      cases c.header m fs with
      | error fault => rfl
      | ok ws =>
        simp only [Except.map, List.zip_cons_cons, Schema.exchange, List.take_left' hlen,
          List.drop_left' hlen]

/-- Which length is set does not depend on byte orders. -/
theorem writeLength_unturned (fs : List HeaderField) (n : ℕ) (m : Message) :
    Schema.writeLength (fs.map (·.unturned)) n m = Schema.writeLength fs n m := by
  rw [Schema.writeLength, Schema.writeLength, Schema.lengthFieldFrom_unturned]
  cases Schema.lengthFieldFrom 0 fs with
  | none => rfl
  | some l =>
    simp only [Option.map_some]
    cases l.type.ofLength? n <;> rfl

/-- **Writing a header in another byte order before a body** turns its frame. -/
theorem enclose_of_unturned (same : fs.map (·.unturned) = gs.map (·.unturned)) (behind : Bool)
    (body : Bytes) (inner : Option Frame) (m : Message) (acquired : List ℕ) :
    c.enclose gs (Bytes.orient behind body) inner m acquired =
      (c.enclose fs body inner m acquired).alter (Schema.exchange behind (fs.zip gs)) := by
  have fields := Schema.sameFields_of_unturned same
  have hsize := Schema.sizeOf_of_sameFields fields
  have hwrite (n : ℕ) : Schema.writeLength gs n m = Schema.writeLength fs n m := by
    rw [← writeLength_unturned, ← same, writeLength_unturned]
  rw [enclose, enclose, hsize, Bytes.length_orient, hwrite]
  cases c.frameLength (Schema.sizeOf fs) body.length with
  | error fault => rfl
  | ok total =>
    cases Schema.writeLength fs body.length m with
    | error fault => rfl
    | ok m' =>
      simp only [header_of_sameFields fields]
      cases hhead : c.header m' fs with
      | error fault => rfl
      | ok head =>
        have hlen : head.length = Schema.sizeOf fs := length_of_header hhead
        have hfront : Schema.sizeOf fs ≤ (head ++ body).length := by
          rw [List.length_append]
          omega
        have hturned := Schema.exchange_eq_append behind hfront fields.length_eq
        rw [List.take_left' hlen, List.drop_left' hlen] at hturned
        simp only [Except.map, ← hturned, Serialized.alter]
        cases inner <;> rfl

/-- **Writing under another byte order** turns the frame. -/
theorem serialize_of_unturned (same : s.unturned = t.unturned) (m : Message) :
    c.serialize t m =
      (c.serialize s m).alter
        (Schema.exchange (s.turned != t.turned) (s.header.zip t.header)) := by
  cases Schema.twins_of_unturned same with
  | flat name hheader =>
    rw [serialize, serialize]
    exact enclose_of_unturned hheader false [] none m []
  | withBody name field type reversed reversed' hheader =>
    rw [serialize, serialize]
    simp only
    cases c.registry.encode type (m.get field type) with
    | error fault => rfl
    | ok bs =>
      simp only
      rw [← Bytes.orient_bne reversed reversed' bs]
      exact enclose_of_unturned hheader _ _ _ _ _
  | withMessage name field writable reversed reversed' inner hheader =>
    rw [serialize, serialize]
    simp only
    cases (c.serialize inner (m.part field)).outcome with
    | error fault => rfl
    | ok within =>
      simp only
      rw [← Bytes.orient_bne reversed reversed' within.bytes]
      exact enclose_of_unturned hheader _ _ _ _ _

/-! ## Reading -/

/-- **Reading a header in another byte order** reads the header turned. -/
theorem readHeader_of_sameFields (h : List.Forall₂ Schema.SameField fs gs)
    (hlen : Schema.sizeOf fs ≤ bs.length) (m : Message) :
    c.readHeader m gs bs = c.readHeader m fs (Schema.exchange behind (fs.zip gs) bs) := by
  induction h generalizing bs m with
  | nil => rfl
  | @cons f g fs gs hfirst _ ih =>
    rw [Schema.sizeOf] at hlen
    have hfront : f.length ≤ bs.length := by omega
    obtain ⟨hwindow, hrest⟩ := Schema.split_exchange_cons f g behind (fs.zip gs) hfront
    have hlater : Schema.sizeOf fs ≤ (bs.drop f.length).length := by
      rw [List.length_drop]
      omega
    rw [List.zip_cons_cons, readHeader, readHeader, hwindow, hrest, Bytes.orient_bne_comm]
    obtain ⟨reversed, rfl⟩ := hfirst
    simp only
    cases c.registry.decode f.name f.type (Bytes.orient reversed (bs.take f.length)) with
    | error fault => rfl
    | ok v => exact ih hlater _

/-- **What a header announces in another byte order** is what the header turned
announces. -/
theorem announced_of_unturned (same : s.unturned = t.unturned) (hlen : s.fixedSize ≤ bs.length) :
    c.announced t bs =
      c.announced s (Schema.exchange behind (s.header.zip t.header) bs) := by
  have fields := Schema.sameFields_header same
  have hbody : c.bodyLength t.header bs =
      c.bodyLength s.header (Schema.exchange behind (s.header.zip t.header) bs) := by
    rcases Schema.readsLength_exchange behind fields hlen 0 with
      ⟨hnone, hnone'⟩ | ⟨l, reversed, hl, hl', -, hwindow⟩
    · simp only [bodyLength, hnone, hnone']
    · rw [Nat.sub_zero] at hwindow
      simp only [bodyLength, hl, hl', hwindow]
      cases c.registry.decode l.name (.scalar (.int l.type)) (Bytes.orient l.reversed
          (((Schema.exchange behind (s.header.zip t.header) bs).drop l.offset).take l.length)) with
      | error fault => rfl
      | ok v => cases l.type.toLength? v <;> rfl
  rw [announced, announced, hbody, Schema.fixedSize_of_unturned same]

/-- A complete header in a frame. -/
theorem announced_take_of_unturned (same : s.unturned = t.unturned)
    (hlen : s.fixedSize ≤ frame.length) :
    c.announced t (frame.take t.fixedSize) =
      c.announced s ((s.turning t frame).take s.fixedSize) := by
  have hhead : (frame.take s.fixedSize).length = s.fixedSize := by
    rw [List.length_take]
    omega
  rw [(Schema.split_turning same hlen).1, Schema.fixedSize_of_unturned same]
  exact announced_of_unturned same (Nat.le_of_eq hhead.symm)

/-- What follows the header is read in another byte order as it is read turned. -/
theorem finish_of_unturned (same : s.unturned = t.unturned) (tail : Bytes) (m : Message) :
    c.finish t tail m = c.finish s (Bytes.orient (s.turned != t.turned) tail) m := by
  cases Schema.twins_of_unturned same with
  | flat name => rfl
  | withBody name field type reversed reversed' =>
    simp only [finish, Schema.turned, Bytes.orient_bne_comm]
    cases c.registry.decode field type (Bytes.orient reversed' tail) <;> rfl
  | withMessage name field writable reversed reversed' inner =>
    simp only [finish, Schema.turned, Bytes.orient_bne_comm]

/-- **Reading under another byte order** reads the frame turned. -/
theorem readMessage_of_unturned (same : s.unturned = t.unturned)
    (hlen : s.fixedSize ≤ frame.length) :
    c.readMessage t frame = c.readMessage s (s.turning t frame) := by
  have hheader : c.readHeader .blank t.header frame =
      c.readHeader .blank s.header (s.turning t frame) := by
    rw [Schema.turning_eq same hlen]
    exact readHeader_of_sameFields (Schema.sameFields_header same) hlen _
  rw [readMessage_eq, readMessage_eq, announced_take_of_unturned same hlen,
    Schema.fixedSize_of_unturned same, Schema.length_turning same hlen, hheader,
    (Schema.split_turning same hlen).2]
  simp only [finish_of_unturned same]

/-! ## Most significant byte first -/

/-- A frame begins with the header of the message that the writing left. -/
theorem header_of_serialize {frame : Frame} (h : (c.serialize s m).outcome = .ok frame) :
    ∃ head body, c.header (c.serialize s m).message s.header = .ok head ∧
      frame.bytes = head ++ body := by
  have enclosed {fields : List HeaderField} {body : Bytes} {inner : Option Frame} {m : Message}
      {acquired : List ℕ} (h : (c.enclose fields body inner m acquired).outcome = .ok frame) :
      ∃ head body', c.header (c.enclose fields body inner m acquired).message fields = .ok head ∧
        frame.bytes = head ++ body' := by
    obtain ⟨m', head, hm', -, -, hhead, hbytes⟩ := enclose_ok h
    exact ⟨head, body, hm' ▸ hhead, hbytes⟩
  cases s with
  | flat name header => exact enclosed h
  | withBody name header body =>
    rw [serialize] at h ⊢
    cases hbody : c.registry.encode body.type (m.get body.name body.type) with
    | error fault => simp [hbody] at h
    | ok bs =>
      simp only [hbody] at h ⊢
      exact enclosed h
  | withMessage name header part inner =>
    rw [serialize] at h ⊢
    cases hwithin : (c.serialize inner (m.part part.name)).outcome with
    | error fault => simp [hwithin] at h
    | ok within =>
      simp only [hwithin] at h ⊢
      exact enclosed h

/-- **A reversed scalar is right-aligned behind zeros**, most significant byte first. -/
theorem window_of_reversed {frame : Frame} (h : (c.serialize s m).outcome = .ok frame)
    {d : Schema.Descriptor} (hd : d ∈ s.descriptors) (hfixed : d.isVariable = false)
    (hreversed : d.reversed = true) {kind : Scalar} (hcontent : d.content = .value (.scalar kind))
    (hnone : c.registry.find? (.scalar kind) = none) :
    kind.width ≤ d.length ∧ (frame.bytes.drop d.offset).take d.length =
      List.replicate (d.length - kind.width) 0 ++ Bytes.ofNatBE kind.width
        (kind.number ((c.serialize s m).message.get d.name (.scalar kind))) := by
  obtain ⟨head, body, hhead, hbytes⟩ := header_of_serialize h
  obtain ⟨ws, hws, rfl⟩ := header_eq_ok_iff.mp hhead
  have hheader : d ∈ Schema.describeFrom 0 s.header := by
    rcases Schema.descriptors_cases s with he | ⟨e, he, hvariable, -⟩
    · rwa [he] at hd
    · rw [he, List.mem_append, List.mem_singleton] at hd
      refine hd.resolve_right ?_
      rintro rfl
      rw [hfixed] at hvariable
      cases hvariable
  obtain ⟨type, bs, htype, hbs, hfits, hwindow⟩ := window_of_fills hws hheader body
  obtain rfl : .scalar kind = type := Schema.FieldContent.value.inj (hcontent.symm.trans htype)
  have hencoded : bs = kind.encode ((c.serialize s m).message.get d.name (.scalar kind)) := by
    simpa [ValueType.encode, eq_comm] using Registry.encode_ok_of_find?_none hnone hbs
  rw [Nat.sub_zero, hreversed, Bytes.orient, if_pos rfl, hencoded, Scalar.encode_eq_ofNatLE,
    Bytes.reverse_padTo_ofNatLE] at hwindow
  rw [hencoded, Scalar.length_encode] at hfits
  exact ⟨hfits, hbytes ▸ hwindow⟩

/-! ## All of it -/

/-- **Two schemas whose frames are each other's, turned.** -/
structure Turns (c : Codec) (s t : Schema) : Prop where
  /-- They ask the same of the converters and of a reader, and a message has the same key
  under both. -/
  prepared : c.lack? t = c.lack? s ∧ t.undecodable? = s.undecodable? ∧
    ∀ m, t.keyOf m = s.keyOf m
  /-- Writing under the second gives the frame of the first turned, or its fault, and leaves
  the same message. -/
  written : ∀ m, c.serialize t m = (c.serialize s m).alter (s.turning t)
  /-- Reading a frame under the second is reading it turned under the first. -/
  read : ∀ frame : Bytes, s.fixedSize ≤ frame.length →
    c.decodeFrame t frame = c.decodeFrame s (s.turning t frame)
  /-- Bytes that are too short for a header are refused by both alike. -/
  short : ∀ frame : Bytes, frame.length < s.fixedSize →
    c.decodeFrame t frame = .error (.frameLength s.fixedSize frame.length) ∧
      c.decodeFrame s frame = .error (.frameLength s.fixedSize frame.length)
  /-- A header announces to the second what it announces turned to the first, and a buffer
  begins with the same. -/
  framed : ∀ b : Bytes, s.fixedSize ≤ b.length →
    c.announced t (b.take t.fixedSize) = c.announced s ((s.turning t b).take s.fixedSize) ∧
      c.front t b = c.front s (s.turning t b)
  /-- Both wait for a header to become complete. -/
  waits : ∀ b : Bytes, b.length < s.fixedSize → c.Waits t b ∧ c.Waits s b
  /-- The frame in front of a buffer is taken off and read turned. -/
  takes : ∀ b total, c.front t b = .frame total →
    c.decodeNext t b = ((c.decodeFrame s (s.turning t (b.take total))).map some, b.drop total)
  /-- A scalar that is written in reverse by its built-in encoding stands behind zeros, most
  significant byte first. -/
  reversed : ∀ m frame, (c.serialize t m).outcome = .ok frame → ∀ d ∈ t.descriptors,
    d.isVariable = false → d.reversed = true → ∀ kind, d.content = .value (.scalar kind) →
      c.registry.find? (.scalar kind) = none →
        kind.width ≤ d.length ∧ (frame.bytes.drop d.offset).take d.length =
          List.replicate (d.length - kind.width) 0 ++ Bytes.ofNatBE kind.width
            (kind.number ((c.serialize t m).message.get d.name (.scalar kind)))

theorem lack?_of_unturned (same : s.unturned = t.unturned) : c.lack? t = c.lack? s := by
  have hcustom : t.customTypes = s.customTypes := by
    rw [← Schema.customTypes_unturned, ← same, Schema.customTypes_unturned]
  have hnarrow : t.narrowFields = s.narrowFields := by
    rw [← Schema.narrowFields_unturned, ← same, Schema.narrowFields_unturned]
  rw [lack?, lack?, hcustom, hnarrow]

theorem keyOf_of_unturned (same : s.unturned = t.unturned) (m : Message) :
    t.keyOf m = s.keyOf m := by
  have hidentifier : t.identifier? = s.identifier? := by
    rw [← Schema.identifier?_unturned, ← same, Schema.identifier?_unturned]
  rw [Schema.keyOf, Schema.keyOf, hidentifier]

/-- A frame that is written has room for its header. -/
theorem fixedSize_le_of_serialize {frame : Frame} (h : (c.serialize s m).outcome = .ok frame) :
    s.fixedSize ≤ frame.bytes.length := by
  obtain ⟨head, body, hhead, hbytes⟩ := header_of_serialize h
  have hlen : head.length = s.fixedSize := length_of_header hhead
  rw [hbytes, List.length_append]
  omega

theorem decodeFrame_of_unturned (same : s.unturned = t.unturned)
    (hlen : s.fixedSize ≤ frame.length) :
    c.decodeFrame t frame = c.decodeFrame s (s.turning t frame) := by
  rw [decodeFrame, decodeFrame, readMessage_of_unturned same hlen, Schema.length_turning same hlen]
  simp only [keyOf_of_unturned same]

theorem front_of_unturned (same : s.unturned = t.unturned) {b : Bytes}
    (hlen : s.fixedSize ≤ b.length) : c.front t b = c.front s (s.turning t b) := by
  rw [front, front, announced_take_of_unturned same hlen, Schema.length_turning same hlen,
    Schema.fixedSize_of_unturned same]

/-- Too few bytes for a header are no frame. -/
theorem decodeFrame_of_lt {bs : Bytes} (h : bs.length < s.fixedSize) :
    c.decodeFrame s bs = .error (.frameLength s.fixedSize bs.length) := by
  rw [decodeFrame, readMessage_eq, if_pos h]

theorem serialize_eq_alter (same : s.unturned = t.unturned) (m : Message) :
    c.serialize t m = (c.serialize s m).alter (s.turning t) := by
  rw [serialize_of_unturned same, Serialized.alter, Serialized.alter]
  cases hwritten : (c.serialize s m).outcome with
  | error fault => rfl
  | ok frame =>
    have hturned := Schema.turning_eq same (fixedSize_le_of_serialize hwritten)
    cases frame <;> simp only [Except.map, Frame.alter, hturned, Frame.bytes] at hturned ⊢

theorem turns_of_unturned (same : s.unturned = t.unturned) : c.Turns s t := by
  have hsize := Schema.fixedSize_of_unturned same
  have hundecodable : t.undecodable? = s.undecodable? := by
    rw [← Schema.undecodable?_unturned, ← same, Schema.undecodable?_unturned]
  exact {
    prepared := ⟨lack?_of_unturned same, hundecodable, keyOf_of_unturned same⟩
    written := serialize_eq_alter same
    read := fun _ hlen => decodeFrame_of_unturned same hlen
    short := fun _ hshort => ⟨hsize ▸ decodeFrame_of_lt (hsize ▸ hshort), decodeFrame_of_lt hshort⟩
    framed := fun _ hlen => ⟨announced_take_of_unturned same hlen, front_of_unturned same hlen⟩
    waits := fun _ hshort => ⟨waits_of_front (front_eq_short_iff.mpr (.inl (hsize ▸ hshort))),
      waits_of_front (front_eq_short_iff.mpr (.inl hshort))⟩
    takes := by
      intro b total hfront
      obtain ⟨n, -, -, htotal⟩ := announced_eq_ok_iff.mp (front_eq_frame_iff.mp hfront).2.2
      obtain ⟨-, hlen, -⟩ := front_eq_frame_iff.mp hfront
      have hframe : s.fixedSize ≤ (b.take total).length := by
        rw [List.length_take]
        omega
      rw [decodeNext_eq, hfront, ← decodeFrame_of_unturned same hframe]
    reversed := fun _ _ h _ hd hfixed hreversed _ hcontent hnone =>
      window_of_reversed h hd hfixed hreversed hcontent hnone }

/-- **Byte orders turn windows around, and do nothing else**: schemas that differ in them
only have each other's frames, turned, and a layout still makes a schema after its byte
orders are changed. -/
theorem byteOrders_turn (c : Codec) :
    (∀ s t : Schema, s.unturned = t.unturned → c.Turns s t) ∧
      ∀ (l other : Layout) (s : Schema), l.unturned = other.unturned →
        Schema.ofLayout l = .ok s → ∃ t, Schema.ofLayout other = .ok t ∧ c.Turns s t := by
  refine ⟨fun _ _ => turns_of_unturned, fun l other s same made => ?_⟩
  obtain ⟨t, hother, hsame⟩ := Schema.exists_unturned_of_ofLayout same made
  exact ⟨t, hother, turns_of_unturned hsame⟩

end Codec

end FramedDuplex

namespace FramedDuplex.Codec

/-- The envelope with its numbers most significant byte first, and its letter as written. -/
def mirroredLayout : Layout :=
  .mk "Envelope"
    [⟨"letter", 22, .composed
        (.mk "Letter"
          [⟨"size", 6, .length ⟨.w16, true⟩ 2, true, true⟩,
            ⟨"to", 0, .metaData .text 6, true, true⟩,
            ⟨"content", 8, .body .bytes, true, true⟩]), false, true⟩,
      ⟨"seq", 0, .identifier (.scalar (.int ⟨.w32, false⟩)) 4, true, true⟩,
      ⟨"from", 4, .metaData .uuid 16, false, true⟩,
      ⟨"size", 20, .length ⟨.w8, false⟩ 2, true, true⟩]

def mirroredSchema : Schema :=
  .withMessage "Envelope"
    [⟨"seq", 4, .identifier (.scalar (.int ⟨.w32, false⟩)), true⟩,
      ⟨"from", 16, .metaData .uuid, false⟩,
      ⟨"size", 2, .length ⟨.w8, false⟩, true⟩]
    ⟨"letter", false, true⟩ letterSchema

theorem byteOrders_turn_envelope :
    Schema.ofLayout envelopeLayout = .ok envelopeSchema ∧
      Schema.ofLayout mirroredLayout = .ok mirroredSchema ∧
      envelopeSchema.unturned = mirroredSchema.unturned ∧
      (standard.serialize mirroredSchema envelope).outcome = .ok (.around
        [0, 0, 0, 7, 1, 1, 1, 1, 1, 1, 1, 1, 1, 1, 1, 1, 1, 1, 1, 1, 0, 11,
          0, 0, 0, 97, 100, 65, 0, 3, 3, 2, 1] (.flat [0, 0, 0, 97, 100, 65, 0, 3, 3, 2, 1])) := by
  have same : envelopeSchema.unturned = mirroredSchema.unturned := rfl
  have turns : standard.Turns envelopeSchema mirroredSchema := (byteOrders_turn standard).1 _ _ same
  refine ⟨(prepareDecoder_ok prepareDecoder_envelope).1, by cbv, same, ?_⟩
  rw [turns.written]
  rfl

end FramedDuplex.Codec
