import FramedDuplex.Pool.Ledger
import FramedDuplex.Pool.InPlace
import FramedDuplex.Proofs.Codec.Window
/-!
# What is written does not depend on the buffers

`Codec.serialize` puts a frame together from its parts and says which buffers are asked
for; `Codec.serializeIn` writes into these buffers. Both come to the same: the same frame
or the same fault, the same message, and the pool as it is after the buffers have been
taken one by one (`Codec.inPlace_serializeIn`). Nothing of the pool enters into the
former, so whatever is in a pool, and whatever its limits are, the same is written.

The reason is in one lemma: a window that holds nothing but zero bytes when a value is
copied to its front holds the value filled up (`Codec.fill_zeros`).
-/

namespace FramedDuplex

/-! ## A frame and its buffers -/

namespace Packed

/-- The frame alone. -/
def frame : Packed → Frame
  | flat _ content length => .flat (content.take length)
  | around _ content length inner => .around (content.take length) inner.frame

/-- The buffers alone, innermost first. -/
def buffers : Packed → List Buffer
  | flat buffer _ _ => [buffer]
  | around buffer _ _ inner => inner.buffers ++ [buffer]

/-- No frame is longer than what is in its buffer. -/
def Full : Packed → Prop
  | flat _ content length => content.length = length
  | around _ content length inner => content.length = length ∧ inner.Full

@[simp] theorem bytes_frame (p : Packed) : p.frame.bytes = p.bytes := by
  cases p <;> rfl

@[simp] theorem frame_of (buffer : Buffer) (content : Bytes) (length : ℕ) (inner : Option Packed) :
    (of buffer content length inner).frame = .of (content.take length) (inner.map (·.frame)) := by
  cases inner <;> rfl

@[simp] theorem buffers_of (buffer : Buffer) (content : Bytes) (length : ℕ)
    (inner : Option Packed) : (of buffer content length inner).buffers =
      (inner.map (·.buffers)).getD [] ++ [buffer] := by
  cases inner <;> rfl

theorem full_of {buffer : Buffer} {content : Bytes} {length : ℕ} {inner : Option Packed}
    (h : content.length = length) (hinner : ∀ p, inner = some p → p.Full) :
    (of buffer content length inner).Full := by
  cases inner with
  | none => exact h
  | some p => exact ⟨h, hinner p rfl⟩

/-- The buffers are given back innermost first. -/
theorem release_eq_releaseAll (pool : Pool) (p : Packed) :
    p.release pool = pool.releaseAll p.buffers := by
  induction p with
  | flat buffer content length => rfl
  | around buffer content length inner ih =>
    rw [release, ih, buffers, Pool.releaseAll, Pool.releaseAll, List.foldl_append]
    rfl

theorem length_of_full {p : Packed} (h : p.Full) : p.length = p.bytes.length := by
  cases p with
  | flat buffer content length =>
    obtain rfl : content.length = length := h
    rw [Packed.length, bytes, List.take_length]
  | around buffer content length inner =>
    obtain ⟨rfl, -⟩ := h
    rw [Packed.length, bytes, List.take_length]

end Packed

/-! ## One buffer after the other -/

theorem Pool.acquireAll_append (p : Pool) (first second : List ℕ) :
    p.acquireAll (first ++ second) =
      ((p.acquireAll first).1 ++ ((p.acquireAll first).2.acquireAll second).1,
        ((p.acquireAll first).2.acquireAll second).2) := by
  induction first generalizing p with
  | nil => rfl
  | cons capacity rest ih =>
    rw [List.cons_append, Pool.acquireAll, Pool.acquireAll]
    simp only [ih]
    rfl

variable [OwnTypes]

namespace Codec

variable {c : Codec} {s : Schema} {m : Message} {a : Arena} {fields : List HeaderField}

/-! ## The header -/

omit [OwnTypes] in
/-- A window of zero bytes to the front of which a value was copied, turned around if its
byte order is reversed, is the window that is written. -/
theorem window_of_zeros {front value back : Bytes} {f : HeaderField}
    (hfits : value.length ≤ f.length) :
    (if f.reversed then
        ((front ++ List.replicate f.length 0 ++ back).copyAt front.length value).reverseAt
          front.length f.length
      else (front ++ List.replicate f.length 0 ++ back).copyAt front.length value) =
      front ++ Bytes.orient f.reversed (Bytes.padTo f.length value) ++ back := by
  have zeros : List.replicate f.length (0 : UInt8) =
      List.replicate value.length 0 ++ List.replicate (f.length - value.length) 0 := by
    rw [List.replicate_append_replicate, Nat.add_sub_cancel' hfits]
  have copied : (front ++ List.replicate f.length 0 ++ back).copyAt front.length value =
      front ++ Bytes.padTo f.length value ++ back := by
    have split : front ++ List.replicate f.length (0 : UInt8) ++ back =
        front ++ List.replicate value.length 0 ++
          (List.replicate (f.length - value.length) 0 ++ back) := by
      rw [zeros]
      simp only [List.append_assoc]
    rw [split, Bytes.copyAt_append _ _ _ _ (List.length_replicate ..).symm, Bytes.padTo]
    simp only [List.append_assoc]
  have hlen : (Bytes.padTo f.length value).length = f.length := by
    rw [Bytes.length_padTo]
    omega
  rw [copied]
  cases f.reversed with
  | false => rfl
  | true =>
    rw [if_pos rfl, Bytes.orient, if_pos rfl]
    have turned := Bytes.reverseAt_append front (Bytes.padTo f.length value) back
    rwa [hlen] at turned

/-- **Fields written into zero bytes** come to the header, and leave what is before and
behind. -/
theorem fill_zeros (fields : List HeaderField) (m : Message) (front back : Bytes) :
    c.fill m front.length fields (front ++ List.replicate (Schema.sizeOf fields) 0 ++ back) =
      (c.header m fields).map fun head => front ++ head ++ back := by
  induction fields generalizing front with
  | nil => simp [fill, header, Except.map, Schema.sizeOf]
  | cons f rest ih =>
    rw [fill, header, window]
    cases c.registry.encode f.type (m.get f.name f.type) with
    | error fault => rfl
    | ok value =>
      by_cases hlong : f.length < value.length
      · simp only [if_pos hlong, Except.map]
      · have hfits : value.length ≤ f.length := by omega
        have zeros : front ++ List.replicate (Schema.sizeOf (f :: rest)) (0 : UInt8) ++ back =
            front ++ List.replicate f.length 0 ++
              (List.replicate (Schema.sizeOf rest) 0 ++ back) := by
          rw [Schema.sizeOf, ← List.replicate_append_replicate]
          simp only [List.append_assoc]
        have hlen : (front ++ Bytes.orient f.reversed (Bytes.padTo f.length value)).length =
            front.length + f.length := by
          rw [List.length_append, Bytes.length_orient, Bytes.length_padTo]
          omega
        have later := ih (front ++ Bytes.orient f.reversed (Bytes.padTo f.length value))
        rw [hlen] at later
        simp only [if_neg hlong]
        rw [zeros, window_of_zeros hfits, ← List.append_assoc, later]
        cases c.header m rest with
        | error fault => rfl
        | ok ws => simp only [Except.map, List.append_assoc]

/-! ## The frame -/

omit [OwnTypes] in
/-- A body copied behind a header and turned around in its place. -/
theorem body_of_zeros (head body : Bytes) (reversed : Bool) :
    (if reversed then
        ((head ++ List.replicate body.length 0).copyAt head.length body).reverseAt head.length
          body.length
      else (head ++ List.replicate body.length 0).copyAt head.length body) =
      head ++ Bytes.orient reversed body := by
  have copied := Bytes.copyAt_append head body (List.replicate body.length 0) []
    (List.length_replicate ..).symm
  have turned := Bytes.reverseAt_append head body []
  simp only [List.append_nil] at copied turned
  rw [copied]
  cases reversed with
  | false => rfl
  | true => rw [if_pos rfl, turned, Bytes.orient, if_pos rfl]

/-- **Writing into buffers comes to the same** as putting a frame together: the frame or the
fault, the message, and the pool once the buffers were taken. -/
structure InPlace (written : Serialized) (a : Arena) (loaded : Loaded) : Prop where
  frame : loaded.outcome.map (·.frame) = written.outcome
  buffers : ∀ packed, loaded.outcome = .ok packed →
    packed.buffers = (a.pool.acquireAll written.acquired).1
  full : ∀ packed, loaded.outcome = .ok packed → packed.Full
  message : loaded.message = written.message
  arena : loaded.arena = { a with pool := (a.pool.acquireAll written.acquired).2 }

/-- What is there before a buffer is taken: the frame inside, if there is one, in the buffers
that were asked for. -/
structure Inside (a : Arena) (acquired : List ℕ) (inner : Option Frame) (packed : Option Packed)
    (a' : Arena) : Prop where
  frame : packed.map (·.frame) = inner
  buffers : (packed.map (·.buffers)).getD [] = (a.pool.acquireAll acquired).1
  full : ∀ p, packed = some p → p.Full
  arena : a' = { a with pool := (a.pool.acquireAll acquired).2 }

omit [OwnTypes] in
theorem Inside.none (a : Arena) : Inside a [] none none a :=
  ⟨rfl, rfl, nofun, rfl⟩

/-- A fault comes to the same if the same buffers were asked for until then. -/
theorem inPlace_of_fault {acquired : List ℕ} {a' : Arena}
    (harena : a' = { a with pool := (a.pool.acquireAll acquired).2 }) (fault : CodecError)
    (m : Message) : InPlace ⟨.error fault, m, acquired⟩ a ⟨.error fault, m, a'⟩ :=
  ⟨rfl, nofun, nofun, rfl, harena⟩

/-- A frame loaded into a buffer is the one put together. -/
theorem inPlace_load {acquired : List ℕ} {inner : Option Frame} {packed : Option Packed}
    {a' : Arena} (hinside : Inside a acquired inner packed a') (fields : List HeaderField)
    (body : Bytes) (reversed : Bool) (m : Message) :
    InPlace (c.enclose fields (Bytes.orient reversed body) inner m acquired) a
      (c.load fields body reversed packed m a') := by
  rw [enclose, load, Bytes.length_orient]
  cases htotal : c.frameLength (Schema.sizeOf fields) body.length with
  | error fault => exact inPlace_of_fault hinside.arena fault m
  | ok total =>
    cases Schema.writeLength fields body.length m with
    | error fault => exact inPlace_of_fault hinside.arena fault m
    | ok m' =>
      have taken := Pool.acquireAll_append a.pool acquired [total]
      obtain rfl := frameLength_eq_of_ok htotal
      -- the buffer is emptied first, so nothing but zero bytes is in it
      have zeros (left : Bytes) :
          (left.resize 0).resize (Schema.sizeOf fields + body.length) =
            [] ++ List.replicate (Schema.sizeOf fields) 0 ++ List.replicate body.length 0 := by
        rw [Bytes.resize_zero, Bytes.resize_nil, List.nil_append,
          List.replicate_append_replicate]
      have filled := fill_zeros (c := c) fields m' [] (List.replicate body.length 0)
      obtain ⟨hframe, hbuffers, hfull, rfl⟩ := hinside
      simp only [Arena.acquire, zeros]
      rw [show (0 : ℕ) = ([] : Bytes).length from rfl, filled]
      cases hhead : c.header m' fields with
      | error fault =>
        refine inPlace_of_fault ?_ fault m'
        simp only [taken]
        rfl
      | ok head =>
        have hlen : head.length = Schema.sizeOf fields := length_of_header hhead
        have hbody := body_of_zeros head body reversed
        rw [hlen] at hbody
        simp only [Except.map, List.nil_append, hbody]
        have hcontent : (head ++ Bytes.orient reversed body).length =
            Schema.sizeOf fields + body.length := by
          rw [List.length_append, Bytes.length_orient, hlen]
        have htaken : (head ++ Bytes.orient reversed body).take
            (Schema.sizeOf fields + body.length) = head ++ Bytes.orient reversed body := by
          rw [← hcontent, List.take_length]
        refine ⟨?_, ?_, ?_, rfl, ?_⟩
        · simp only [Except.map, Packed.frame_of, htaken, hframe]
        · rintro _ ⟨⟩
          rw [Packed.buffers_of, hbuffers, taken]
          rfl
        · rintro _ ⟨⟩
          exact Packed.full_of hcontent hfull
        · simp only [taken]
          rfl

/-- **Writing into buffers comes to the same**, whatever is in the pool and left in its
buffers. -/
theorem inPlace_serializeIn (c : Codec) (s : Schema) (m : Message) (a : Arena) :
    InPlace (c.serialize s m) a (c.serializeIn s m a) := by
  induction s generalizing m a with
  | flat name fields => exact inPlace_load (.none a) fields [] false m
  | withBody name fields body =>
    rw [serialize, serializeIn]
    cases c.registry.encode body.type (m.get body.name body.type) with
    | error fault => exact inPlace_of_fault rfl fault m
    | ok bs => exact inPlace_load (.none a) fields bs body.reversed m
  | withMessage name fields part inner ih =>
    have written := ih (m.part part.name) a
    rw [serialize, serializeIn]
    simp only [written.message]
    cases hpacked : (c.serializeIn inner (m.part part.name) a).outcome with
    | error fault =>
      have hfault := written.frame
      rw [hpacked] at hfault
      simp only [← hfault, Except.map]
      exact inPlace_of_fault written.arena fault _
    | ok packed =>
      have hframe := written.frame
      rw [hpacked] at hframe
      simp only [← hframe, Except.map, Packed.bytes_frame]
      have inside : Inside a (c.serialize inner (m.part part.name)).acquired (some packed.frame)
          (some packed) (c.serializeIn inner (m.part part.name) a).arena :=
        ⟨rfl, written.buffers packed hpacked,
          fun _ hp => Option.some.inj hp ▸ written.full _ hpacked, written.arena⟩
      exact inPlace_load inside fields packed.bytes part.reversed _

end Codec

end FramedDuplex
