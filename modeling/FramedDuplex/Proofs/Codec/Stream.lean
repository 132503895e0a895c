import FramedDuplex.Proofs.Codec.Reader
import Mathlib.Data.List.Forall2
/-!
# Whole streams

A stream that ends is read frame by frame until the first fault, and its end is
one (`Codec.Yields`): between two frames it was closed, and within one it was cut
short. So it was closed exactly if it is a whole number of frames that can be read
(`Codec.yields_closed_iff`).

Of the bytes that have arrived so far some are those of frames that were read
(`Codec.Opens`), and the assembly has the others. What it makes of the bytes that
come next is what is to be read off the stream, whatever comes behind them
(`Codec.Expects.accept`).
-/

namespace FramedDuplex

variable [OwnTypes]

namespace Codec

variable {c : Codec} {s : Schema} {stream read more bs : Bytes} {frames done : List Decoded}
variable {fault : CodecError} {d : Decoded} {a b : Assembly}

/-! ## Faults of bytes -/

omit [OwnTypes] in
theorem not_isStreamFault_toCodecError (type : ValueType) (failure : ConvertFailure) :
    (failure.toCodecError type).isStreamFault = false := by
  cases failure <;> rfl

theorem not_isStreamFault_decode {field : String} {type : ValueType} {window : Bytes}
    (h : c.registry.decode field type window = .error fault) : fault.isStreamFault = false := by
  unfold Registry.decode at h
  split at h
  · next converter _ =>
    generalize converter.decode _ = answer at h
    cases answer with
    | ok v => cases h
    | error failure =>
      cases h
      exact not_isStreamFault_toCodecError type failure
  · cases type with
    | scalar kind =>
      simp only [ValueType.decode] at h
      split at h
      · cases h
        rfl
      · cases kind with
        | char =>
          simp only [Scalar.decode] at h
          split at h
          · cases h
          · cases h
            rfl
        | _ => cases h
    | bytes => cases h
    | sharedBytes => cases h
    | _ =>
      cases h
      rfl

theorem not_isStreamFault_readHeader {m : Message} {fields : List HeaderField} {bs : Bytes}
    (h : c.readHeader m fields bs = .error fault) : fault.isStreamFault = false := by
  induction fields generalizing m bs with
  | nil => cases h
  | cons f rest ih =>
    unfold readHeader at h
    split at h
    · next hdecode =>
      cases h
      exact not_isStreamFault_decode hdecode
    · exact ih h

/-- **A header at fault is no fault of the stream.** -/
theorem not_isStreamFault_announced {head : Bytes} (h : c.announced s head = .error fault) :
    fault.isStreamFault = false := by
  rcases announced_eq_error_iff.mp h with ⟨-, hread⟩ | ⟨-, -, -⟩ | ⟨-, -⟩
  · exact not_isStreamFault_decode hread
  · rfl
  · rfl

theorem not_isStreamFault_readMessage {frame : Bytes} (h : c.readMessage s frame = .error fault) :
    fault.isStreamFault = false := by
  fun_induction readMessage c s frame generalizing fault with
  | case1 =>
    cases h
    rfl
  | case2 _ _ _ _ hann =>
    cases h
    exact not_isStreamFault_announced hann
  | case3 =>
    cases h
    rfl
  | case4 _ _ _ _ _ _ _ hheader =>
    cases h
    exact not_isStreamFault_readHeader hheader
  | case6 =>
    cases h
    exact not_isStreamFault_decode ‹_›
  | case8 =>
    cases h
    rename_i hinner ih
    exact ih hinner
  | case10 =>
    cases h
    rfl
  | case5 | case7 | case9 => cases h

theorem not_isStreamFault_decodeFrame {frame : Bytes} (h : c.decodeFrame s frame = .error fault) :
    fault.isStreamFault = false := by
  unfold decodeFrame at h
  split at h
  · next hread =>
    cases h
    exact not_isStreamFault_readMessage hread
  · cases h

theorem length_decodeFrame {frame : Bytes} (h : c.decodeFrame s frame = .ok d) :
    d.length = frame.length := by
  unfold decodeFrame at h
  split at h
  · cases h
  · cases h
    rfl

/-! ## What a whole stream yields -/

/-- **What reading a whole stream comes to**: the frames before the first fault,
and the fault. -/
inductive Yields (c : Codec) (s : Schema) : Bytes → List Decoded → CodecError → Prop where
  | fault {stream : Bytes} {fault : CodecError} : (c.readOff s stream).1 = .error fault →
      Yields c s stream [] fault
  | frame {stream : Bytes} {d : Decoded} {frames : List Decoded} {fault : CodecError} :
      (c.readOff s stream).1 = .ok d → Yields c s (c.readOff s stream).2 frames fault →
        Yields c s stream (d :: frames) fault

theorem Yields.unique {others : List Decoded} {other : CodecError}
    (h : c.Yields s stream frames fault) (h' : c.Yields s stream others other) :
    frames = others ∧ fault = other := by
  induction h generalizing others with
  | fault hfault =>
    cases h' with
    | fault hother => exact ⟨rfl, Except.error.inj (hfault.symm.trans hother)⟩
    | frame hframe _ => cases hfault.symm.trans hframe
  | frame hframe _ ih =>
    cases h' with
    | fault hother => cases hframe.symm.trans hother
    | frame hother hrest =>
      obtain rfl := Except.ok.inj (hframe.symm.trans hother)
      obtain ⟨rfl, hsame⟩ := ih hrest
      exact ⟨rfl, hsame⟩

/-- A frame that is read off a stream has the bytes in front, and leaves those
behind. -/
theorem readOff_eq_ok (h : (c.readOff s stream).1 = .ok d) :
    ∃ frame, stream = frame ++ (c.readOff s stream).2 ∧ c.IsFrame s frame ∧
      c.decodeFrame s frame = .ok d := by
  unfold readOff at h ⊢
  split at h
  · cases h
  · cases h
  · next total hfront =>
    obtain ⟨hfixed, htotal, hann⟩ := front_eq_frame_iff.mp hfront
    refine ⟨stream.take total, (List.take_append_drop ..).symm, ?_, h⟩
    obtain ⟨n, hannounces, hadmits, rfl⟩ := announced_eq_ok_iff.mp hann
    refine ⟨n, by rw [List.length_take]; omega, ?_, hadmits⟩
    rwa [List.take_take, Nat.min_eq_left (by omega)]

theorem IsFrame.length_pos (hpos : 0 < s.fixedSize) {frame : Bytes} (h : c.IsFrame s frame) :
    0 < frame.length := by
  obtain ⟨n, hlen, -⟩ := h
  omega

/-- A frame in front of a stream is what is read off it. -/
theorem IsFrame.readOff {frame : Bytes} (h : c.IsFrame s frame) (more : Bytes) :
    c.readOff s (frame ++ more) = (c.decodeFrame s frame, more) := by
  unfold Codec.readOff
  rw [h.front]
  simp

/-- **Every stream comes to something.** -/
theorem exists_yields (hpos : 0 < s.fixedSize) (stream : Bytes) :
    ∃ frames fault, c.Yields s stream frames fault := by
  induction hlen : stream.length using Nat.strong_induction_on generalizing stream with
  | _ n ih =>
    cases hread : (c.readOff s stream).1 with
    | error fault => exact ⟨[], fault, .fault hread⟩
    | ok d =>
      obtain ⟨frame, hstream, hframe, -⟩ := readOff_eq_ok hread
      have hlonger := congrArg List.length hstream
      rw [List.length_append] at hlonger
      have hshorter : (c.readOff s stream).2.length < n := by
        have := hframe.length_pos hpos
        omega
      obtain ⟨frames, fault, hyields⟩ := ih _ hshorter _ rfl
      exact ⟨d :: frames, fault, .frame hread hyields⟩

/-- **Reading frames off a stream**, in whatever pieces its bytes come, gives what
the stream yields. -/
theorem Yields.readFrames (hpos : 0 < s.fixedSize) (h : c.Yields s stream frames fault)
    {ds : List Delivery} (hflows : Delivery.Flows ds) (hstream : Delivery.unread ds = stream) :
    (c.readFrames s (frames.length + 1) ds).1 = frames.map .ok ++ [.error fault] := by
  induction h generalizing ds with
  | fault hfault =>
    have hread := reads_start (c := c) hpos hflows
    rw [hstream] at hread
    simp [Codec.readFrames, hread.result, hfault]
  | @frame _ d frames fault hframe _ ih =>
    have hread := reads_start (c := c) hpos hflows
    rw [hstream] at hread
    have hrest := ih hread.flows hread.unread
    rw [List.length_cons, Codec.readFrames]
    simp only [hrest, hread.result, hframe]
    rfl

/-! ## How a stream ends -/

/-- **Only the end of a stream says that it was closed**, and nothing that is in it
says that reading it failed. -/
theorem readOff_eq_error (hpos : 0 < s.fixedSize) (h : (c.readOff s stream).1 = .error fault) :
    (fault = .closed ↔ stream = []) ∧ ∀ reason, fault ≠ .io reason := by
  have hbytes : s.fixedSize ≤ stream.length → fault.isStreamFault = false →
      (fault = .closed ↔ stream = []) ∧ ∀ reason, fault ≠ .io reason := by
    intro hlen hfault
    refine ⟨⟨?_, ?_⟩, ?_⟩
    · rintro rfl
      cases hfault
    · rintro rfl
      simp only [List.length_nil] at hlen
      omega
    · rintro reason rfl
      cases hfault
  unfold readOff at h
  split at h
  · split at h <;> cases h
    · next hnone => simp [hnone]
    · next hne => simp [hne]
  · next cause hfront =>
    obtain ⟨hlen, hfault⟩ := front_eq_broken_iff.mp hfront
    cases h
    exact hbytes hlen (not_isStreamFault_announced (announced_eq_error_iff.mpr hfault))
  · next total hfront =>
    obtain ⟨hlen, -, -⟩ := front_eq_frame_iff.mp hfront
    exact hbytes hlen (not_isStreamFault_decodeFrame h)

theorem Yields.ne_io (hpos : 0 < s.fixedSize) (h : c.Yields s stream frames fault)
    (reason : String) : fault ≠ .io reason := by
  induction h with
  | fault hfault => exact (readOff_eq_error hpos hfault).2 reason
  | frame _ _ ih => exact ih

/-- **A stream was closed exactly if it is a whole number of frames that can be
read**, and these are what it yields. -/
theorem yields_closed_iff (hpos : 0 < s.fixedSize) : c.Yields s stream frames .closed ↔
    ∃ pieces : List Bytes, stream = pieces.flatten ∧
      List.Forall₂ (fun f d => c.IsFrame s f ∧ c.decodeFrame s f = .ok d) pieces frames := by
  constructor
  · intro h
    generalize hclosed : CodecError.closed = fault at h
    induction h with
    | fault hfault =>
      obtain rfl := (readOff_eq_error hpos hfault).1.mp hclosed.symm
      exact ⟨[], rfl, .nil⟩
    | frame hframe _ ih =>
      obtain ⟨pieces, hrest, hpieces⟩ := ih hclosed
      obtain ⟨f, hstream, hisFrame, hdecode⟩ := readOff_eq_ok hframe
      refine ⟨f :: pieces, ?_, .cons ⟨hisFrame, hdecode⟩ hpieces⟩
      rw [List.flatten_cons, ← hrest]
      exact hstream
  · rintro ⟨pieces, rfl, hpieces⟩
    induction hpieces with
    | nil =>
      refine .fault ?_
      have hshort : c.front s [] = .short := front_eq_short_iff.mpr (.inl hpos)
      simp [readOff, hshort]
    | @cons f d pieces frames hone _ ih =>
      obtain ⟨hisFrame, hdecode⟩ := hone
      have hread := hisFrame.readOff pieces.flatten
      rw [List.flatten_cons]
      refine .frame (d := d) ?_ ?_
      · rw [hread, hdecode]
      · rw [hread]
        exact ih

/-! ## Bytes that have arrived -/

/-- The bytes `read` are those of frames that were read from a stream, whatever
comes behind them. -/
structure Opens (c : Codec) (s : Schema) (read : Bytes) (done : List Decoded) : Prop where
  yields : ∀ more frames fault, c.Yields s more frames fault →
    c.Yields s (read ++ more) (done ++ frames) fault
  length : (done.map (·.length)).sum = read.length

theorem opens_nil : c.Opens s [] [] where
  yields _ _ _ h := h
  length := rfl

/-- One more frame was read. -/
theorem Opens.frame {f : Bytes} (h : c.Opens s read done)
    (hframe : ∀ more, c.readOff s (f ++ more) = (.ok d, more)) (hlength : d.length = f.length) :
    c.Opens s (read ++ f) (done ++ [d]) where
  yields more frames fault hmore := by
    rw [List.append_assoc, List.append_assoc]
    refine h.yields _ _ _ (.frame (d := d) ?_ ?_)
    · rw [hframe]
    · rw [hframe]
      exact hmore
  length := by simp [h.length, hlength]

/-- A fault ends it. -/
theorem Opens.yields_fault {rest : Bytes} (h : c.Opens s read done)
    (hfault : (c.readOff s rest).1 = .error fault) : c.Yields s (read ++ rest) done fault := by
  have := h.yields rest [] fault (.fault hfault)
  rwa [List.append_nil] at this

/-- An assembly at the start of a frame expects it. -/
theorem expects_start (hpos : 0 < s.fixedSize) : c.Expects s (.start s) :=
  .header rfl hpos (by simp [Assembly.start, Assembly.arrived])

/-- **The end of the stream** means to an assembly what is to be read off its
bytes. -/
theorem Expects.readOff_ended (h : c.Expects s a) :
    (c.readOff s a.arrived).1 = .error a.ended := by
  rw [readOff, h.front, h.ended]

theorem Expects.missing_pos (h : c.Expects s a) : 0 < a.missing := by
  cases h <;> assumption

/-- What an assembly makes of bytes: those that it misses make a frame of it or a
fault, and with less it goes on. -/
inductive Accepts (c : Codec) (s : Schema) (a : Assembly) (bs : Bytes) : Arrival → Prop where
  | more {b : Assembly} : c.Expects s b → b.arrived = a.arrived ++ bs → Accepts c s a bs (.more b)
  | frame {d : Decoded} : (∀ more, c.readOff s (a.arrived ++ bs ++ more) = (.ok d, more)) →
      d.length = (a.arrived ++ bs).length → Accepts c s a bs (.done (.ok d))
  | fault {fault : CodecError} :
      (∀ more, (c.readOff s (a.arrived ++ bs ++ more)).1 = .error fault) →
        Accepts c s a bs (.done (.error fault))

/-- A frame that is there whole is read for better or worse. -/
theorem accepts_of_isFrame (h : c.IsFrame s (a.arrived ++ bs)) :
    c.Accepts s a bs (.done (c.decodeFrame s (a.arrived ++ bs))) := by
  cases hdecode : c.decodeFrame s (a.arrived ++ bs) with
  | ok d => exact .frame (fun more => by rw [h.readOff, hdecode]) (length_decodeFrame hdecode)
  | error fault => exact .fault fun more => by rw [h.readOff, hdecode]

/-- **Bytes that an assembly asked for** are read as they stand in the stream,
whatever comes behind them. -/
theorem Expects.accepts (h : c.Expects s a) (hle : bs.length ≤ a.missing) :
    c.Accepts s a bs (c.accept s a bs) := by
  rcases Nat.lt_or_ge bs.length a.missing with hlt | hge
  · have hmore : c.accept s a bs = .more (a.add bs) := by
      have : 0 < a.missing - bs.length := by omega
      simp [accept, this]
    rw [hmore]
    exact .more (h.add hlt) (Assembly.arrived_add ..)
  · have hwhole : ¬ 0 < (a.add bs).missing := by
      rw [missing_add]
      omega
    have hlength : (a.arrived ++ bs).length = a.arrived.length + a.missing := by
      rw [List.length_append]
      omega
    rw [accept]
    simp only [if_neg hwhole, headerRead_add, Assembly.arrived_add]
    rcases h with ⟨hread, hpos, htotal⟩ | ⟨hread, hpos, htotal, hfixed, hann⟩
    · have htake : (a.arrived ++ bs).take s.fixedSize = a.arrived ++ bs :=
        List.take_of_length_le (by omega)
      simp only [hread, Bool.false_eq_true, if_false]
      cases hann : c.announced s (a.arrived ++ bs) with
      | error fault =>
        have hfront : c.front s (a.arrived ++ bs) = .broken fault :=
          front_eq_broken_iff.mpr ⟨by omega, by rw [htake, ← announced_eq_error_iff, hann]⟩
        refine .fault fun more => ?_
        rw [readOff, front_append (by simp [hfront]), hfront]
      | ok total =>
        obtain ⟨n, hannounces, hadmits, rfl⟩ := announced_eq_ok_iff.mp hann
        by_cases hmore : s.fixedSize + n ≤ s.fixedSize
        · simp only [if_pos hmore]
          exact accepts_of_isFrame ⟨n, by omega, by rwa [htake], hadmits⟩
        · simp only [if_neg hmore]
          have harrived : (a.add bs).arrived = a.arrived ++ bs := Assembly.arrived_add ..
          exact .more (expects_opened (a := a.add bs) (by rw [harrived]; omega)
            (by rw [harrived, hann]) (by omega)) harrived
    · simp only [hread, if_true]
      obtain ⟨n, hannounces, hadmits, rfl⟩ := announced_eq_ok_iff.mp hann
      refine accepts_of_isFrame ⟨n, by omega, ?_, hadmits⟩
      rwa [List.take_append_of_le_length hfixed]

end Codec

end FramedDuplex
