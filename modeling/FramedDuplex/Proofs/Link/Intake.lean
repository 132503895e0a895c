import FramedDuplex.Proofs.Codec.Stream
import FramedDuplex.Proofs.Link.Ended
/-!
# From the wire to the table

The bytes that the peer has sent are, in order, those of frames that were read,
those that the assembly of the decoder has, those in the staging pipe and in the
reader's hands, and those on the wire (`Link.Flows`). No step of a loop and no
caller loses one or puts one before another, in direct mode as in staged mode. So
what the decoder hands over is what the stream yields, and the fault that ends the
connection is the stream's (`Link.Ends`), unless the network or the client ends it
before.
-/

namespace FramedDuplex

/-- Nothing goes wrong with the wire. -/
structure Wire.Faultless (w : Wire) : Prop where
  read : w.readFault = none
  write : w.writeFault = none
  flush : w.flushFault = none

namespace Intake

variable {w w' : Wire} {intake : Intake}

/-- The bytes on their way from the wire to the decoder. -/
def bytes : Intake → Bytes
  | direct => []
  | staged (.staging chunk) pipe => pipe.staged ++ chunk
  | staged _ pipe => pipe.staged

/-- A way that is open: the reader has left its pipe only where nothing more comes
on the wire, and the decoder has not left. -/
inductive Open (w : Wire) : Intake → Prop where
  | direct : Open w .direct
  | reading {pipe : Pipe} : 0 < pipe.capacity → pipe.sourceLeft = false →
      pipe.sinkLeft = false → Open w (.staged .reading pipe)
  | staging {chunk : Bytes} {pipe : Pipe} : chunk ≠ [] → 0 < pipe.capacity →
      pipe.sourceLeft = false → pipe.sinkLeft = false → Open w (.staged (.staging chunk) pipe)
  | stopped {pipe : Pipe} : w.ended = true → w.inbound = [] → 0 < pipe.capacity →
      pipe.sourceLeft = true → pipe.sinkLeft = false → Open w (.staged .stopped pipe)

theorem Open.mono (h : Open w intake) (hended : w.ended = true → w'.ended = true)
    (hinbound : w.ended = true → w.inbound = [] → w'.inbound = []) : Open w' intake := by
  cases h with
  | direct => exact .direct
  | reading hcap hsource hsink => exact .reading hcap hsource hsink
  | staging hchunk hcap hsource hsink => exact .staging hchunk hcap hsource hsink
  | stopped hover hnone hcap hsource hsink =>
    exact .stopped (hended hover) (hinbound hover hnone) hcap hsource hsink

theorem Open.refresh (h : Open w intake) : Open w intake.refresh := by
  cases h with
  | direct => exact .direct
  | reading hcap hsource hsink => exact .reading hcap hsource hsink
  | staging hchunk hcap hsource hsink => exact .staging hchunk hcap hsource hsink
  | stopped hover hnone hcap hsource hsink => exact .stopped hover hnone hcap hsource hsink

theorem bytes_refresh (intake : Intake) : intake.refresh.bytes = intake.bytes := by
  cases intake with
  | direct => rfl
  | staged reader pipe => cases reader <;> rfl

/-- A reader with what is left of its bytes in its hands. -/
theorem bytes_of (rest : Bytes) (pipe : Pipe) :
    (staged (.of rest) pipe).bytes = pipe.staged ++ rest := by
  cases rest with
  | nil => exact (List.append_nil _).symm
  | cons b bs => rfl

theorem Open.of {pipe : Pipe} (rest : Bytes) (hcap : 0 < pipe.capacity)
    (hsource : pipe.sourceLeft = false) (hsink : pipe.sinkLeft = false) :
    Open w (.staged (.of rest) pipe) := by
  cases rest with
  | nil => exact .reading hcap hsource hsink
  | cons b bs => exact .staging (List.cons_ne_nil b bs) hcap hsource hsink

end Intake

namespace Pipe

variable {p p' : Pipe} {bs rest out : Bytes} {limit : ℕ}

/-- Staging does not change who is there. -/
theorem same_of_stage (h : p.stage bs = some (rest, p')) :
    p'.capacity = p.capacity ∧ p'.sourceLeft = p.sourceLeft ∧ p'.sinkLeft = p.sinkLeft := by
  unfold stage at h
  split at h
  · cases h
  · cases h
    exact ⟨rfl, rfl, rfl⟩

/-- **Taking bytes out** does not change who is there, and none come out only where
none are there and the source has left. -/
theorem same_of_unstage (h : p.unstage limit = some (out, p')) :
    (p'.capacity = p.capacity ∧ p'.sourceLeft = p.sourceLeft ∧ p'.sinkLeft = p.sinkLeft) ∧
      out.length ≤ limit ∧ (0 < limit → out = [] → p.staged = [] ∧ p.sourceLeft = true) := by
  unfold unstage at h
  split at h
  · cases h
  · split at h
    · next hempty =>
      split at h
      · next hleft =>
        cases h
        exact ⟨⟨rfl, rfl, rfl⟩, Nat.zero_le _, fun _ _ => ⟨by simpa using hempty, hleft⟩⟩
      · cases h
    · next hsome =>
      cases h
      refine ⟨⟨rfl, rfl, rfl⟩, List.length_take_le .., fun hpos hout => ?_⟩
      rcases List.take_eq_nil_iff.mp hout with hzero | hnil
      · omega
      · simp [hnil] at hsome

end Pipe

namespace Intake

variable {w : Wire} {reader : Reader} {pipe pipe' : Pipe} {out : Bytes} {limit : ℕ}

/-- **Bytes that are taken out** were the first on their way. -/
theorem bytes_unstage (h : pipe.unstage limit = some (out, pipe')) :
    (staged reader pipe).bytes = out ++ (staged reader pipe').bytes := by
  have hstaged := Pipe.append_staged_of_unstage h
  cases reader with
  | staging chunk =>
    show pipe.staged ++ chunk = out ++ (pipe'.staged ++ chunk)
    rw [← hstaged, List.append_assoc]
  | reading => exact hstaged.symm
  | stopped => exact hstaged.symm

/-- The way stays open. -/
theorem Open.unstage (hopened : Open w (.staged reader pipe))
    (h : pipe.unstage limit = some (out, pipe')) : Open w (.staged reader pipe') := by
  obtain ⟨⟨hcap', hsource', hsink'⟩, -, -⟩ := Pipe.same_of_unstage h
  cases hopened with
  | reading hcap hsource hsink =>
    exact .reading (hcap' ▸ hcap) (hsource' ▸ hsource) (hsink' ▸ hsink)
  | staging hne hcap hsource hsink =>
    exact .staging hne (hcap' ▸ hcap) (hsource' ▸ hsource) (hsink' ▸ hsink)
  | stopped hended hdry hcap hsource hsink =>
    exact .stopped hended hdry (hcap' ▸ hcap) (hsource' ▸ hsource) (hsink' ▸ hsink)

/-- **None come out** only when the peer sends no more and none are on their way. -/
theorem Open.ended_of_unstage (hopened : Open w (.staged reader pipe)) (hpos : 0 < limit)
    (h : pipe.unstage limit = some ([], pipe')) :
    w.ended = true ∧ w.inbound = [] ∧ (staged reader pipe).bytes = [] := by
  obtain ⟨-, -, hnone⟩ := Pipe.same_of_unstage h
  obtain ⟨hdry, hleft⟩ := hnone hpos rfl
  cases hopened with
  | reading _ hsource _ => simp [hsource] at hleft
  | staging _ _ hsource _ => simp [hsource] at hleft
  | stopped hended hwire _ _ _ => exact ⟨hended, hwire, hdry⟩

end Intake

variable [OwnTypes]

namespace Link

variable {l l' m : Link} {d : Deed} {fed taken read bs : Bytes} {done : List Decoded}
variable {a b : Assembly} {cause : CodecError}

/-! ## The order of the bytes -/

/-- **Of the bytes that the peer has sent** those that the decoder was given come
first, then those on their way to it, then those on the wire. -/
structure Supplies (l : Link) (fed taken : Bytes) : Prop where
  unbroken : l.isBroken = false
  faultless : l.wire.Faultless
  buffer : 0 < l.readBuffer
  opened : l.intake.Open l.wire
  order : fed = taken ++ l.intake.bytes ++ l.wire.inbound
  bytesRead : l.counters.bytesRead = UInt64.ofNat (taken ++ l.intake.bytes).length

/-- What bytes come by, and what becomes of them, is the same. -/
structure SameIntake (l l' : Link) : Prop where
  isMade : l.SameMake l'
  lifecycle : l'.lifecycle = l.lifecycle
  intake : l'.intake = l.intake
  decoder : l'.decoder = l.decoder
  inbound : l'.wire.inbound = l.wire.inbound
  ended : l'.wire.ended = l.wire.ended
  faultless : l.wire.Faultless → l'.wire.Faultless
  bytesRead : l'.counters.bytesRead = l.counters.bytesRead
  framesDecoded : l'.counters.framesDecoded = l.counters.framesDecoded

theorem SameIntake.refl (l : Link) : l.SameIntake l :=
  ⟨.refl l, rfl, rfl, rfl, rfl, rfl, id, rfl, rfl⟩

theorem Supplies.of_same (h : l.Supplies fed taken) (hsame : l.SameIntake l') :
    l'.Supplies fed taken where
  unbroken := by rw [isBroken, hsame.lifecycle]; exact h.unbroken
  faultless := hsame.faultless h.faultless
  buffer := by rw [hsame.isMade.readBuffer]; exact h.buffer
  opened := by
    rw [hsame.intake]
    exact h.opened.mono (fun hover => hsame.ended.trans hover)
      (fun _ hnone => hsame.inbound.trans hnone)
  order := by rw [hsame.intake, hsame.inbound]; exact h.order
  bytesRead := by rw [hsame.intake, hsame.bytesRead]; exact h.bytesRead

/-- **The writer** has nothing to do with it, while nothing goes wrong. -/
theorem sameIntake_write (hbroken : l.isBroken = false) (hfaultless : l.wire.Faultless) :
    l.SameIntake (l.perform .write) := by
  have hmade := sameMake_perform l .write
  rcases perform_write l with hsame | hwrites
  · rw [hsame]
    exact .refl l
  · generalize l.perform .write = l' at hwrites hmade ⊢
    cases hwrites with
    | stop hstop => simp [hbroken] at hstop
    | fail hfault => rcases hfault with h | h <;> simp [hfaultless.write, hfaultless.flush] at h
    | take _ hwriter htake => exact ⟨hmade, rfl, rfl, rfl, rfl, rfl, id, rfl, rfl⟩
    | part _ hwriter hwrite hcount =>
      obtain ⟨rfl, -⟩ := Wire.write_eq_accepted hwrite
      exact ⟨hmade, rfl, rfl, rfl, rfl, rfl, fun h => ⟨h.read, h.write, h.flush⟩, rfl, rfl⟩
    | whole _ hwriter hwrite hcount =>
      obtain ⟨rfl, -⟩ := Wire.write_eq_accepted hwrite
      exact ⟨hmade, rfl, rfl, rfl, rfl, rfl, fun h => ⟨h.read, h.write, h.flush⟩, rfl, rfl⟩
    | flush hwriter =>
      exact ⟨hmade, rfl, rfl, rfl, rfl, rfl, fun h => ⟨h.read, h.write, h.flush⟩, rfl, rfl⟩

/-- **The reader** moves bytes on, and leaves those alone that the decoder has. -/
theorem Supplies.reads (h : l.Supplies fed taken) :
    (l.perform .read).Supplies fed taken ∧ (l.perform .read).decoder = l.decoder ∧
      (l.perform .read).counters.framesDecoded = l.counters.framesDecoded := by
  rcases perform_read l with hsame | hreads
  · rw [hsame]
    exact ⟨h, rfl, rfl⟩
  · generalize l.perform .read = l' at hreads ⊢
    have horder := h.order
    have hcount := h.bytesRead
    have hopened := h.opened
    cases hreads with
    | @stop reader pipe hintake hstop =>
      rw [hintake] at hopened
      rcases hstop with hbroken | hsink
      · simp [h.unbroken] at hbroken
      · have hopen : pipe.sinkLeft = false := by cases hopened <;> assumption
        simp [hopen] at hsink
    | fail _ hintake hfault => simp [h.faultless.read] at hfault
    | @ended pipe _ hintake _ hnone hended =>
      rw [hintake] at horder hcount hopened
      cases hopened with
      | reading hcap hsource hsink =>
        exact ⟨⟨h.unbroken, h.faultless, h.buffer, .stopped hended hnone hcap rfl hsink, horder,
          hcount⟩, rfl, rfl⟩
    | @bytes pipe _ hintake _ hsome =>
      rw [hintake] at horder hcount hopened
      cases hopened with
      | reading hcap hsource hsink =>
        have hchunk : l.wire.inbound.take l.readBuffer ≠ [] := by
          simpa [List.take_eq_nil_iff, hsome] using h.buffer.ne'
        refine ⟨⟨h.unbroken, ⟨h.faultless.read, h.faultless.write, h.faultless.flush⟩, h.buffer,
          .staging hchunk hcap hsource hsink, ?_, ?_⟩, rfl, rfl⟩
        · show fed = taken ++ (pipe.staged ++ l.wire.inbound.take l.readBuffer) ++
            l.wire.inbound.drop l.readBuffer
          rw [horder]
          simp [Intake.bytes]
        · show l.counters.bytesRead + UInt64.ofNat (l.wire.inbound.take l.readBuffer).length = _
          rw [hcount, ← UInt64.ofNat_add, ← List.length_append, List.append_assoc]
          rfl
    | @stage chunk rest pipe pipe' _ hsinkLeft hintake hstage =>
      rw [hintake] at horder hcount hopened
      cases hopened with
      | staging hne hcap hsource hsink =>
        obtain ⟨hcap', hsource', hsink'⟩ := Pipe.same_of_stage hstage
        have hbytes : (l.stage (.of rest) pipe').intake.bytes = pipe.staged ++ chunk := by
          rw [← Pipe.staged_append_of_stage hstage]
          exact Intake.bytes_of rest pipe'
        refine ⟨⟨h.unbroken, h.faultless, h.buffer, .of rest (hcap' ▸ hcap) (hsource' ▸ hsource)
          (hsink' ▸ hsink), ?_, ?_⟩, rfl, rfl⟩
        · rw [hbytes]
          exact horder
        · rw [hbytes]
          exact hcount

/-- **The decoder is given the bytes that come next**, and none only at the end. -/
theorem Supplies.draws {limit : ℕ} (h : l.Supplies fed taken) (hdraws : l.Draws limit bs m)
    (hpos : 0 < limit) :
    m.Supplies fed (taken ++ bs) ∧ bs.length ≤ limit ∧
      (bs = [] → l.wire.ended = true ∧ fed = taken) ∧
      m.counters.framesDecoded = l.counters.framesDecoded := by
  have horder := h.order
  have hcount := h.bytesRead
  have hopened := h.opened
  cases hdraws with
  | bytes hintake hfault hsome =>
    rw [hintake] at horder hcount
    refine ⟨⟨h.unbroken, ⟨h.faultless.read, h.faultless.write, h.faultless.flush⟩, h.buffer, ?_,
      ?_, ?_⟩, List.length_take_le .., fun hnone => ?_, rfl⟩
    · show Intake.Open _ l.intake
      rw [hintake]
      exact .direct
    · show fed = taken ++ _ ++ l.intake.bytes ++ l.wire.inbound.drop limit
      rw [hintake, horder]
      simp [Intake.bytes]
    · show l.counters.bytesRead + _ = UInt64.ofNat (taken ++ _ ++ l.intake.bytes).length
      rw [hintake, hcount, ← UInt64.ofNat_add, ← List.length_append]
      simp [Intake.bytes]
    · simp [List.take_eq_nil_iff, hsome, hpos.ne'] at hnone
  | ended hintake hfault hnone hended =>
    rw [List.append_nil]
    refine ⟨h, Nat.zero_le _, fun _ => ⟨hended, ?_⟩, rfl⟩
    rw [horder, hintake, hnone]
    simp [Intake.bytes]
  | @staged reader pipe pipe' _ hintake hunstage =>
    obtain ⟨-, hle, -⟩ := Pipe.same_of_unstage hunstage
    have hbytes : (Intake.staged reader pipe).bytes = bs ++ (Intake.staged reader pipe').bytes :=
      Intake.bytes_unstage hunstage
    rw [hintake] at horder hcount hopened
    refine ⟨⟨h.unbroken, h.faultless, h.buffer, hopened.unstage hunstage, ?_, ?_⟩, hle,
      fun hempty => ?_, rfl⟩
    · rw [horder, hbytes]
      simp [stage]
    · rw [hbytes] at hcount
      show l.counters.bytesRead = _
      rw [hcount]
      simp [stage]
    · obtain ⟨hended, hwire, hdry⟩ := hopened.ended_of_unstage hpos (hempty ▸ hunstage)
      refine ⟨hended, ?_⟩
      rw [horder, hwire, hdry]
      simp

/-! ## What the decoder makes of the bytes -/

/-- The decoder has read the frames `done` and is at another, of which some bytes
have arrived. -/
structure Flows (l : Link) (fed : Bytes) (done : List Decoded) (read : Bytes) (a : Assembly) :
    Prop where
  supplies : l.Supplies fed (read ++ a.arrived)
  decoder : l.decoder = some a
  fixed : 0 < l.schema.fixedSize
  expects : l.codec.Expects l.schema a
  opens : l.codec.Opens l.schema read done
  framesDecoded : l.counters.framesDecoded = UInt64.ofNat done.length

/-- The connection has ended for a fault of the stream, whatever comes behind it
unless the stream has ended too. -/
structure Ends (l : Link) (fed : Bytes) (done : List Decoded) (fault : CodecError) : Prop where
  reason : l.lifecycle.reason = some (breakReason fault)
  yields : ∀ more, (l.wire.ended = true → more = []) →
    l.codec.Yields l.schema (fed ++ more) done fault
  framesDecoded : l.counters.framesDecoded = UInt64.ofNat done.length
  bytesRead : fault = .closed →
    l.counters.bytesRead = UInt64.ofNat (done.map (·.length)).sum

/-- **What was handed over is what the stream yields** so far. -/
inductive Streams (l : Link) (fed : Bytes) (done : List Decoded) : Prop where
  | flows {read : Bytes} {a : Assembly} : l.Flows fed done read a → Streams l fed done
  | ends {fault : CodecError} : l.Ends fed done fault → Streams l fed done

theorem streams_new {config : LinkConfig} {codec : Codec} {schema : Schema}
    (hfixed : 0 < schema.fixedSize) (hbuffer : 0 < config.readBuffer.toNat)
    (hcapacity : 0 < config.stagingCapacity.toNat) :
    (new config codec schema).Streams [] [] := by
  have hopened : (new config codec schema).intake.Open (new config codec schema).wire ∧
      (new config codec schema).intake.bytes = [] := by
    unfold new
    cases config.pipeMode with
    | direct => exact ⟨.direct, rfl⟩
    | staged => exact ⟨.reading hcapacity rfl rfl, rfl⟩
  have hflows : (new config codec schema).Flows [] [] [] (.start schema) := by
    refine ⟨⟨rfl, ⟨rfl, rfl, rfl⟩, hbuffer, hopened.1, ?_, ?_⟩, rfl, hfixed,
      Codec.expects_start hfixed, Codec.opens_nil, rfl⟩
    · rw [hopened.2]
      rfl
    · rw [hopened.2]
      rfl
  exact .flows hflows

theorem Flows.of_same (h : l.Flows fed done read a) (hsame : l.SameIntake l') :
    l'.Flows fed done read a where
  supplies := h.supplies.of_same hsame
  decoder := hsame.decoder.trans h.decoder
  fixed := by rw [hsame.isMade.schema]; exact h.fixed
  expects := by rw [hsame.isMade.schema, hsame.isMade.codec]; exact h.expects
  opens := by rw [hsame.isMade.schema, hsame.isMade.codec]; exact h.opens
  framesDecoded := hsame.framesDecoded.trans h.framesDecoded

/-- A fault of the stream ends a connection that has not ended. -/
theorem ends_breakOff {fault : CodecError} (hbroken : m.isBroken = false)
    (hyields : ∀ more, (m.wire.ended = true → more = []) →
      m.codec.Yields m.schema (fed ++ more) done fault)
    (hframes : m.counters.framesDecoded = UInt64.ofNat done.length)
    (hbytes : fault = .closed →
      m.counters.bytesRead = UInt64.ofNat (done.map (·.length)).sum) :
    (m.breakOff (breakReason fault)).stopDecoder.Ends fed done fault := by
  rw [stopDecoder_eq, breakOff_eq]
  refine ⟨?_, hyields, hframes, hbytes⟩
  show m.lifecycle.reason.or (some (breakReason fault)) = _
  rw [reason_of_not_isBroken hbroken]
  rfl

/-- At its end the stream yields no more, and says that it was closed or cut short. -/
theorem Flows.ended (h : l.Flows fed done read a) (hdraws : l.Draws a.missing [] m) :
    (m.breakOff (breakReason a.ended)).stopDecoder.Ends fed done a.ended := by
  obtain ⟨hsupplies, -, hover, hframes⟩ := h.supplies.draws hdraws h.expects.missing_pos
  obtain ⟨hended, hfed⟩ := hover rfl
  have hmade := hdraws.aside.make
  have hdry : m.intake.bytes = [] := by
    have := hsupplies.order
    rw [hfed, List.append_nil, List.append_assoc] at this
    exact (List.append_eq_nil_iff.mp (List.self_eq_append_right.mp this)).1
  refine ends_breakOff hsupplies.unbroken (fun more hmore => ?_) (hframes.trans h.framesDecoded)
    fun hclosed => ?_
  · rw [hmore (hdraws.aside.ended.trans hended), List.append_nil, hfed, hmade.codec, hmade.schema]
    exact h.opens.yields_fault h.expects.readOff_ended
  · have hnone : a.arrived = [] := by
      have htells := h.expects.ended
      rw [hclosed] at htells
      by_contra hne
      rw [if_neg hne] at htells
      cases htells
    rw [hsupplies.bytesRead, hdry, hnone, h.opens.length]
    simp

/-- What is known when the decoder was given bytes. -/
theorem Flows.drawn (h : l.Flows fed done read a) (hdraws : l.Draws a.missing bs m) :
    m.Supplies fed (read ++ (a.arrived ++ bs)) ∧
      m.codec.Accepts m.schema a bs (l.codec.accept l.schema a bs) ∧ 0 < m.schema.fixedSize ∧
      m.codec.Opens m.schema read done ∧
      m.counters.framesDecoded = UInt64.ofNat done.length := by
  obtain ⟨hsupplies, hle, -, hframes⟩ := h.supplies.draws hdraws h.expects.missing_pos
  have hmade := hdraws.aside.make
  rw [List.append_assoc] at hsupplies
  rw [hmade.codec, hmade.schema]
  exact ⟨hsupplies, h.expects.accepts hle, h.fixed, h.opens, hframes.trans h.framesDecoded⟩

/-- Bytes that do not make a frame yet are kept. -/
theorem Flows.more (h : l.Flows fed done read a) (hdraws : l.Draws a.missing bs m)
    (haccept : l.codec.accept l.schema a bs = .more b) :
    ({ m with decoder := some b } : Link).Flows fed done read b := by
  obtain ⟨hsupplies, haccepts, hfixed, hopens, hcounted⟩ := h.drawn hdraws
  rw [haccept] at haccepts
  cases haccepts with
  | more hexpects harrived =>
    rw [← harrived] at hsupplies
    exact ⟨⟨hsupplies.unbroken, hsupplies.faultless, hsupplies.buffer, hsupplies.opened,
      hsupplies.order, hsupplies.bytesRead⟩, rfl, hfixed, hexpects, hopens, hcounted⟩

/-- Bytes that make a frame are handed over, and the next frame begins. -/
theorem Flows.frame {d : Decoded} (h : l.Flows fed done read a) (hdraws : l.Draws a.missing bs m)
    (haccept : l.codec.accept l.schema a bs = .done (.ok d)) :
    (m.deliver d).Flows fed (done ++ [d]) (read ++ (a.arrived ++ bs)) (.start m.schema) := by
  obtain ⟨hsupplies, haccepts, hfixed, hopens, hcounted⟩ := h.drawn hdraws
  rw [haccept] at haccepts
  cases haccepts with
  | frame hframe hlength =>
    have hstart : ((Assembly.start m.schema).arrived : Bytes) = [] := rfl
    refine ⟨⟨hsupplies.unbroken, hsupplies.faultless, hsupplies.buffer, hsupplies.opened, ?_, ?_⟩,
      rfl, hfixed, Codec.expects_start hfixed, hopens.frame hframe hlength, ?_⟩
    · rw [hstart, List.append_nil]
      exact hsupplies.order
    · rw [hstart, List.append_nil]
      exact hsupplies.bytesRead
    · show m.counters.framesDecoded + 1 = _
      rw [hcounted, List.length_append, UInt64.ofNat_add]
      rfl

/-- Bytes that cannot be read end the connection, whatever comes behind them. -/
theorem Flows.fault (h : l.Flows fed done read a) (hdraws : l.Draws a.missing bs m)
    (hne : bs ≠ []) (haccept : l.codec.accept l.schema a bs = .done (.error cause)) :
    (m.breakOff (breakReason cause)).stopDecoder.Ends fed done cause := by
  obtain ⟨hsupplies, haccepts, hfixed, hopens, hcounted⟩ := h.drawn hdraws
  rw [haccept] at haccepts
  cases haccepts with
  | fault hfault =>
    refine ends_breakOff hsupplies.unbroken (fun more _ => ?_) hcounted fun hclosed => ?_
    · have hwhole : fed ++ more =
          read ++ (a.arrived ++ bs ++ (m.intake.bytes ++ m.wire.inbound ++ more)) := by
        rw [hsupplies.order]
        simp
      rw [hwhole]
      exact hopens.yields_fault (hfault _)
    · -- bytes that are there are not the end of the stream
      have hnone := (Codec.readOff_eq_error hfixed (hfault [])).1.mp hclosed
      simp [hne] at hnone

/-- **What the decoder hands over** is the next frame of the stream, and what it
ends the connection for is the fault of the stream. -/
theorem Flows.decode (h : l.Flows fed done read a) :
    (l.perform .decode).Streams fed (done ++ l.answer?.toList) := by
  rcases perform_decode l with ⟨hnone, hsame⟩ | hdecodes
  · rw [hnone, hsame, Option.toList_none, List.append_nil]
    exact .flows h
  generalize l.perform .decode = l', l.answer? = answer at hdecodes ⊢
  have hfirst : ∀ {b : Assembly}, l.decoder = some b → b = a := by
    intro b hb
    rw [h.decoder] at hb
    exact (Option.some.inj hb).symm
  cases hdecodes with
  | stop _ hbroken => simp [h.supplies.unbroken] at hbroken
  | fail _ _ _ hfault => simp [h.supplies.faultless.read] at hfault
  | ended hdecoder _ hdraws =>
    obtain rfl := hfirst hdecoder
    rw [Option.toList_none, List.append_nil]
    exact .ends (h.ended hdraws)
  | more hdecoder _ hdraws _ haccept =>
    obtain rfl := hfirst hdecoder
    rw [Option.toList_none, List.append_nil]
    exact .flows (h.more hdraws haccept)
  | frame hdecoder _ hdraws _ haccept =>
    obtain rfl := hfirst hdecoder
    exact .flows (h.frame hdraws haccept)
  | fault hdecoder _ hdraws hne haccept =>
    obtain rfl := hfirst hdecoder
    rw [Option.toList_none, List.append_nil]
    exact .ends (h.fault hdraws hne haccept)

/-! ## Deeds that go well -/

/-- A quiet deed does not end what the peer sends. -/
theorem ended_perform (hd : d.quiet = true) : (l.perform d).wire.ended = l.wire.ended := by
  cases d with
  | write =>
    rcases perform_write l with hsame | hwrites
    · rw [hsame]
    · generalize l.perform .write = l' at hwrites ⊢
      cases hwrites with
      | part _ _ hwrite _ =>
        obtain ⟨rfl, -⟩ := Wire.write_eq_accepted hwrite
        rfl
      | whole _ _ hwrite _ =>
        obtain ⟨rfl, -⟩ := Wire.write_eq_accepted hwrite
        rfl
      | @fail reason _ => exact ((Aside.refl l).breakOff (.write reason)).ended
      | _ => rfl
  | read => exact (aside_read l).ended
  | decode => exact (aside_decode l).ended
  | turn => rw [perform, refresh_eq]
  | meet event => cases event <;> first | rfl | simp [Deed.quiet] at hd
  | quit | abort => simp [Deed.quiet] at hd
  | _ => rfl

/-- A connection that has ended stays as the stream ended it. -/
theorem Ends.perform {fault : CodecError} (h : l.Ends fed done fault) (d : Deed)
    (hended : l.wire.ended = true → (l.perform d).wire.ended = true) :
    (l.perform d).Ends fed done fault := by
  have hbroken := isBroken_of_reason h.reason
  have hmade := sameMake_perform l d
  obtain ⟨-, hcounters⟩ := quiet_perform hbroken d
  refine ⟨by rw [lifecycle_perform hbroken]; exact h.reason, fun more hmore => ?_,
    by rw [hcounters]; exact h.framesDecoded, by rw [hcounters]; exact h.bytesRead⟩
  rw [hmade.codec, hmade.schema]
  exact h.yields more fun hover => hmore (hended hover)

theorem Flows.quiet (h : l.Flows fed done read a) (hd : d.quiet = true) :
    (l.perform d).Streams fed (done ++ l.delivers d) := by
  have keep : ∀ {l' : Link}, l.SameIntake l' → l'.Streams fed (done ++ []) := by
    intro l' hsame
    rw [List.append_nil]
    exact .flows (h.of_same hsame)
  cases d with
  | write => exact keep (sameIntake_write h.supplies.unbroken h.supplies.faultless)
  | read =>
    obtain ⟨hsupplies, hdecoder, hframes⟩ := h.supplies.reads
    have hmade := sameMake_perform l .read
    show (l.perform .read).Streams fed (done ++ [])
    rw [List.append_nil]
    refine .flows ⟨hsupplies, hdecoder.trans h.decoder, ?_, ?_, ?_,
      hframes.trans h.framesDecoded⟩
    · rw [hmade.schema]
      exact h.fixed
    · rw [hmade.codec, hmade.schema]
      exact h.expects
    · rw [hmade.codec, hmade.schema]
      exact h.opens
  | decode => exact h.decode
  | turn =>
    show (l.perform .turn).Streams fed (done ++ [])
    rw [List.append_nil, perform, refresh_eq]
    refine .flows ⟨⟨h.supplies.unbroken, h.supplies.faultless, h.supplies.buffer,
      h.supplies.opened.refresh, ?_, ?_⟩, h.decoder, h.fixed, h.expects, h.opens, h.framesDecoded⟩
    · rw [Intake.bytes_refresh]
      exact h.supplies.order
    · rw [Intake.bytes_refresh]
      exact h.supplies.bytesRead
  | meet event =>
    cases event with
    | window count =>
      exact keep ⟨⟨rfl, rfl, rfl⟩, rfl, rfl, rfl, rfl, rfl, fun w => ⟨w.read, w.write, w.flush⟩,
        rfl, rfl⟩
    | stall on =>
      exact keep ⟨⟨rfl, rfl, rfl⟩, rfl, rfl, rfl, rfl, rfl, fun w => ⟨w.read, w.write, w.flush⟩,
        rfl, rfl⟩
    | _ => simp [Deed.quiet] at hd
  | quit | abort => simp [Deed.quiet] at hd
  | _ => exact keep ⟨⟨rfl, rfl, rfl⟩, rfl, rfl, rfl, rfl, rfl, id, rfl, rfl⟩

/-- **Quiet deeds** hand over frames of the stream, in order, and nothing else. -/
theorem Streams.quiet (h : l.Streams fed done) (hd : d.quiet = true) :
    (l.perform d).Streams fed (done ++ l.delivers d) := by
  cases h with
  | flows h => exact h.quiet hd
  | ends h =>
    have hnone := account_delivers_of_isBroken (isBroken_of_reason h.reason) [d]
    rw [account, account, List.append_nil] at hnone
    rw [hnone, List.append_nil]
    exact .ends (h.perform d fun hover => (ended_perform hd).trans hover)

theorem Streams.after (h : l.Streams fed done) {journal : List Deed}
    (hquiet : ∀ d ∈ journal, d.quiet = true) :
    (l.after journal).Streams fed (done ++ l.account delivers journal) ∧
      (l.after journal).wire.ended = l.wire.ended := by
  induction journal generalizing l done with
  | nil =>
    rw [account, List.append_nil]
    exact ⟨h, rfl⟩
  | cons d rest ih =>
    obtain ⟨hd, hrest⟩ := List.forall_mem_cons.mp hquiet
    obtain ⟨hstreams, hended⟩ := ih (h.quiet hd) hrest
    rw [account, ← List.append_assoc]
    exact ⟨hstreams, hended.trans (ended_perform hd)⟩

/-- What the stream ended stays ended, whatever quiet deeds are done. -/
theorem Ends.after {fault : CodecError} (h : l.Ends fed done fault) {journal : List Deed}
    (hquiet : ∀ d ∈ journal, d.quiet = true) : (l.after journal).Ends fed done fault := by
  induction journal generalizing l with
  | nil => exact h
  | cons d rest ih =>
    obtain ⟨hd, hrest⟩ := List.forall_mem_cons.mp hquiet
    exact ih (h.perform d fun hover => (ended_perform hd).trans hover) hrest

/-- **Bytes come in** behind those that have come, as long as the peer sends. -/
theorem Streams.feed (h : l.Streams fed done) (hopen : l.wire.ended = false) (bs : Bytes) :
    (l.perform (.meet (.feed bs))).Streams (fed ++ bs) done := by
  cases h with
  | flows h =>
    obtain ⟨hbroken, hfaultless, hbuffer, hopened, horder, hbytes⟩ := h.supplies
    refine .flows ⟨⟨hbroken, ⟨hfaultless.read, hfaultless.write, hfaultless.flush⟩, hbuffer,
      hopened.mono id fun hover => ?_, ?_, hbytes⟩, h.decoder, h.fixed, h.expects, h.opens,
      h.framesDecoded⟩
    · simp [hopen] at hover
    · show fed ++ bs = _ ++ _ ++ (l.wire.inbound ++ bs)
      rw [horder]
      simp [perform]
  | ends h =>
    refine .ends ⟨h.reason, fun more _ => ?_, h.framesDecoded, h.bytesRead⟩
    rw [List.append_assoc]
    exact h.yields (bs ++ more) fun hover => by simp [hopen] at hover

/-- **The peer closes the stream.** -/
theorem Streams.close (h : l.Streams fed done) : (l.perform (.meet .close)).Streams fed done := by
  cases h with
  | flows h =>
    obtain ⟨hbroken, hfaultless, hbuffer, hopened, horder, hbytes⟩ := h.supplies
    exact .flows ⟨⟨hbroken, ⟨hfaultless.read, hfaultless.write, hfaultless.flush⟩, hbuffer,
      hopened.mono (fun _ => rfl) fun _ hnone => hnone, horder, hbytes⟩, h.decoder, h.fixed,
      h.expects, h.opens, h.framesDecoded⟩
  | ends h => exact .ends (h.perform _ fun _ => rfl)

/-! ## The peer sends a stream -/

/-- In the course of the deeds the peer sends a stream and closes it, and nothing
goes wrong: the network does not fail, and the client is not closed. -/
inductive PeerSends : List Deed → Bytes → Prop where
  | feed {bs stream : Bytes} {rest : List Deed} : PeerSends rest stream →
      PeerSends (.meet (.feed bs) :: rest) (bs ++ stream)
  | quiet {d : Deed} {stream : Bytes} {rest : List Deed} : d.quiet = true →
      PeerSends rest stream → PeerSends (d :: rest) stream
  | close {rest : List Deed} : (∀ d ∈ rest, d.quiet = true) →
      PeerSends (.meet .close :: rest) []

namespace PeerSends

variable {stream : Bytes} {journal more : List Deed}

theorem append (h : PeerSends journal stream) (hmore : ∀ d ∈ more, d.quiet = true) :
    PeerSends (journal ++ more) stream := by
  induction h with
  | feed _ ih => exact .feed ih
  | quiet hd _ ih => exact .quiet hd ih
  | close hrest => exact .close (List.forall_mem_append.mpr ⟨hrest, hmore⟩)

theorem prepend (h : PeerSends journal stream) (hmore : ∀ d ∈ more, d.quiet = true) :
    PeerSends (more ++ journal) stream := by
  induction more with
  | nil => exact h
  | cons d rest ih =>
    obtain ⟨hd, hrest⟩ := List.forall_mem_cons.mp hmore
    exact .quiet hd (ih hrest)

/-- **What was handed over is what the stream yields** at the end, whatever the
order in which bytes come in, loops go on and callers do something. -/
theorem streams (hsends : PeerSends journal stream) (h : l.Streams fed done)
    (hopen : l.wire.ended = false) :
    (l.after journal).Streams (fed ++ stream) (done ++ l.account delivers journal) ∧
      (l.after journal).wire.ended = true := by
  induction hsends generalizing l fed done with
  | @feed bs stream rest _ ih =>
    rw [← List.append_assoc]
    exact ih (h.feed hopen bs) hopen
  | @quiet d stream rest hd _ ih =>
    rw [account, ← List.append_assoc]
    exact ih (h.quiet hd) ((ended_perform hd).trans hopen)
  | @close rest hquiet =>
    rw [List.append_nil]
    exact h.close.after hquiet

end PeerSends

end Link

end FramedDuplex
