import FramedDuplex.Proofs.Link.Intake
import FramedDuplex.Proofs.Link.Written
import Mathlib.Algebra.Order.BigOperators.Group.List
import Mathlib.Algebra.Order.Group.Nat
/-!
# The loops come to rest

Every step of a loop lowers what the loops have before them (`Link.work`): a byte
that is moved is before fewer of them, and a loop that stops has nothing before it.
So letting the loops run ends with all of them waiting, and not because the number
of their steps is bounded (`Link.isIdle_settle`).

Where all of them wait and the peer has closed the stream, the connection has ended
(`Link.Streams.ends_of_isIdle`): bytes that have come in are not left lying. So what
the stream yields was delivered (`Link.Delivered`).
-/

namespace FramedDuplex

variable [OwnTypes]

namespace Link

variable {l l' m : Link} {fed : Bytes} {done : List Decoded} {d : Deed}

/-! ## What the writer has before it -/

omit [OwnTypes] in
theorem foldl_add {f : Parcel → ℕ} {g : ℕ → Parcel → ℕ} (hg : ∀ n p, g n p = n + f p)
    (ps : List Parcel) (n : ℕ) : ps.foldl g n = n + (ps.map f).sum := by
  induction ps generalizing n with
  | nil => rfl
  | cons p rest ih =>
    rw [List.foldl_cons, ih, hg, List.map_cons, List.sum_cons]
    omega

/-- What a writer has before it besides the queue. -/
def Writer.work : Writer → ℕ
  | .stopped => 0
  | .idle => 1
  | .flushing => 2
  | .writing left _ rest => left.length + 3 + (rest.map fun p => p.bytes.length + 1).sum

theorem writerWork_eq (l : Link) :
    l.writerWork = (l.outbox.queue.map fun p => p.bytes.length + 3).sum + Writer.work l.writer := by
  have hqueue : ∀ (ps : List Parcel), ps.foldl (· + ·.bytes.length + 3) 0 =
      (ps.map fun p => p.bytes.length + 3).sum := by
    intro ps
    rw [foldl_add (f := fun p => p.bytes.length + 3) (fun n p => Nat.add_assoc ..)]
    omega
  rw [writerWork, hqueue]
  cases l.writer with
  | writing left p rest =>
    show _ + rest.foldl _ _ = _
    rw [foldl_add (f := fun p => p.bytes.length + 1) (fun n p => Nat.add_assoc ..)]
    rfl
  | _ => rfl

/-- **A step of the writer** lowers what it has before it. -/
theorem writerWork_lt (h : l.writerStep = some l') : l'.writerWork < l.writerWork := by
  have hgoes : 0 < Writer.work l.writer := by
    unfold writerStep at h
    cases hwriter : l.writer with
    | stopped => simp [hwriter] at h
    | idle => decide
    | flushing => decide
    | writing left p rest =>
      show 0 < left.length + 3 + _
      omega
  have hstop : ∀ {m : Link}, m.stopWriter.writerWork = 0 := by
    intro m
    rw [writerWork_eq]
    rfl
  have hwrites := writes_of_writerStep h
  rw [writerWork_eq l]
  cases hwrites with
  | stop hbroken =>
    rw [hstop]
    omega
  | fail hfault =>
    rw [hstop]
    omega
  | @take first rest outbox hbroken hwriter htake =>
    have hqueue := Outbox.take_append_queue l.outbox batchLimit
    rw [htake] at hqueue
    have hrest : (rest.map fun p => p.bytes.length + 1).sum ≤
        (rest.map fun p => p.bytes.length + 3).sum :=
      List.sum_le_sum fun p _ => by omega
    rw [writerWork_eq, hwriter, ← hqueue]
    simp only [List.map_append, List.map_cons, List.sum_append, List.sum_cons, Writer.work]
    omega
  | @part left first rest count wire hbroken hwriter hwrite hcount =>
    have hne : left ≠ [] := by
      rintro rfl
      simp at hcount
    have := (Wire.write_eq_accepted hwrite).2 hne
    rw [writerWork_eq, hwriter]
    simp only [Writer.work, List.length_drop]
    omega
  | @whole left first rest count wire hbroken hwriter hwrite hcount =>
    rw [writerWork_eq, hwriter]
    cases rest with
    | nil =>
      simp only [startFrame, countSent, Writer.work]
      omega
    | cons p rest =>
      simp only [startFrame, countSent, Writer.work, List.map_cons, List.sum_cons]
      omega
  | flush hwriter =>
    rw [writerWork_eq, hwriter]
    simp only [Writer.work]
    omega

theorem writerWork_of_sameWriting (h : l.SameWriting l') : l'.writerWork = l.writerWork := by
  rw [writerWork_eq, writerWork_eq, h.writer, h.queue]

/-! ## What the reader and the decoder have before them -/

/-- What there is to do about the bytes on their way, and about the reader. -/
def Intake.work : Intake → ℕ
  | .direct => 0
  | .staged .stopped pipe => pipe.staged.length
  | .staged .reading pipe => pipe.staged.length + 1
  | .staged (.staging chunk) pipe => pipe.staged.length + (2 * chunk.length + 1)

theorem intakeWork_eq (l : Link) : l.intakeWork =
    3 * l.wire.inbound.length + (if l.decoder.isSome then 1 else 0) + Intake.work l.intake := by
  rw [intakeWork]
  congr 1
  cases l.intake with
  | direct => rfl
  | staged reader pipe => cases reader <;> rfl

omit [OwnTypes] in
theorem work_of (rest : Bytes) (pipe : Pipe) :
    Intake.work (.staged (.of rest) pipe) = pipe.staged.length + (2 * rest.length + 1) := by
  cases rest <;> rfl

omit [OwnTypes] in
theorem work_leaveSink (intake : Intake) : Intake.work intake.leaveSink = Intake.work intake := by
  cases intake with
  | direct => rfl
  | staged reader pipe => cases reader <;> rfl

omit [OwnTypes] in
theorem work_refresh_intake (intake : Intake) : Intake.work intake.refresh = Intake.work intake := by
  cases intake with
  | direct => rfl
  | staged reader pipe => cases reader <;> rfl

omit [OwnTypes] in
/-- Staging moves a byte at least. -/
theorem length_lt_of_stage {p p' : Pipe} {chunk rest : Bytes} (h : p.stage chunk = some (rest, p'))
    (hne : chunk ≠ []) : rest.length < chunk.length := by
  have hlen : 0 < chunk.length := List.length_pos_iff.mpr hne
  unfold Pipe.stage at h
  split at h
  · cases h
  · next hroom =>
    cases h
    rw [List.length_drop]
    omega

/-- While the connection stands, the reader does not read nothing. -/
def Runs (l : Link) : Prop :=
  l.isBroken = false → 0 < l.readBuffer ∧ l.intake.Open l.wire

theorem Streams.runs (h : l.Streams fed done) : l.Runs := by
  intro hopen
  cases h with
  | flows h => exact ⟨h.supplies.buffer, h.supplies.opened⟩
  | ends h => simp [isBroken_of_reason h.reason] at hopen

/-- **A step of the reader** lowers what is before it and the decoder. -/
theorem intakeWork_lt_of_readerStep (hruns : l.Runs) (h : l.readerStep = some l') :
    l'.intakeWork < l.intakeWork := by
  have hgoes : ∀ {reader pipe}, l.intake = .staged reader pipe →
      pipe.staged.length < Intake.work l.intake := by
    intro reader pipe hintake
    rw [hintake]
    cases reader with
    | stopped => simp [readerStep, hintake] at h
    | reading => exact Nat.lt_succ_self _
    | staging chunk =>
      show _ < _ + (2 * chunk.length + 1)
      omega
  rw [intakeWork_eq, intakeWork_eq]
  have hreads := reads_of_readerStep h
  cases hreads with
  | stop hintake hstop => exact Nat.add_lt_add_left (hgoes hintake) _
  | @fail pipe reason hbroken hintake hfault =>
    rw [breakOff_eq]
    exact Nat.add_lt_add_left (hgoes hintake) _
  | ended hbroken hintake hfault hnone hended => exact Nat.add_lt_add_left (hgoes hintake) _
  | bytes hbroken hintake hfault hsome =>
    have hlen : 0 < l.wire.inbound.length := List.length_pos_iff.mpr hsome
    have hbuffer := (hruns hbroken).1
    rw [hintake]
    simp only [stage, Intake.work, List.length_drop, List.length_take]
    omega
  | @stage chunk rest pipe pipe' hbroken hsink hintake hstage =>
    have hopened := (hruns hbroken).2
    rw [hintake] at hopened ⊢
    cases hopened with
    | staging hne _ _ _ =>
      have hmoved := congrArg List.length (Pipe.staged_append_of_stage hstage)
      have hless := length_lt_of_stage hstage hne
      rw [List.length_append, List.length_append] at hmoved
      refine Nat.add_lt_add_left ?_ _
      show Intake.work (.staged (.of rest) pipe') < pipe.staged.length + (2 * chunk.length + 1)
      rw [work_of]
      omega

/-- A decoder that draws bytes lowers it by as many. -/
theorem Draws.work {limit : ℕ} {bs : Bytes} (h : l.Draws limit bs m) :
    m.decoder = l.decoder ∧
      3 * m.wire.inbound.length + Intake.work m.intake + bs.length ≤
        3 * l.wire.inbound.length + Intake.work l.intake := by
  cases h with
  | bytes hintake hfault hsome =>
    refine ⟨rfl, ?_⟩
    simp only [List.length_drop, List.length_take]
    omega
  | ended => exact ⟨rfl, by simp⟩
  | @staged reader pipe pipe' _ hintake hunstage =>
    have hmoved := congrArg List.length (Pipe.append_staged_of_unstage hunstage)
    rw [List.length_append] at hmoved
    refine ⟨rfl, ?_⟩
    rw [hintake]
    cases reader with
    | stopped | reading | staging =>
      simp only [stage, Intake.work]
      omega

/-- **A step of the decoder** lowers what is before it. -/
theorem intakeWork_lt_of_decoderStep (h : l.decoderStep = some l') :
    l'.intakeWork < l.intakeWork := by
  have hstop : ∀ {m : Link} {cause : BrokenReason}, m.decoder = l.decoder → l.decoder.isSome →
      3 * m.wire.inbound.length + Intake.work m.intake ≤
        3 * l.wire.inbound.length + Intake.work l.intake →
      (m.breakOff cause).stopDecoder.intakeWork < l.intakeWork := by
    intro m cause _ hsome hle
    rw [intakeWork_eq, intakeWork_eq, stopDecoder_eq, breakOff_eq, if_pos hsome]
    simp only [work_leaveSink, Option.isSome_none, Bool.false_eq_true, if_false]
    omega
  have hdecodes := decodes_of_decoderStep h
  generalize l.answer? = answer at hdecodes
  cases hdecodes with
  | stop hdecoder hbroken =>
    rw [intakeWork_eq, intakeWork_eq, stopDecoder_eq, hdecoder]
    simp [work_leaveSink]
  | fail hdecoder hbroken hintake hfault => exact hstop rfl (by simp [hdecoder]) (Nat.le_refl _)
  | ended hdecoder hbroken hdraws =>
    obtain ⟨hsame, hwork⟩ := hdraws.work
    exact hstop hsame (by simp [hdecoder]) (by omega)
  | more hdecoder hbroken hdraws hne haccept =>
    have hlen := List.length_pos_iff.mpr hne
    obtain ⟨-, hwork⟩ := hdraws.work
    rw [intakeWork_eq, intakeWork_eq, hdecoder]
    simp only [Option.isSome_some, if_true]
    omega
  | frame hdecoder hbroken hdraws hne haccept =>
    have hlen := List.length_pos_iff.mpr hne
    obtain ⟨-, hwork⟩ := hdraws.work
    rw [intakeWork_eq, intakeWork_eq, hdecoder]
    simp only [deliver, Option.isSome_some, if_true]
    omega
  | fault hdecoder hbroken hdraws hne haccept =>
    obtain ⟨hsame, hwork⟩ := hdraws.work
    exact hstop hsame (by simp [hdecoder]) (by omega)

/-- The writer leaves it as it is. -/
theorem intakeWork_of_writerStep (h : l.writerStep = some l') :
    l'.intakeWork = l.intakeWork := by
  rw [intakeWork_eq, intakeWork_eq]
  have hwrites := writes_of_writerStep h
  cases hwrites with
  | part _ _ hwrite _ =>
    obtain ⟨rfl, -⟩ := Wire.write_eq_accepted hwrite
    rfl
  | whole _ _ hwrite _ =>
    obtain ⟨rfl, -⟩ := Wire.write_eq_accepted hwrite
    rfl
  | fail hfault =>
    simp only [stopWriter, breakOff_eq]
  | _ => rfl

/-! ## Rest -/

theorem work_lt_of_writerStep (h : l.writerStep = some l') : l'.work < l.work := by
  have := writerWork_lt h
  have := intakeWork_of_writerStep h
  unfold work
  omega

theorem perform_of_step {step : Link → Option Link} (hd : l.perform d = (step l).getD l)
    (h : step l = some l') : l.perform d = l' := by
  rw [hd, h, Option.getD_some]

theorem work_lt_of_readerStep (hruns : l.Runs) (h : l.readerStep = some l') :
    l'.work < l.work := by
  have hwriting := (aside_read l).sameWriting
  rw [perform_of_step rfl h] at hwriting
  have := writerWork_of_sameWriting hwriting
  have := intakeWork_lt_of_readerStep hruns h
  unfold work
  omega

theorem work_lt_of_decoderStep (h : l.decoderStep = some l') : l'.work < l.work := by
  have hwriting := (aside_decode l).sameWriting
  rw [perform_of_step rfl h] at hwriting
  have := writerWork_of_sameWriting hwriting
  have := intakeWork_lt_of_decoderStep h
  unfold work
  omega

theorem work_refresh (l : Link) : l.refresh.work = l.work := by
  have hwriting : l.SameWriting l.refresh := by
    rw [refresh_eq]
    exact ⟨rfl, rfl, rfl, rfl, rfl, rfl⟩
  rw [work, work, writerWork_of_sameWriting hwriting, intakeWork_eq, intakeWork_eq, refresh_eq]
  simp only [work_refresh_intake]

/-- A turn that begins twice begins once. -/
theorem refresh_refresh (l : Link) : l.refresh.refresh = l.refresh := by
  obtain ⟨_, _, _, _, _, _, _, _, _, _, intake, _⟩ := l
  cases intake <;> rfl

/-- A loop in its turn: what is kept by each of its steps is kept, and what the
loops have before them is lowered if it has a step to take. -/
theorem goOn_lowers {P : Link → Prop} {step : Link → Option Link}
    (hstep : ∀ l l', P l → step l = some l' → P l' ∧ l'.work < l.work) (fuel : ℕ) (h : P l) :
    P (goOn step fuel l) ∧ (goOn step fuel l).work ≤ l.work ∧
      (step l = none → goOn step fuel l = l) ∧
      (0 < fuel → step l ≠ none → (goOn step fuel l).work < l.work) := by
  induction fuel generalizing l with
  | zero => exact ⟨h, Nat.le_refl _, fun _ => rfl, fun hpos => absurd hpos (Nat.lt_irrefl _)⟩
  | succ fuel ih =>
    rw [goOn]
    cases hnext : step l with
    | none => exact ⟨h, Nat.le_refl _, fun _ => rfl, fun _ hsome => absurd rfl hsome⟩
    | some l' =>
      dsimp only
      obtain ⟨hkept, hless⟩ := hstep l l' h hnext
      obtain ⟨hend, hle, -⟩ := ih hkept
      exact ⟨hend, by omega, fun hnone => by simp at hnone, fun _ _ => by omega⟩

/-- The stream stays what it is while the loops run. -/
def Runnable (fed : Bytes) (l : Link) : Prop := ∃ done, l.Streams fed done

theorem Runnable.perform (h : Runnable fed l) (hd : d.quiet = true) :
    Runnable fed (l.perform d) := by
  obtain ⟨done, hstreams⟩ := h
  exact ⟨_, hstreams.quiet hd⟩

/-- **A round of turns** lowers what the loops have before them, unless all of them
wait. -/
theorem round_lowers {fuel : ℕ} (hpos : 0 < fuel) (h : Runnable fed l) :
    Runnable fed (l.round fuel) ∧ (l.isIdle = false → (l.round fuel).work < l.work) := by
  have hwrite : ∀ l l', Runnable fed l → l.writerStep = some l' →
      Runnable fed l' ∧ l'.work < l.work := by
    intro l l' hl hstep
    have hnext := hl.perform (d := .write) rfl
    rw [perform_of_step rfl hstep] at hnext
    exact ⟨hnext, work_lt_of_writerStep hstep⟩
  have hread : ∀ l l', Runnable fed l → l.readerStep = some l' →
      Runnable fed l' ∧ l'.work < l.work := by
    intro l l' hl hstep
    have hnext := hl.perform (d := .read) rfl
    rw [perform_of_step rfl hstep] at hnext
    obtain ⟨done, hstreams⟩ := hl
    exact ⟨hnext, work_lt_of_readerStep hstreams.runs hstep⟩
  have hdecode : ∀ l l', Runnable fed l → l.decoderStep = some l' →
      Runnable fed l' ∧ l'.work < l.work := by
    intro l l' hl hstep
    have hnext := hl.perform (d := .decode) rfl
    rw [perform_of_step rfl hstep] at hnext
    exact ⟨hnext, work_lt_of_decoderStep hstep⟩
  obtain ⟨hone, hle₁, hwaits₁, hless₁⟩ := goOn_lowers hwrite fuel h
  obtain ⟨htwo, hle₂, hwaits₂, hless₂⟩ := goOn_lowers hread fuel (hone.perform (d := .turn) rfl)
  obtain ⟨hthree, hle₃, -, hless₃⟩ := goOn_lowers hdecode fuel (htwo.perform (d := .turn) rfl)
  simp only [Link.perform, work_refresh] at hle₂ hwaits₂ hless₂ hle₃ hless₃
  refine ⟨hthree, fun hbusy => ?_⟩
  show (goOn decoderStep fuel
    (goOn readerStep fuel (goOn writerStep fuel l).refresh).refresh).work < l.work
  by_cases hw : l.writerStep = none
  swap
  · have := hless₁ hpos hw
    omega
  rw [hwaits₁ hw] at hle₂ hle₃ hwaits₂ hless₂ hless₃ ⊢
  by_cases hr : l.refresh.readerStep = none
  swap
  · have := hless₂ hpos hr
    omega
  rw [hwaits₂ hr, refresh_refresh] at hle₃ hless₃ ⊢
  have hd : l.refresh.decoderStep ≠ none := by
    intro hnone
    simp [isIdle, hw, hr, hnone] at hbusy
  have := hless₃ hpos hd
  rw [work_refresh] at this
  omega

/-- **Letting the loops run ends with all of them waiting.** -/
theorem isIdle_settle (h : l.Streams fed done) : l.settle.isIdle = true := by
  have hrounds : ∀ (fuel count : ℕ) (l : Link), 0 < fuel → Runnable fed l → l.work < count →
      (l.rounds fuel count).isIdle = true := by
    intro fuel count
    induction count with
    | zero => exact fun l _ _ hlt => absurd hlt (Nat.not_lt_zero _)
    | succ count ih =>
      intro l hpos hl hlt
      rw [rounds]
      split
      · assumption
      · next hbusy =>
        obtain ⟨hnext, hless⟩ := round_lowers hpos hl
        have := hless (by simpa using hbusy)
        exact ih _ hpos hnext (by omega)
  exact hrounds _ _ l (Nat.succ_pos _) ⟨done, h⟩ (Nat.lt_succ_self _)

/-! ## Nothing is left lying -/

omit [OwnTypes] in
/-- A wire whose end has come keeps nobody waiting. -/
theorem read_ne_waits {w : Wire} (hfault : w.readFault = none) (hended : w.ended = true)
    (limit : ℕ) : (w.read limit).1 ≠ .waits := by
  unfold Wire.read
  rw [hfault]
  dsimp only
  split
  · simp
  · simp

/-- A reader whose turn it is takes bytes off a wire whose end has come. -/
theorem readerStep_reading {pipe : Pipe} (hbroken : l.isBroken = false)
    (hintake : l.intake = .staged .reading pipe) (hallowance : pipe.allowance ≠ 0)
    (hread : (l.wire.read l.readBuffer).1 ≠ .waits) : l.readerStep ≠ none := by
  simp only [readerStep, hintake, hbroken, Bool.false_eq_true, if_false, if_neg hallowance]
  split
  · next hwaits =>
    rw [hwaits] at hread
    exact absurd rfl hread
  · simp
  · simp
  · simp

/-- A reader whose turn it is puts bytes into a pipe that has room. -/
theorem readerStep_staging {chunk : Bytes} {pipe : Pipe} (hbroken : l.isBroken = false)
    (hintake : l.intake = .staged (.staging chunk) pipe) (hsink : pipe.sinkLeft = false)
    (hallowance : pipe.allowance ≠ 0) (hroom : pipe.room ≠ 0) : l.readerStep ≠ none := by
  have hstage : ∃ rest pipe', pipe.stage chunk = some (rest, pipe') := by
    unfold Pipe.stage
    rw [if_neg (by simp [hallowance, hroom])]
    exact ⟨_, _, rfl⟩
  obtain ⟨rest, pipe', hstage⟩ := hstage
  simp only [readerStep, hintake, hbroken, hsink, Bool.or_self, Bool.false_eq_true, if_false,
    hstage]
  cases rest <;> simp

/-- A decoder whose turn it is reads a wire whose end has come. -/
theorem decoderStep_direct {a : Assembly} (hdecoder : l.decoder = some a)
    (hbroken : l.isBroken = false) (hintake : l.intake = .direct)
    (hread : (l.wire.read a.missing).1 ≠ .waits) : l.decoderStep ≠ none := by
  simp only [decoderStep, hdecoder, hbroken, hintake, Bool.false_eq_true, if_false]
  split
  · next hwaits =>
    rw [hwaits] at hread
    exact absurd rfl hread
  · simp
  · simp
  · simp

/-- A decoder whose turn it is waits at a pipe only where nothing is in it and the
source has not left. -/
theorem decoderStep_staged {a : Assembly} {reader : Reader} {pipe : Pipe}
    (hdecoder : l.decoder = some a) (hbroken : l.isBroken = false)
    (hintake : l.intake = .staged reader pipe) (hallowance : pipe.allowance ≠ 0)
    (hwaits : l.decoderStep = none) : pipe.staged = [] ∧ pipe.sourceLeft = false := by
  have hunstage : pipe.unstage a.missing = none := by
    simp only [decoderStep, hdecoder, hbroken, hintake, Bool.false_eq_true, if_false] at hwaits
    split at hwaits
    · assumption
    · simp at hwaits
  unfold Pipe.unstage at hunstage
  rw [if_neg hallowance] at hunstage
  split at hunstage
  · next hempty =>
    split at hunstage
    · simp at hunstage
    · next hleft => exact ⟨by simpa using hempty, by simpa using hleft⟩
  · simp at hunstage

/-- **Where all loops wait and the peer has closed the stream, the connection has
ended**: no loop waits for what cannot come. -/
theorem Streams.ends_of_isIdle (h : l.Streams fed done) (hended : l.wire.ended = true)
    (hidle : l.isIdle = true) : ∃ fault, l.Ends fed done fault := by
  cases h with
  | ends h => exact ⟨_, h⟩
  | @flows read a h =>
    exfalso
    obtain ⟨⟨-, hreader⟩, hdecoder⟩ : (l.writerStep = none ∧ l.refresh.readerStep = none) ∧
        l.refresh.decoderStep = none := by
      simpa [isIdle] using hidle
    have hbroken : l.refresh.isBroken = false := by
      rw [refresh_eq]
      exact h.supplies.unbroken
    have hat : l.refresh.decoder = some a := by
      rw [refresh_eq]
      exact h.decoder
    have hwire : l.refresh.wire = l.wire := by rw [refresh_eq]
    have hread : ∀ limit, (l.refresh.wire.read limit).1 ≠ .waits := by
      rw [hwire]
      exact read_ne_waits h.supplies.faultless.read hended
    have hintake : l.refresh.intake = l.intake.refresh := by rw [refresh_eq]
    have hopened := h.supplies.opened
    generalize l.intake = intake at hopened hintake
    have hallowance : Pipe.turnAllowance ≠ 0 := by decide
    cases hopened with
    | direct => exact decoderStep_direct hat hbroken hintake (hread _) hdecoder
    | reading _ _ _ => exact readerStep_reading hbroken hintake hallowance (hread _) hreader
    | @staging chunk pipe _ hcapacity _ hsink =>
      obtain ⟨hempty, -⟩ := decoderStep_staged hat hbroken hintake hallowance hdecoder
      have hempty : pipe.staged = [] := hempty
      have hroom : pipe.refresh.room ≠ 0 := by
        simp only [Pipe.room, Pipe.refresh, hempty, List.length_nil]
        omega
      exact readerStep_staging hbroken hintake hsink hallowance hroom hreader
    | stopped _ _ _ hleft _ =>
      obtain ⟨-, hopen⟩ := decoderStep_staged hat hbroken hintake hallowance hdecoder
      exact absurd (hleft.symm.trans hopen) (by decide)

/-- **When all loops wait, the stream has ended the connection**, and all that it
yields has been handed over. -/
theorem PeerSends.ends {stream : Bytes} {journal : List Deed} (hsends : PeerSends journal stream)
    (h : l.Streams fed done) (hopen : l.wire.ended = false)
    (hidle : (l.after journal).isIdle = true) :
    ∃ fault, (l.after journal).Ends (fed ++ stream) (done ++ l.account delivers journal) fault := by
  obtain ⟨hstreams, hended⟩ := hsends.streams h hopen
  exact hstreams.ends_of_isIdle hended hidle

/-! ## Delivered streams -/

/-- **A stream was delivered**: its frames to the table, in order, and its fault as
the reason for the end of the connection. -/
structure Delivered (l : Link) (journal : List Deed) (frames : List Decoded)
    (fault : CodecError) : Prop where
  /-- The table is what was said to it made of it. -/
  table : (l.after journal).exchange = (l.exchange.run (l.account news journal)).2
  /-- The answers among that, one after the other. -/
  answers : (l.account news journal).filterMap (·.answer?) =
    frames.map fun d => (d.key, d.message)
  reason : (l.after journal).lifecycle.reason = some (breakReason fault)
  framesDecoded : (l.after journal).counters.framesDecoded = UInt64.ofNat frames.length
  bytesRead : (l.after journal).lifecycle.reason = some .closedByPeer →
    (l.after journal).counters.bytesRead = UInt64.ofNat (frames.map (·.length)).sum

omit [OwnTypes] in
theorem breakReason_eq_closedByPeer_iff {fault : CodecError} :
    breakReason fault = .closedByPeer ↔ fault = .closed := by
  cases fault <;> simp [breakReason]

omit [OwnTypes] in
/-- What is wrong with the bytes of a stream is told as the decoder tells it. -/
theorem breakReason_eq_decode {fault : CodecError} (hopen : fault ≠ .closed)
    (hread : ∀ reason, fault ≠ .io reason) : breakReason fault =
      .decode (if fault = .crashed then "decoder loop panicked" else fault.message) := by
  cases fault with
  | closed => exact absurd rfl hopen
  | io reason => exact absurd rfl (hread reason)
  | _ => rfl

/-- A connection that the stream ended has delivered what the stream yields. -/
theorem Ends.delivered {stream : Bytes} {journal : List Deed} {frames : List Decoded}
    {fault other : CodecError}
    (h : (l.after journal).Ends stream (l.account delivers journal) other)
    (hyields : l.codec.Yields l.schema stream frames fault) : l.Delivered journal frames fault := by
  have hmade := sameMake_after l journal
  have hnow := h.yields [] fun _ => rfl
  rw [hmade.codec, hmade.schema, List.append_nil] at hnow
  obtain ⟨hframes, rfl⟩ := hyields.unique hnow
  rw [← hframes] at h
  exact {
    table := exchange_after l journal
    answers := by rw [account_news, ← hframes]
    reason := h.reason
    framesDecoded := h.framesDecoded
    bytesRead := fun hover => h.bytesRead
      (breakReason_eq_closedByPeer_iff.mp (Option.some.inj (h.reason.symm.trans hover))) }

end Link

end FramedDuplex
