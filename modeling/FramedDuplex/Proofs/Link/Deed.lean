import FramedDuplex.Link.Settle
import FramedDuplex.Exchange.Run
import Mathlib.Data.Nat.Notation
/-!
# What happens to a link, one deed at a time

A loop takes its next step, a caller does something with the table or the send
queue, the peer or the network does something to the wire, the client is closed
(`Link.Deed`). A journal is a list of deeds, and any list is one: a loop that has
no next step does nothing when its turn comes. So a property that every deed
keeps holds at every moment of every run, whatever the order in which loops,
callers and faults take their turns (`Link.throughout`).

What a step of a loop can do is said once for each loop (`Link.Writes`,
`Link.Reads`, `Link.Decodes`), with what it finds when it does it. What the reader
and the decoder leave alone is said once for both (`Link.Aside`).
-/

namespace FramedDuplex

/-! ## One use of the wire -/

namespace Wire

variable {w w' : Wire} {limit count : ℕ} {bs : Bytes} {reason : String}

theorem read_eq_failed (h : w.read limit = (.failed reason, w')) :
    w.readFault = some reason ∧ w' = { w with readFault := none } := by
  unfold read at h
  split at h
  · next hfault =>
    obtain ⟨hreason, rfl⟩ := Prod.ext_iff.mp h
    obtain rfl := Reading.failed.inj hreason
    exact ⟨hfault, rfl⟩
  · split at h
    · simp at h
    · split at h <;> simp at h

theorem read_eq_ended (h : w.read limit = (.ended, w')) :
    w.readFault = none ∧ w.inbound = [] ∧ w.ended = true ∧ w' = w := by
  unfold read at h
  split at h
  · simp at h
  · next hfault =>
    split at h
    · simp at h
    · next hbytes =>
      split at h
      · next hended =>
        obtain ⟨-, rfl⟩ := Prod.ext_iff.mp h
        exact ⟨hfault, by simpa using hbytes, hended, rfl⟩
      · simp at h

theorem read_eq_bytes (h : w.read limit = (.bytes bs, w')) :
    w.readFault = none ∧ w.inbound ≠ [] ∧ bs = w.inbound.take limit ∧
      w' = { w with inbound := w.inbound.drop limit } := by
  unfold read at h
  split at h
  · simp at h
  · next hfault =>
    split at h
    · next hbytes =>
      obtain ⟨hout, rfl⟩ := Prod.ext_iff.mp h
      exact ⟨hfault, by simpa using hbytes, (Reading.bytes.inj hout).symm, rfl⟩
    · split at h <;> simp at h

/-- **A writing that succeeds** takes as many bytes as the peer accepts, one at least
unless there was none to write. -/
theorem write_eq_accepted (h : w.write bs = (.accepted count, w')) :
    w' = { w with written := w.written ++ bs.take count, window := w.window.map (· - count) } ∧
      (bs ≠ [] → 0 < count) := by
  unfold write at h
  split at h
  · simp at h
  · split at h
    · simp at h
    · next hwindow =>
      obtain ⟨hcount, rfl⟩ := Prod.ext_iff.mp h
      obtain rfl := Writing.accepted.inj hcount
      refine ⟨rfl, fun hne => ?_⟩
      have hlen : 0 < bs.length := List.length_pos_iff.mpr hne
      cases hw : w.window with
      | none => simpa [admits, hw] using hlen
      | some n =>
        have hn : n ≠ 0 := fun h0 => hwindow (by rw [hw, h0])
        simp [admits, hw]
        omega

/-- A writing that fails leaves the wire as it is. -/
theorem write_eq_failed (h : w.write bs = (.failed reason, w')) :
    w.writeFault = some reason ∧ w' = w := by
  unfold write at h
  split at h
  · next hfault =>
    obtain ⟨hreason, rfl⟩ := Prod.ext_iff.mp h
    obtain rfl := Writing.failed.inj hreason
    exact ⟨hfault, rfl⟩
  · split at h <;> simp at h

/-- So does a flushing. -/
theorem flush_eq_failed (h : w.flush = (.failed reason, w')) :
    w.flushFault = some reason ∧ w' = w := by
  unfold flush at h
  split at h
  · simp at h
  · split at h
    · next hfault =>
      obtain ⟨hreason, rfl⟩ := Prod.ext_iff.mp h
      obtain rfl := Writing.failed.inj hreason
      exact ⟨hfault, rfl⟩
    · simp at h

theorem flush_eq_accepted (h : w.flush = (.accepted count, w')) :
    w' = { w with flushes := w.flushes + 1 } := by
  unfold flush at h
  split at h
  · simp at h
  · split at h
    · simp at h
    · exact (Prod.ext_iff.mp h).2.symm

end Wire

/-- A reader that has to stage what is left of its bytes, if any are. -/
def Reader.of : Bytes → Reader
  | [] => .reading
  | b :: bs => .staging (b :: bs)

theorem Lifecycle.trigger_of_isTriggered {life : Lifecycle} (h : life.isTriggered = true)
    (reason : BrokenReason) : life.trigger reason = life := by
  obtain ⟨_ | first⟩ := life
  · simp [isTriggered] at h
  · rfl

namespace Intake

/-- The decoder has left. -/
def leaveSink : Intake → Intake
  | direct => direct
  | staged reader pipe => staged reader { pipe with sinkLeft := true }

/-- A turn begins. -/
def refresh : Intake → Intake
  | direct => direct
  | staged reader pipe => staged reader pipe.refresh

/-- Both ends have left. -/
def stopped : Intake → Intake
  | direct => direct
  | staged _ pipe => staged .stopped { pipe with sourceLeft := true, sinkLeft := true }

end Intake

variable [OwnTypes]

namespace Link

/-- What can happen to a link at once. -/
inductive Deed where
  /-- The writer takes its next step, if it has one. -/
  | write
  | read
  | decode
  /-- A turn of a loop begins. -/
  | turn
  /-- The client ends the connection. -/
  | quit
  /-- The loops are stopped where they are, if the connection has ended. -/
  | abort
  | meet (event : Wire.Event)
  | act (now : ℕ) (deadline : Option ℕ) (move : Exchange.Move Key)
  /-- Buffers are taken for a frame. -/
  | acquire (capacities : List ℕ)
  | release (buffers : List Buffer)
  /-- A sender brings a frame to the send queue. -/
  | offer (sender : ℕ) (p : Parcel)
  /-- A sender that waits for room tries again. -/
  | retry (sender : ℕ) (p : Parcel)
  | abandon (sender : ℕ)

/-- The link after a deed. -/
def perform (l : Link) : Deed → Link
  | .write => l.writerStep.getD l
  | .read => l.readerStep.getD l
  | .decode => l.decoderStep.getD l
  | .turn => l.refresh
  | .quit => l.breakOff .disposed
  | .abort => if l.isBroken then l.abort else l
  | .meet event => { l with wire := l.wire.meet event }
  | .act now deadline move => { l with exchange := (l.exchange.act now deadline move).2 }
  | .acquire capacities => { l with pool := (l.pool.acquireAll capacities).2 }
  | .release buffers => { l with pool := l.pool.releaseAll buffers }
  | .offer sender p => { l with outbox := (l.outbox.offer sender p).2 }
  | .retry sender p => { l with outbox := (l.outbox.retry sender p).2 }
  | .abandon sender => { l with outbox := l.outbox.abandon sender }

/-- The link after a journal. -/
def after (l : Link) (journal : List Deed) : Link := journal.foldl perform l

variable {l l' : Link} {p q journal : List Deed} {d : Deed}

@[simp] theorem after_nil (l : Link) : l.after [] = l := rfl

@[simp] theorem after_cons (l : Link) (d : Deed) (rest : List Deed) :
    l.after (d :: rest) = (l.perform d).after rest := rfl

theorem after_append (l : Link) (p q : List Deed) : l.after (p ++ q) = (l.after p).after q :=
  List.foldl_append ..

theorem after_concat (l : Link) (p : List Deed) (d : Deed) :
    l.after (p ++ [d]) = (l.after p).perform d := by
  rw [after_append]
  rfl

/-- **What every deed keeps, every journal keeps.** -/
theorem throughout {P : Link → Prop} (keeps : ∀ l d, P l → P (l.perform d)) (start : P l)
    (journal : List Deed) : P (l.after journal) := by
  induction journal generalizing l with
  | nil => exact start
  | cons d rest ih => exact ih (keeps l d start)

/-! ## Accounts -/

/-- An account of a journal: what is to be said of each deed, read off the link
that it is done on. -/
def account {β : Type} (entry : Link → Deed → List β) (l : Link) : List Deed → List β
  | [] => []
  | d :: rest => entry l d ++ (l.perform d).account entry rest

theorem account_append {β : Type} (entry : Link → Deed → List β) (l : Link) (p q : List Deed) :
    l.account entry (p ++ q) = l.account entry p ++ (l.after p).account entry q := by
  induction p generalizing l with
  | nil => rfl
  | cons d rest ih => simp [account, ih]

/-! ## Kinds of deeds -/

/-- Whether a deed brings a frame to the send queue. -/
def Deed.brings : Deed → Bool
  | .offer .. | .retry .. => true
  | _ => false

/-- A deed of the loops or of a caller, or one of the network by which nothing goes
wrong and nothing comes in. -/
def Deed.quiet : Deed → Bool
  | .quit | .abort => false
  | .meet (.window _) | .meet (.stall _) => true
  | .meet _ => false
  | _ => true

/-- A quiet deed that brings no frame. -/
structure Deed.Calm (d : Deed) : Prop where
  quiet : d.quiet = true
  brings : d.brings = false

/-- Whether a loop does a deed. -/
def Deed.byLoop : Deed → Bool
  | .write | .read | .decode | .turn => true
  | _ => false

theorem Deed.calm_of_byLoop (h : d.byLoop = true) : d.Calm := by
  cases d <;> first | exact ⟨rfl, rfl⟩ | cases h

/-! ## The ends of things

Each of the definitions that end something is told here as what it puts in place,
and says by that what it leaves alone. -/

/-- **The first fault ends the connection** and touches nothing but the
lifecycle and the table. -/
theorem breakOff_eq (l : Link) (reason : BrokenReason) :
    l.breakOff reason =
      { l with
        lifecycle := l.lifecycle.trigger reason
        exchange := if l.isBroken then l.exchange else (l.exchange.fail reason).2 } := by
  unfold breakOff
  split
  · next hbroken => rw [Lifecycle.trigger_of_isTriggered hbroken]
  · rfl

theorem stopDecoder_eq (l : Link) :
    l.stopDecoder = { l with intake := l.intake.leaveSink, decoder := none } := by
  obtain ⟨_, _, _, _, _, _, _, _, _, _, intake, _⟩ := l
  cases intake <;> rfl

theorem refresh_eq (l : Link) : l.refresh = { l with intake := l.intake.refresh } := by
  obtain ⟨_, _, _, _, _, _, _, _, _, _, intake, _⟩ := l
  cases intake <;> rfl

theorem abort_eq (l : Link) :
    l.abort =
      { l with
        writer := .stopped
        outbox := l.outbox.close
        intake := l.intake.stopped
        decoder := none } := by
  obtain ⟨_, _, _, _, _, _, _, _, _, _, intake, _⟩ := l
  cases intake <;> rfl

/-! ## The writer -/

/-- What a step of the writer can do. -/
inductive Writes (l : Link) : Link → Prop where
  | stop : l.isBroken = true → Writes l l.stopWriter
  | take {first : Parcel} {rest : List Parcel} {outbox : Outbox} : l.isBroken = false →
      l.writer = .idle → l.outbox.take batchLimit = (first :: rest, outbox) →
        Writes l { l with outbox, writer := .writing first.bytes first rest }
  | part {left : Bytes} {first : Parcel} {rest : List Parcel} {count : ℕ} {wire : Wire} :
      l.isBroken = false → l.writer = .writing left first rest →
        l.wire.write left = (.accepted count, wire) → count < left.length →
          Writes l { l with wire, writer := .writing (left.drop count) first rest }
  | whole {left : Bytes} {first : Parcel} {rest : List Parcel} {count : ℕ} {wire : Wire} :
      l.isBroken = false → l.writer = .writing left first rest →
        l.wire.write left = (.accepted count, wire) → ¬ count < left.length →
          Writes l { ({ l with wire }.countSent first) with writer := startFrame rest }
  | flush : l.writer = .flushing →
      Writes l { l with wire := { l.wire with flushes := l.wire.flushes + 1 }, writer := .idle }
  | fail {reason : String} : l.wire.writeFault = some reason ∨ l.wire.flushFault = some reason →
      Writes l (l.breakOff (.write reason)).stopWriter

/-- A writing that fails leaves the wire as it is, and so does a flushing. -/
theorem writes_of_writerStep (h : l.writerStep = some l') : l.Writes l' := by
  unfold writerStep at h
  split at h
  · simp at h
  · next hwriter =>
    split at h
    · next hbroken =>
      obtain rfl := Option.some.inj h
      exact .stop hbroken
    · next hbroken =>
      split at h
      · simp at h
      · next batch outbox hempty htake =>
        obtain rfl := Option.some.inj h
        cases batch with
        | nil => exact (hempty rfl).elim
        | cons first rest => exact .take (by simpa using hbroken) hwriter htake
  · next left first rest hwriter =>
    split at h
    · next hbroken =>
      obtain rfl := Option.some.inj h
      exact .stop hbroken
    · next hbroken =>
      have hbroken : l.isBroken = false := by simpa using hbroken
      split at h
      · simp at h
      · next reason wire hwrite =>
        obtain ⟨hfault, rfl⟩ := Wire.write_eq_failed hwrite
        obtain rfl := Option.some.inj h
        exact .fail (.inl hfault)
      · next count wire hwrite =>
        split at h
        · next hcount =>
          obtain rfl := Option.some.inj h
          exact .part hbroken hwriter hwrite hcount
        · next hcount =>
          obtain rfl := Option.some.inj h
          exact .whole hbroken hwriter hwrite hcount
  · next hwriter =>
    split at h
    · simp at h
    · next reason wire hflush =>
      obtain ⟨hfault, rfl⟩ := Wire.flush_eq_failed hflush
      obtain rfl := Option.some.inj h
      exact .fail (.inr hfault)
    · next count wire hflush =>
      obtain rfl := Wire.flush_eq_accepted hflush
      obtain rfl := Option.some.inj h
      exact .flush hwriter

theorem perform_write (l : Link) : l.perform .write = l ∨ l.Writes (l.perform .write) := by
  rw [perform]
  cases h : l.writerStep with
  | none => exact .inl rfl
  | some l' => exact .inr (writes_of_writerStep h)

/-! ## The reader -/

/-- What a step of the reader can do. -/
inductive Reads (l : Link) : Link → Prop where
  | stop {reader : Reader} {pipe : Pipe} : l.intake = .staged reader pipe →
      l.isBroken = true ∨ pipe.sinkLeft = true → Reads l (l.stopReader pipe)
  | fail {pipe : Pipe} {reason : String} : l.isBroken = false → l.intake = .staged .reading pipe →
      l.wire.readFault = some reason →
        Reads l (({ l with wire := { l.wire with readFault := none } }.breakOff
          (.io reason)).stopReader pipe)
  | ended {pipe : Pipe} : l.isBroken = false → l.intake = .staged .reading pipe →
      l.wire.readFault = none → l.wire.inbound = [] → l.wire.ended = true →
        Reads l (l.stopReader pipe)
  | bytes {pipe : Pipe} : l.isBroken = false → l.intake = .staged .reading pipe →
      l.wire.readFault = none → l.wire.inbound ≠ [] →
        Reads l ({ l with
          wire := { l.wire with inbound := l.wire.inbound.drop l.readBuffer }
          counters := l.counters.read (l.wire.inbound.take l.readBuffer).length }.stage
            (.staging (l.wire.inbound.take l.readBuffer)) pipe)
  | stage {chunk rest : Bytes} {pipe pipe' : Pipe} : l.isBroken = false → pipe.sinkLeft = false →
      l.intake = .staged (.staging chunk) pipe → pipe.stage chunk = some (rest, pipe') →
        Reads l (l.stage (.of rest) pipe')

theorem reads_of_readerStep (h : l.readerStep = some l') : l.Reads l' := by
  unfold readerStep at h
  split at h
  · simp at h
  · simp at h
  · next pipe hintake =>
    split at h
    · next hbroken =>
      obtain rfl := Option.some.inj h
      exact .stop hintake (.inl hbroken)
    · next hbroken =>
      have hbroken : l.isBroken = false := by simpa using hbroken
      split at h
      · simp at h
      · split at h
        · simp at h
        · next reason wire hread =>
          obtain ⟨hfault, rfl⟩ := Wire.read_eq_failed hread
          obtain rfl := Option.some.inj h
          exact .fail hbroken hintake hfault
        · next wire hread =>
          obtain ⟨hfault, hbytes, hended, rfl⟩ := Wire.read_eq_ended hread
          obtain rfl := Option.some.inj h
          exact .ended hbroken hintake hfault hbytes hended
        · next bs wire hread =>
          obtain ⟨hfault, hbytes, rfl, rfl⟩ := Wire.read_eq_bytes hread
          obtain rfl := Option.some.inj h
          exact .bytes hbroken hintake hfault hbytes
  · next chunk pipe hintake =>
    split at h
    · next hstop =>
      obtain rfl := Option.some.inj h
      exact .stop hintake (by simpa using hstop)
    · next hgo =>
      obtain ⟨hbroken, hsink⟩ : l.isBroken = false ∧ pipe.sinkLeft = false := by simpa using hgo
      split at h
      · simp at h
      · next pipe' hstage =>
        obtain rfl := Option.some.inj h
        exact .stage hbroken hsink hintake hstage
      · next rest pipe' hrest hstage =>
        obtain rfl := Option.some.inj h
        cases rest with
        | nil => exact absurd rfl hrest
        | cons b bs => exact .stage hbroken hsink hintake hstage

theorem perform_read (l : Link) : l.perform .read = l ∨ l.Reads (l.perform .read) := by
  rw [perform]
  cases h : l.readerStep with
  | none => exact .inl rfl
  | some l' => exact .inr (reads_of_readerStep h)

/-! ## The decoder -/

/-- The decoder asks its source for bytes, which gives it some, or none at its
end. -/
inductive Draws (l : Link) (limit : ℕ) : Bytes → Link → Prop where
  | bytes : l.intake = .direct → l.wire.readFault = none → l.wire.inbound ≠ [] →
      Draws l limit (l.wire.inbound.take limit)
        { l with
          wire := { l.wire with inbound := l.wire.inbound.drop limit }
          counters := l.counters.read (l.wire.inbound.take limit).length }
  | ended : l.intake = .direct → l.wire.readFault = none → l.wire.inbound = [] →
      l.wire.ended = true → Draws l limit [] l
  | staged {reader : Reader} {pipe pipe' : Pipe} {bs : Bytes} : l.intake = .staged reader pipe →
      pipe.unstage limit = some (bs, pipe') → Draws l limit bs (l.stage reader pipe')

/-- What a step of the decoder can do, and the answer that it hands over. -/
inductive Decodes (l : Link) : Option Decoded → Link → Prop where
  | stop {a : Assembly} : l.decoder = some a → l.isBroken = true → Decodes l none l.stopDecoder
  | fail {a : Assembly} {reason : String} : l.decoder = some a → l.isBroken = false →
      l.intake = .direct → l.wire.readFault = some reason →
        Decodes l none ({ l with wire := { l.wire with readFault := none } }.breakOff
          (.io reason)).stopDecoder
  | ended {a : Assembly} {m : Link} : l.decoder = some a → l.isBroken = false →
      l.Draws a.missing [] m → Decodes l none (m.breakOff (breakReason a.ended)).stopDecoder
  | more {a b : Assembly} {bs : Bytes} {m : Link} : l.decoder = some a → l.isBroken = false →
      l.Draws a.missing bs m → bs ≠ [] → l.codec.accept l.schema a bs = .more b →
        Decodes l none { m with decoder := some b }
  | frame {a : Assembly} {bs : Bytes} {m : Link} {d : Decoded} : l.decoder = some a →
      l.isBroken = false → l.Draws a.missing bs m → bs ≠ [] →
        l.codec.accept l.schema a bs = .done (.ok d) → Decodes l (some d) (m.deliver d)
  | fault {a : Assembly} {bs : Bytes} {m : Link} {cause : CodecError} : l.decoder = some a →
      l.isBroken = false → l.Draws a.missing bs m → bs ≠ [] →
        l.codec.accept l.schema a bs = .done (.error cause) →
          Decodes l none (m.breakOff (breakReason cause)).stopDecoder

/-- What the source gives a decoder that asks; no bytes mean that it has ended. -/
def given? (l : Link) (limit : ℕ) : Option Bytes :=
  match l.intake with
  | .direct =>
    match (l.wire.read limit).1 with
    | .bytes bs => some bs
    | .ended => some []
    | _ => none
  | .staged _ pipe => (pipe.unstage limit).map (·.1)

/-- The answer that the decoder hands over with its next step, if it does. -/
def answer? (l : Link) : Option Decoded :=
  match l.decoder with
  | none => none
  | some a =>
    if l.isBroken then none
    else
      match l.given? a.missing with
      | none | some [] => none
      | some (b :: bs) =>
        match l.codec.accept l.schema a (b :: bs) with
        | .done (.ok d) => some d
        | _ => none

/-- What the decoder makes of the bytes that it was given. -/
theorem decodes_assemble {a : Assembly} {bs : Bytes} {m : Link} (hdecoder : l.decoder = some a)
    (hbroken : l.isBroken = false) (hgiven : l.given? a.missing = some bs)
    (hdraws : l.Draws a.missing bs m) : l.Decodes l.answer? (m.assemble a bs) := by
  obtain ⟨hcodec, hschema⟩ : m.codec = l.codec ∧ m.schema = l.schema := by
    cases hdraws <;> exact ⟨rfl, rfl⟩
  cases bs with
  | nil =>
    have hanswer : l.answer? = none := by simp [answer?, hdecoder, hbroken, hgiven]
    rw [hanswer]
    exact .ended hdecoder hbroken hdraws
  | cons b bs =>
    have hne : b :: bs ≠ [] := List.cons_ne_nil b bs
    have hnow : m.codec.accept m.schema a (b :: bs) = l.codec.accept l.schema a (b :: bs) := by
      rw [hcodec, hschema]
    cases haccept : l.codec.accept l.schema a (b :: bs) with
    | more a' =>
      have hanswer : l.answer? = none := by simp [answer?, hdecoder, hbroken, hgiven, haccept]
      have hassemble : m.assemble a (b :: bs) = { m with decoder := some a' } := by
        simp [assemble, hnow, haccept]
      rw [hanswer, hassemble]
      exact .more hdecoder hbroken hdraws hne haccept
    | done result =>
      cases result with
      | ok d =>
        have hanswer : l.answer? = some d := by simp [answer?, hdecoder, hbroken, hgiven, haccept]
        have hassemble : m.assemble a (b :: bs) = m.deliver d := by
          simp [assemble, hnow, haccept]
        rw [hanswer, hassemble]
        exact .frame hdecoder hbroken hdraws hne haccept
      | error cause =>
        have hanswer : l.answer? = none := by simp [answer?, hdecoder, hbroken, hgiven, haccept]
        have hassemble : m.assemble a (b :: bs) =
            (m.breakOff (breakReason cause)).stopDecoder := by
          simp [assemble, hnow, haccept]
        rw [hanswer, hassemble]
        exact .fault hdecoder hbroken hdraws hne haccept

theorem decodes_of_decoderStep (h : l.decoderStep = some l') : l.Decodes l.answer? l' := by
  unfold decoderStep at h
  split at h
  · simp at h
  · next a hdecoder =>
    split at h
    · next hbroken =>
      have hanswer : l.answer? = none := by simp [answer?, hdecoder, hbroken]
      obtain rfl := Option.some.inj h
      rw [hanswer]
      exact .stop hdecoder hbroken
    · next hbroken =>
      have hbroken : l.isBroken = false := by simpa using hbroken
      split at h
      · next hintake =>
        split at h
        · simp at h
        · next reason wire hread =>
          have hanswer : l.answer? = none := by
            simp [answer?, given?, hdecoder, hbroken, hintake, hread]
          obtain ⟨hfault, rfl⟩ := Wire.read_eq_failed hread
          obtain rfl := Option.some.inj h
          rw [hanswer]
          exact .fail hdecoder hbroken hintake hfault
        · next wire hread =>
          have hgiven : l.given? a.missing = some [] := by simp [given?, hintake, hread]
          obtain ⟨hfault, hbytes, hended, rfl⟩ := Wire.read_eq_ended hread
          obtain rfl := Option.some.inj h
          exact decodes_assemble hdecoder hbroken hgiven (.ended hintake hfault hbytes hended)
        · next bs wire hread =>
          have hgiven : l.given? a.missing = some bs := by simp [given?, hintake, hread]
          obtain ⟨hfault, hbytes, rfl, rfl⟩ := Wire.read_eq_bytes hread
          obtain rfl := Option.some.inj h
          exact decodes_assemble hdecoder hbroken hgiven (.bytes hintake hfault hbytes)
      · next reader pipe hintake =>
        split at h
        · simp at h
        · next bs pipe' hunstage =>
          have hgiven : l.given? a.missing = some bs := by simp [given?, hintake, hunstage]
          obtain rfl := Option.some.inj h
          exact decodes_assemble hdecoder hbroken hgiven (.staged hintake hunstage)

/-- A decoder that has to wait hands nothing over. -/
theorem answer?_of_decoderStep (h : l.decoderStep = none) : l.answer? = none := by
  unfold decoderStep at h
  unfold answer?
  cases hdecoder : l.decoder with
  | none => rfl
  | some a =>
    cases hbroken : l.isBroken with
    | true => rfl
    | false =>
      simp only [hdecoder, hbroken, Bool.false_eq_true, if_false] at h
      have hgiven : l.given? a.missing = none := by
        unfold given?
        cases hintake : l.intake with
        | direct =>
          simp only [hintake] at h ⊢
          split at h <;> simp_all
        | staged reader pipe =>
          simp only [hintake] at h ⊢
          split at h <;> simp_all
      simp [hgiven]

theorem perform_decode (l : Link) :
    l.answer? = none ∧ l.perform .decode = l ∨ l.Decodes l.answer? (l.perform .decode) := by
  rw [perform]
  cases h : l.decoderStep with
  | none => exact .inl ⟨answer?_of_decoderStep h, rfl⟩
  | some l' => exact .inr (decodes_of_decoderStep h)

/-! ## What no deed changes -/

/-- The codec, the schema and the size of the read buffer are the same. -/
structure SameMake (l l' : Link) : Prop where
  codec : l'.codec = l.codec
  schema : l'.schema = l.schema
  readBuffer : l'.readBuffer = l.readBuffer

namespace SameMake

theorem refl (l : Link) : l.SameMake l := ⟨rfl, rfl, rfl⟩

theorem trans {l'' : Link} (h : l.SameMake l') (h' : l'.SameMake l'') : l.SameMake l'' :=
  ⟨h'.codec.trans h.codec, h'.schema.trans h.schema, h'.readBuffer.trans h.readBuffer⟩

theorem breakOff (h : l.SameMake l') (reason : BrokenReason) : l.SameMake (l'.breakOff reason) := by
  rw [breakOff_eq]
  exact ⟨h.codec, h.schema, h.readBuffer⟩

end SameMake

/-- Only what comes in makes a difference, or the end of the connection: what the
link was made as, what goes out and the peer are the same. -/
structure Aside (l l' : Link) : Prop where
  make : l.SameMake l'
  writer : l'.writer = l.writer
  outbox : l'.outbox = l.outbox
  written : l'.wire.written = l.wire.written
  ended : l'.wire.ended = l.wire.ended
  framesSent : l'.counters.framesSent = l.counters.framesSent
  bytesWritten : l'.counters.bytesWritten = l.counters.bytesWritten

namespace Aside

theorem refl (l : Link) : l.Aside l := ⟨.refl l, rfl, rfl, rfl, rfl, rfl, rfl⟩

theorem breakOff (h : l.Aside l') (reason : BrokenReason) : l.Aside (l'.breakOff reason) := by
  rw [breakOff_eq]
  exact ⟨⟨h.make.codec, h.make.schema, h.make.readBuffer⟩, h.writer, h.outbox, h.written, h.ended,
    h.framesSent, h.bytesWritten⟩

/-- Another way from the wire to the decoder, and another decoder. -/
theorem intake (h : l.Aside l') (intake : Intake) (decoder : Option Assembly) :
    l.Aside { l' with intake, decoder } :=
  ⟨⟨h.make.codec, h.make.schema, h.make.readBuffer⟩, h.writer, h.outbox, h.written, h.ended,
    h.framesSent, h.bytesWritten⟩

theorem stopDecoder (h : l.Aside l') : l.Aside l'.stopDecoder := by
  rw [stopDecoder_eq]
  exact h.intake _ _

end Aside

theorem Draws.aside {limit : ℕ} {bs : Bytes} {m : Link} (h : l.Draws limit bs m) : l.Aside m := by
  cases h <;> exact ⟨⟨rfl, rfl, rfl⟩, rfl, rfl, rfl, rfl, rfl, rfl⟩

/-- A read fault is taken off the wire. -/
theorem aside_readFault (l : Link) : l.Aside { l with wire := { l.wire with readFault := none } } :=
  ⟨⟨rfl, rfl, rfl⟩, rfl, rfl, rfl, rfl, rfl, rfl⟩

/-- **The reader** stands aside from what goes out. -/
theorem aside_read (l : Link) : l.Aside (l.perform .read) := by
  rcases perform_read l with hsame | hreads
  · rw [hsame]
    exact .refl l
  · generalize l.perform .read = l' at hreads ⊢
    cases hreads with
    | @fail pipe reason hbroken hintake hfault =>
      exact ((aside_readFault l).breakOff (.io reason)).intake _ _
    | _ => exact ⟨⟨rfl, rfl, rfl⟩, rfl, rfl, rfl, rfl, rfl, rfl⟩

/-- **So does the decoder.** -/
theorem aside_decode (l : Link) : l.Aside (l.perform .decode) := by
  rcases perform_decode l with ⟨-, hsame⟩ | hdecodes
  · rw [hsame]
    exact .refl l
  · generalize l.perform .decode = l', l.answer? = answer at hdecodes ⊢
    cases hdecodes with
    | stop hdecoder hbroken => exact (Aside.refl l).stopDecoder
    | fail hdecoder hbroken hintake hfault =>
      exact ((aside_readFault l).breakOff _).stopDecoder
    | ended hdecoder hbroken hdraws => exact (hdraws.aside.breakOff _).stopDecoder
    | more hdecoder hbroken hdraws hne haccept => exact hdraws.aside.intake _ _
    | frame hdecoder hbroken hdraws hne haccept =>
      have hdrawn := hdraws.aside
      exact ⟨⟨hdrawn.make.codec, hdrawn.make.schema, hdrawn.make.readBuffer⟩, hdrawn.writer,
        hdrawn.outbox, hdrawn.written, hdrawn.ended, hdrawn.framesSent, hdrawn.bytesWritten⟩
    | fault hdecoder hbroken hdraws hne haccept => exact (hdraws.aside.breakOff _).stopDecoder

theorem sameMake_write (l : Link) : l.SameMake (l.perform .write) := by
  rcases perform_write l with hsame | hwrites
  · rw [hsame]
    exact .refl l
  · generalize l.perform .write = l' at hwrites ⊢
    cases hwrites with
    | @fail reason hfault =>
      have hover := SameMake.breakOff (.refl l) (.write reason)
      exact ⟨hover.codec, hover.schema, hover.readBuffer⟩
    | _ => exact ⟨rfl, rfl, rfl⟩

theorem sameMake_perform (l : Link) (d : Deed) : l.SameMake (l.perform d) := by
  cases d with
  | write => exact sameMake_write l
  | read => exact (aside_read l).make
  | decode => exact (aside_decode l).make
  | turn =>
    rw [perform, refresh_eq]
    exact ⟨rfl, rfl, rfl⟩
  | quit => exact SameMake.breakOff (.refl l) _
  | abort =>
    rw [perform, abort_eq]
    split <;> exact ⟨rfl, rfl, rfl⟩
  | _ => exact ⟨rfl, rfl, rfl⟩

/-- **A link is what it was made as**, whatever is done to it. -/
theorem sameMake_after (l : Link) (journal : List Deed) : l.SameMake (l.after journal) :=
  throughout (fun m d h => h.trans (sameMake_perform m d)) (.refl l) journal

/-! ## The loops take turns -/

/-- What a loop does in its turn. -/
def goOnDeeds (step : Link → Option Link) (d : Deed) : ℕ → Link → List Deed
  | 0, _ => []
  | fuel + 1, l =>
    match step l with
    | none => []
    | some l => d :: goOnDeeds step d fuel l

/-- What the loops do in a turn of each. -/
def roundDeeds (fuel : ℕ) (l : Link) : List Deed :=
  let written := goOn writerStep fuel l
  let read := goOn readerStep fuel written.refresh
  goOnDeeds writerStep .write fuel l ++
    .turn :: goOnDeeds readerStep .read fuel written.refresh ++
    .turn :: goOnDeeds decoderStep .decode fuel read.refresh

def roundsDeeds (fuel : ℕ) : ℕ → Link → List Deed
  | 0, _ => []
  | count + 1, l =>
    if l.isIdle then [] else l.roundDeeds fuel ++ roundsDeeds fuel count (l.round fuel)

/-- What the loops do until all wait. -/
def settleDeeds (l : Link) : List Deed := l.roundsDeeds (l.work + 1) (l.work + 1)

theorem goOn_eq_after {step : Link → Option Link} (hstep : ∀ l, l.perform d = (step l).getD l)
    (fuel : ℕ) (l : Link) : goOn step fuel l = l.after (goOnDeeds step d fuel l) := by
  induction fuel generalizing l with
  | zero => rfl
  | succ fuel ih =>
    rw [goOn, goOnDeeds]
    cases h : step l with
    | none => rfl
    | some next =>
      have hnext : l.perform d = next := by rw [hstep, h, Option.getD_some]
      rw [after_cons, hnext]
      exact ih next

theorem round_eq_after (fuel : ℕ) (l : Link) : l.round fuel = l.after (l.roundDeeds fuel) := by
  have hwrite : ∀ l, goOn writerStep fuel l = l.after (goOnDeeds writerStep .write fuel l) :=
    goOn_eq_after (fun _ => rfl) fuel
  have hread : ∀ l, goOn readerStep fuel l = l.after (goOnDeeds readerStep .read fuel l) :=
    goOn_eq_after (fun _ => rfl) fuel
  have hdecode : ∀ l, goOn decoderStep fuel l = l.after (goOnDeeds decoderStep .decode fuel l) :=
    goOn_eq_after (fun _ => rfl) fuel
  simp only [round, roundDeeds, after_append, after_cons, ← hwrite]
  show _ = (((goOn writerStep fuel l).refresh.after _).refresh).after _
  rw [← hread, ← hdecode]

theorem rounds_eq_after (fuel count : ℕ) (l : Link) :
    l.rounds fuel count = l.after (l.roundsDeeds fuel count) := by
  induction count generalizing l with
  | zero => rfl
  | succ count ih =>
    rw [rounds, roundsDeeds]
    split
    · rfl
    · rw [after_append, ← round_eq_after, ih]

/-- **Letting the loops run is a journal.** -/
theorem settle_eq_after (l : Link) : l.settle = l.after l.settleDeeds :=
  rounds_eq_after ..

theorem byLoop_goOnDeeds {step : Link → Option Link} (hd : d.byLoop = true) (fuel : ℕ) (l : Link) :
    ∀ e ∈ goOnDeeds step d fuel l, e.byLoop = true := by
  induction fuel generalizing l with
  | zero => simp [goOnDeeds]
  | succ fuel ih =>
    unfold goOnDeeds
    split
    · simp
    · exact List.forall_mem_cons.mpr ⟨hd, ih _⟩

theorem byLoop_roundsDeeds (fuel count : ℕ) (l : Link) :
    ∀ e ∈ l.roundsDeeds fuel count, e.byLoop = true := by
  have hround : ∀ (l : Link), ∀ e ∈ l.roundDeeds fuel, e.byLoop = true := by
    intro l
    simp only [roundDeeds, List.forall_mem_append, List.forall_mem_cons]
    exact ⟨⟨byLoop_goOnDeeds rfl fuel l, rfl, byLoop_goOnDeeds rfl fuel _⟩, rfl,
      byLoop_goOnDeeds rfl fuel _⟩
  induction count generalizing l with
  | zero => simp [roundsDeeds]
  | succ count ih =>
    unfold roundsDeeds
    split
    · simp
    · exact List.forall_mem_append.mpr ⟨hround l, ih _⟩

/-- While the loops run, nobody else does anything. -/
theorem byLoop_settleDeeds (l : Link) : ∀ e ∈ l.settleDeeds, e.byLoop = true :=
  byLoop_roundsDeeds _ _ l

/-- **The loops are calm**, left to themselves. -/
theorem calm_settleDeeds (l : Link) : ∀ e ∈ l.settleDeeds, e.Calm :=
  fun e he => Deed.calm_of_byLoop (byLoop_settleDeeds l e he)

end Link

end FramedDuplex
