import FramedDuplex.Link.Basic
/-!
# Letting the loops run

The loops take turns: the writer, the reader, the decoder. In its turn a loop
goes on until it has to wait. A link is idle when every loop would wait, and
`Link.settle` lets the loops run until then. How many steps that takes is
bounded by `Link.work`, which every step of a loop lowers as long as the read
buffer holds a byte.
-/

namespace FramedDuplex

variable [OwnTypes]

namespace Link

/-- What the writer has before it. -/
def writerWork (l : Link) : Nat :=
  l.outbox.queue.foldl (· + ·.bytes.length + 3) 0 +
    match l.writer with
    | .stopped => 0
    | .idle => 1
    | .flushing => 2
    | .writing left _ rest => rest.foldl (· + ·.bytes.length + 1) (left.length + 3)

/-- What the reader and the decoder have before them. Each byte is moved three
times at most: by the reader off the wire and into the pipe, and by the decoder. -/
def intakeWork (l : Link) : Nat :=
  3 * l.wire.inbound.length + (if l.decoder.isSome then 1 else 0) +
    match l.intake with
    | .direct => 0
    | .staged reader pipe =>
      pipe.staged.length +
        match reader with
        | .stopped => 0
        | .reading => 1
        | .staging chunk => 2 * chunk.length + 1

/-- What the loops have before them. -/
def work (l : Link) : Nat := l.writerWork + l.intakeWork

/-- Begins a turn of a loop. -/
def refresh (l : Link) : Link :=
  match l.intake with
  | .direct => l
  | .staged reader pipe => l.stage reader pipe.refresh

/-- A loop goes on until it has to wait, for so many steps at most. -/
def goOn (step : Link → Option Link) : Nat → Link → Link
  | 0, l => l
  | fuel + 1, l =>
    match step l with
    | none => l
    | some l => goOn step fuel l

/-- A turn of every loop. -/
def round (fuel : Nat) (l : Link) : Link :=
  let l := goOn writerStep fuel l
  let l := goOn readerStep fuel l.refresh
  goOn decoderStep fuel l.refresh

/-- Whether every loop would wait. -/
def isIdle (l : Link) : Bool :=
  l.writerStep.isNone && l.refresh.readerStep.isNone && l.refresh.decoderStep.isNone

/-- The loops take turns until all wait, for so many rounds at most. -/
def rounds (fuel : Nat) : Nat → Link → Link
  | 0, l => l
  | count + 1, l => if l.isIdle then l else rounds fuel count (l.round fuel)

/-- The loops run until all wait. -/
def settle (l : Link) : Link := l.rounds (l.work + 1) (l.work + 1)

/-- **Where every loop waits, nothing happens.** -/
theorem settle_of_isIdle {l : Link} (h : l.isIdle = true) : l.settle = l := by
  simp [settle, rounds, h]

/-! ## The end of the loops -/

/-- Whether every loop has stopped. -/
def hasStopped (l : Link) : Bool :=
  (match l.writer with
    | .stopped => true
    | _ => false) &&
  (match l.intake with
    | .direct | .staged .stopped _ => true
    | .staged .. => false) &&
  l.decoder.isNone

/-- Stops the loops where they are. -/
def abort (l : Link) : Link :=
  let l := { l with writer := .stopped, outbox := l.outbox.close }
  let l :=
    match l.intake with
    | .direct => l
    | .staged _ pipe => l.stopReader pipe
  l.stopDecoder

/-- Whether no loop has the wire any more. -/
def hasLetGo (l : Link) : Bool :=
  (match l.writer with
    | .stopped => true
    | _ => false) &&
  match l.intake with
  | .direct => l.decoder.isNone
  | .staged .stopped _ => true
  | .staged .. => false

end Link

end FramedDuplex
