import FramedDuplex.Codec.Assembly
import FramedDuplex.Exchange.Basic
import FramedDuplex.Link.Config
import FramedDuplex.Link.Counters
import FramedDuplex.Link.Outbox
import FramedDuplex.Link.Pipe
import FramedDuplex.Link.Wire
/-!
# A link and its loops

Three loops serve a link. The writer takes frames from the send queue to the
wire and flushes when it has written a batch. The reader copies the wire into
the staging pipe, and the decoder makes answers of the bytes in the pipe; in
direct mode there is neither reader nor pipe, and the decoder reads the wire.

The first fault of any loop ends the connection for all (`Link.breakOff`): who
waits for an answer is told, and each loop stops before its next frame, reading
or batch. Only a flush is waited for.

A loop is given by what it does next, one small step at a time (`writerStep`,
`readerStep`, `decoderStep`); it waits or has stopped where there is no next
step.
-/

namespace FramedDuplex

variable [OwnTypes]

/-- Where the writer is. -/
inductive Writer
  | idle
  /-- Writes the frames of a batch; of the first one, the bytes left. -/
  | writing (left : Bytes) (parcel : Parcel) (rest : List Parcel)
  | flushing
  | stopped

/-- Where the reader is. -/
inductive Reader
  | reading
  /-- Has bytes to put into the pipe. -/
  | staging (chunk : Bytes)
  | stopped

/-- The way from the wire to the decoder. -/
inductive Intake
  | direct
  | staged (reader : Reader) (pipe : Pipe)

/-- A connection with its loops, its table and its buffers. -/
structure Link where
  codec : Codec
  /-- What answers look like. -/
  schema : Schema
  readBuffer : Nat
  exchange : Exchange Key Message
  lifecycle : Lifecycle
  counters : Counters
  pool : Pool
  outbox : Outbox
  wire : Wire
  writer : Writer
  intake : Intake
  /-- The frame that the decoder is at, unless it has stopped. -/
  decoder : Option Assembly

namespace Link

/-- A link on which nothing has happened. -/
def new (config : LinkConfig) (codec : Codec) (schema : Schema) : Link where
  codec
  schema
  readBuffer := config.readBuffer.toNat
  exchange := .empty
  lifecycle := .start
  counters := {}
  pool := .standard
  outbox := .new (config.sendQueue.map (·.toNat))
  wire := .fresh
  writer := .idle
  intake :=
    match config.pipeMode with
    | .direct => .direct
    | .staged => .staged .reading (.new config.stagingCapacity.toNat)
  decoder := some (.start schema)

/-- Whether the connection has ended. -/
def isBroken (l : Link) : Bool := l.lifecycle.isTriggered

/-- Ends the connection for a reason, unless it has ended, and tells those who
wait for answers. -/
def breakOff (l : Link) (reason : BrokenReason) : Link :=
  if l.isBroken then l
  else
    { l with
      lifecycle := l.lifecycle.trigger reason
      exchange := (l.exchange.fail reason).2 }

/-- **Only the first fault has an effect.** -/
theorem breakOff_of_isBroken {l : Link} (h : l.isBroken = true) (reason : BrokenReason) :
    l.breakOff reason = l := by
  simp [breakOff, h]

@[simp] theorem isBroken_breakOff (l : Link) (reason : BrokenReason) :
    (l.breakOff reason).isBroken = true := by
  unfold breakOff
  split
  · assumption
  · simp [isBroken]

/-! ## The writer -/

/-- How many frames the writer takes at a time. -/
def batchLimit : Nat := 64

/-- Says to the peer that nothing more comes, and drops the frames that wait. -/
def stopWriter (l : Link) : Link :=
  { l with
    writer := .stopped
    outbox := l.outbox.close
    wire := { l.wire with finished := true } }

/-- The writer is at the next frame of a batch, or has written all of them. -/
def startFrame : List Parcel → Writer
  | [] => .flushing
  | p :: rest => .writing p.bytes p rest

/-- Counts a frame that was written and keeps its buffers. -/
def countSent (l : Link) (p : Parcel) : Link :=
  { l with
    counters := l.counters.sent p.bytes.length
    pool := l.pool.releaseAll p.buffers }

/-- What the writer does next. -/
def writerStep (l : Link) : Option Link :=
  match l.writer with
  | .stopped => none
  | .idle =>
    if l.isBroken then
      some l.stopWriter
    else
      match l.outbox.take batchLimit with
      | ([], _) => none
      | (batch, outbox) => some { l with outbox, writer := startFrame batch }
  | .writing left p rest =>
    if l.isBroken then
      some l.stopWriter
    else
      match l.wire.write left with
      | (.waits, _) => none
      | (.failed reason, wire) => some ({ l with wire }.breakOff (.write reason)).stopWriter
      | (.accepted count, wire) =>
        if count < left.length then
          some { l with wire, writer := .writing (left.drop count) p rest }
        else
          some { ({ l with wire }.countSent p) with writer := startFrame rest }
  | .flushing =>
    match l.wire.flush with
    | (.waits, _) => none
    | (.failed reason, wire) => some ({ l with wire }.breakOff (.write reason)).stopWriter
    | (.accepted _, wire) => some { l with wire, writer := .idle }

/-! ## The reader -/

/-- Puts a reader and its pipe in place. -/
def stage (l : Link) (reader : Reader) (pipe : Pipe) : Link :=
  { l with intake := .staged reader pipe }

/-- The reader leaves its pipe. -/
def stopReader (l : Link) (pipe : Pipe) : Link :=
  l.stage .stopped { pipe with sourceLeft := true }

/-- What the reader does next. -/
def readerStep (l : Link) : Option Link :=
  match l.intake with
  | .direct => none
  | .staged .stopped _ => none
  | .staged .reading pipe =>
    if l.isBroken then
      some (l.stopReader pipe)
    else if pipe.allowance = 0 then
      none
    else
      match l.wire.read l.readBuffer with
      | (.waits, _) => none
      | (.failed reason, wire) => some (({ l with wire }.breakOff (.io reason)).stopReader pipe)
      | (.ended, wire) => some ({ l with wire }.stopReader pipe)
      | (.bytes bs, wire) =>
        some ({ l with wire, counters := l.counters.read bs.length }.stage (.staging bs) pipe)
  | .staged (.staging chunk) pipe =>
    if l.isBroken || pipe.sinkLeft then
      some (l.stopReader pipe)
    else
      match pipe.stage chunk with
      | none => none
      | some ([], pipe) => some (l.stage .reading pipe)
      | some (rest, pipe) => some (l.stage (.staging rest) pipe)

/-! ## The decoder -/

/-- The decoder leaves its pipe. -/
def stopDecoder (l : Link) : Link :=
  match l.intake with
  | .direct => { l with decoder := none }
  | .staged reader pipe =>
    { l.stage reader { pipe with sinkLeft := true } with decoder := none }

/-- Why a frame that cannot be read ends the connection. -/
def breakReason : CodecError → BrokenReason
  | .closed => .closedByPeer
  | .io reason => .io reason
  | .crashed => .decode "decoder loop panicked"
  | fault => .decode fault.message

/-- Hands an answer to those who wait for it. -/
def deliver (l : Link) (d : Decoded) : Link :=
  { l with
    counters := l.counters.decoded
    exchange := l.exchange.deliver d.key d.message
    decoder := some (.start l.schema) }

/-- The decoder meets the end of its source or bytes of it. -/
def assemble (l : Link) (a : Assembly) (bs : Bytes) : Link :=
  if bs.isEmpty then
    (l.breakOff (breakReason a.ended)).stopDecoder
  else
    match l.codec.accept l.schema a bs with
    | .more a => { l with decoder := some a }
    | .done (.ok d) => l.deliver d
    | .done (.error fault) => (l.breakOff (breakReason fault)).stopDecoder

/-- What the decoder does next. -/
def decoderStep (l : Link) : Option Link :=
  match l.decoder with
  | none => none
  | some a =>
    if l.isBroken then
      some l.stopDecoder
    else
      match l.intake with
      | .direct =>
        match l.wire.read a.missing with
        | (.waits, _) => none
        | (.failed reason, wire) => some ({ l with wire }.breakOff (.io reason)).stopDecoder
        | (.ended, wire) => some ({ l with wire }.assemble a [])
        | (.bytes bs, wire) =>
          some ({ l with wire, counters := l.counters.read bs.length }.assemble a bs)
      | .staged reader pipe =>
        match pipe.unstage a.missing with
        | none => none
        | some (bs, pipe) => some ((l.stage reader pipe).assemble a bs)

end Link

end FramedDuplex
