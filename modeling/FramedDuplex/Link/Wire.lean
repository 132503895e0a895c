import FramedDuplex.Bytes.LittleEndian
/-!
# The wire

The byte stream between a client and its peer, seen from the client: what the
peer has sent and nobody has read, what the peer has accepted, and what goes
wrong with the next use.

A fault of reading comes before the bytes that are there and comes once; a fault
of writing or flushing stays. The peer may accept a number of bytes only, and
writing more waits unless writing fails. Flushing waits while it is stalled,
even if it is going to fail.
-/

namespace FramedDuplex

/-- The stream between a client and its peer. -/
structure Wire where
  /-- Bytes of the peer that nobody has read. -/
  inbound : Bytes
  /-- Whether the peer sends nothing more. -/
  ended : Bool
  /-- Why the next reading fails. -/
  readFault : Option String
  /-- All bytes that the peer has accepted. -/
  written : Bytes
  /-- How many more bytes the peer accepts, if there is a limit. -/
  window : Option Nat
  /-- Why writing fails. -/
  writeFault : Option String
  /-- Why flushing fails. -/
  flushFault : Option String
  /-- Whether flushing waits. -/
  stalled : Bool
  /-- How often flushing succeeded. -/
  flushes : Nat
  /-- Whether the client said that it writes nothing more. -/
  finished : Bool

namespace Wire

/-- A stream on which nothing has happened. -/
def fresh : Wire := ⟨[], false, none, [], none, none, none, false, 0, false⟩

/-- What one reading of a stream gives. -/
inductive Reading
  | waits
  | failed (reason : String)
  | ended
  | bytes (bs : Bytes)

/-- Reads no more than a number of bytes. -/
def read (w : Wire) (limit : Nat) : Reading × Wire :=
  match w.readFault with
  | some reason => (.failed reason, { w with readFault := none })
  | none =>
    if !w.inbound.isEmpty then
      (.bytes (w.inbound.take limit), { w with inbound := w.inbound.drop limit })
    else if w.ended then (.ended, w)
    else (.waits, w)

/-- What one writing to a stream does. -/
inductive Writing
  | waits
  | failed (reason : String)
  /-- So many of the bytes were accepted. -/
  | accepted (count : Nat)

/-- How many of so many bytes the peer accepts now. -/
def admits (w : Wire) (count : Nat) : Nat := (w.window.map (min count)).getD count

/-- Writes as many of some bytes as the peer accepts. -/
def write (w : Wire) (bs : Bytes) : Writing × Wire :=
  match w.writeFault with
  | some reason => (.failed reason, w)
  | none =>
    if w.window = some 0 then
      (.waits, w)
    else
      let count := w.admits bs.length
      (.accepted count,
        { w with
          written := w.written ++ bs.take count
          window := w.window.map (· - count) })

/-- **What is accepted comes behind what was written.** -/
theorem written_of_write_eq_accepted {w w' : Wire} {bs : Bytes} {count : Nat}
    (h : w.write bs = (.accepted count, w')) : w'.written = w.written ++ bs.take count := by
  unfold write at h
  split at h
  · simp at h
  · split at h
    · simp at h
    · cases h; rfl

/-- Flushes what was written. -/
def flush (w : Wire) : Writing × Wire :=
  if w.stalled then
    (.waits, w)
  else
    match w.flushFault with
    | some reason => (.failed reason, w)
    | none => (.accepted 0, { w with flushes := w.flushes + 1 })

/-- What the peer and the network do to a stream. -/
inductive Event
  | feed (bs : Bytes)
  | close
  | failRead (reason : String)
  | failWrite (reason : String)
  | failFlush (reason : String)
  | window (count : Option Nat)
  | stall (on : Bool)

/-- Lets something happen to a stream. -/
def meet (w : Wire) : Event → Wire
  | .feed bs => { w with inbound := w.inbound ++ bs }
  | .close => { w with ended := true }
  | .failRead reason => { w with readFault := some reason }
  | .failWrite reason => { w with writeFault := some reason }
  | .failFlush reason => { w with flushFault := some reason }
  | .window count => { w with window := count }
  | .stall on => { w with stalled := on }

end Wire

end FramedDuplex
