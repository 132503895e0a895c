import FramedDuplex.Pool.Basic
import FramedDuplex.Bytes.LittleEndian
/-!
# The send queue

Frames wait here for the writer, first come first. A queue may have room for a
number of frames only; then a sender that finds no room waits for it, and room
that comes free goes to the sender that has waited longest. A sender may give up
waiting, and hands on room that it was given. Once the queue is closed nothing
comes in.
-/

namespace FramedDuplex

/-- A frame on its way to the wire, and its buffers, innermost first. -/
structure Parcel where
  bytes : Bytes
  buffers : List Buffer

/-- Frames that wait for the writer, and senders that wait for room. -/
structure Outbox where
  queue : List Parcel
  /-- For how many frames there is room that nobody was given, if there is a limit. -/
  room : Option Nat
  /-- The numbers of the senders that wait, the first in front, and whether each
  was given room. -/
  waiting : List (Nat × Bool)
  closed : Bool

namespace Outbox

/-- An empty queue with room for so many frames, or without a limit. -/
def new (capacity : Option Nat) : Outbox := ⟨[], capacity, [], false⟩

/-- Gives room for one frame to the first sender without, or else to nobody. -/
def free (o : Outbox) : Outbox :=
  match o.waiting.findIdx? (!·.2) with
  | some place => { o with waiting := o.waiting.modify place fun (sender, _) => (sender, true) }
  | none => { o with room := o.room.map (· + 1) }

/-- Takes no more than a number of frames out. -/
def take (o : Outbox) (limit : Nat) : List Parcel × Outbox :=
  let taken := o.queue.take limit
  (taken, taken.foldl (fun o _ => o.free) { o with queue := o.queue.drop limit })

/-- What becomes of a frame that a sender brings. -/
inductive Entry
  | queued
  | waits
  /-- The queue is closed. -/
  | refused
deriving DecidableEq

/-- A sender brings a frame, and waits if there is no room. -/
def offer (o : Outbox) (sender : Nat) (p : Parcel) : Entry × Outbox :=
  if o.closed then
    (.refused, o)
  else
    match o.room with
    | none => (.queued, { o with queue := o.queue ++ [p] })
    | some 0 => (.waits, { o with waiting := o.waiting ++ [(sender, false)] })
    | some (n + 1) => (.queued, { o with queue := o.queue ++ [p], room := some n })

/-- Whether a sender that waits was given room. -/
def hasRoom (o : Outbox) (sender : Nat) : Bool := o.waiting.contains (sender, true)

/-- A sender waits no more. -/
def forget (o : Outbox) (sender : Nat) : Outbox :=
  { o with waiting := o.waiting.filter (·.1 ≠ sender) }

/-- A sender that waits tries again. -/
def retry (o : Outbox) (sender : Nat) (p : Parcel) : Entry × Outbox :=
  if o.closed then
    (.refused, o.forget sender)
  else if o.hasRoom sender then
    let o := o.forget sender
    (.queued, { o with queue := o.queue ++ [p] })
  else
    (.waits, o)

/-- A sender gives up waiting, and hands on the room that it was given. -/
def abandon (o : Outbox) (sender : Nat) : Outbox :=
  if o.hasRoom sender then (o.forget sender).free else o.forget sender

/-- Lets nothing come in any more, and drops what is there. -/
def close (o : Outbox) : Outbox := { o with queue := [], closed := true }

end Outbox

end FramedDuplex
