import FramedDuplex.Pool.Basic
import FramedDuplex.Codec.Serialize
import FramedDuplex.Handles
/-!
# Who holds which buffer

Callers take buffers and frames out of a pool and hold them by a handle until
they give them back or keep the bytes for good. A handle may name a buffer and a
frame at once. `Ledger.step` is one such move; a move by a handle that holds
nothing of the kind changes nothing.
-/

namespace FramedDuplex

variable [OwnTypes]

/-- A buffer in a caller's hands, and how many bytes are in it. -/
structure HeldBuffer where
  buffer : Buffer
  used : Nat

/-- A frame in a caller's hands, and its buffers, innermost first. -/
structure HeldFrame where
  frame : Frame
  buffers : List Buffer

/-- A pool and what is held out of it. -/
structure Ledger where
  pool : Pool
  buffers : Handles HeldBuffer
  frames : Handles HeldFrame

/-- A move of a caller. -/
inductive Ledger.Move
  | acquire (handle capacity : Nat)
  /-- Adds bytes to a buffer, as many as it has room for. -/
  | write (handle count : Nat)
  | release (handle : Nat)
  | serialize (handle : Nat) (schema : Schema) (message : Message)
  | releaseFrame (handle : Nat)
  /-- Keeps the bytes of a frame and drops its buffers. -/
  | intoBytes (handle : Nat)

/-- What a move answers. -/
inductive Ledger.Answer
  | nothing
  | buffer (used capacity : Nat)
  | frame (bytes : Bytes)
  | fault (cause : CodecError)

namespace Ledger

/-- Nothing is held. -/
def new (pool : Pool) : Ledger := ⟨pool, .empty, .empty⟩

/-- One move, and its answer. Messages are written by the codec `c`. -/
def step (c : Codec) (l : Ledger) : Move → Answer × Ledger
  | .acquire handle capacity =>
    let (b, pool) := l.pool.acquire capacity
    (.buffer 0 b.capacity, { l with pool, buffers := l.buffers.insert handle ⟨b, 0⟩ })
  | .write handle count =>
    match l.buffers.find? handle with
    | none => (.nothing, l)
    | some ⟨b, used⟩ =>
      let used := min b.capacity (used + count)
      (.buffer used b.capacity, { l with buffers := l.buffers.insert handle ⟨b, used⟩ })
  | .release handle =>
    match l.buffers.find? handle with
    | none => (.nothing, l)
    | some held =>
      (.nothing,
        { l with pool := l.pool.release held.buffer, buffers := l.buffers.erase handle })
  | .serialize handle s m =>
    let written := c.serialize s m
    let (buffers, pool) := l.pool.acquireAll written.acquired
    match written.outcome with
    | .error cause => (.fault cause, { l with pool })
    | .ok frame =>
      (.frame frame.bytes, { l with pool, frames := l.frames.insert handle ⟨frame, buffers⟩ })
  | .releaseFrame handle =>
    match l.frames.find? handle with
    | none => (.nothing, l)
    | some held =>
      (.nothing,
        { l with pool := l.pool.releaseAll held.buffers, frames := l.frames.erase handle })
  | .intoBytes handle =>
    match l.frames.find? handle with
    | none => (.nothing, l)
    | some held => (.frame held.frame.bytes, { l with frames := l.frames.erase handle })

/-- Moves one after the other. -/
def run (c : Codec) (l : Ledger) : List Move → List Answer × Ledger
  | [] => ([], l)
  | move :: rest =>
    let (answer, l) := l.step c move
    let (answers, l) := run c l rest
    (answer :: answers, l)

end Ledger

end FramedDuplex
