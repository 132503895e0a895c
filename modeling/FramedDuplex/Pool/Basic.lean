/-!
# A pool of buffers

Buffers that are done with are kept for the next message, up to a number of
buffers and up to a capacity of each. A buffer is known by its serial number,
which no other buffer of the pool ever has.

Asking for a capacity gives the first idle buffer that has it, and the last
idle buffer moves into its place; if there is none, a new buffer of exactly
that capacity.
-/

namespace FramedDuplex

/-- A buffer. -/
structure Buffer where
  serial : Nat
  capacity : Nat
deriving DecidableEq, Repr

/-- The idle buffers and the limits on them. -/
structure Pool where
  idle : List Buffer
  maxBuffers : Nat
  maxCapacity : Nat
  /-- The serial number of the next new buffer. -/
  issued : Nat
deriving Repr

namespace Pool

/-- A pool without buffers. -/
def new (maxBuffers maxCapacity : Nat) : Pool := ⟨[], maxBuffers, maxCapacity, 0⟩

/-- A pool that keeps no buffer. -/
def disabled : Pool := new 0 0

/-- The limits that a pool has unless told otherwise. -/
def standard : Pool := new 64 (64 * 1024)

/-- How many buffers are idle. -/
def available (p : Pool) : Nat := p.idle.length

/-- A list without its entry at a place, which the last entry takes. -/
def swapRemove {α : Type} (place : Nat) (entries : List α) : List α :=
  match entries.getLast? with
  | none => []
  | some last => (entries.set place last).dropLast

/-- Takes a buffer of at least a capacity. -/
def acquire (p : Pool) (capacity : Nat) : Buffer × Pool :=
  match p.idle.findIdx? (capacity ≤ ·.capacity) with
  | some place =>
    match p.idle[place]? with
    | some b => (b, { p with idle := swapRemove place p.idle })
    | none => (⟨p.issued, capacity⟩, { p with issued := p.issued + 1 })
  | none => (⟨p.issued, capacity⟩, { p with issued := p.issued + 1 })

/-- Gives a buffer back; one beyond the limits is dropped. -/
def release (p : Pool) (b : Buffer) : Pool :=
  if b.capacity ≤ p.maxCapacity ∧ p.idle.length < p.maxBuffers then
    { p with idle := p.idle ++ [b] }
  else
    p

/-- Takes one buffer after the other. -/
def acquireAll (p : Pool) : List Nat → List Buffer × Pool
  | [] => ([], p)
  | capacity :: rest =>
    let (b, p) := p.acquire capacity
    let (bs, p) := acquireAll p rest
    (b :: bs, p)

/-- Gives one buffer after the other back. -/
def releaseAll (p : Pool) (bs : List Buffer) : Pool := bs.foldl release p

/-- **A pool stays within its limits.** -/
theorem available_release_le (p : Pool) (b : Buffer) (h : p.available ≤ p.maxBuffers) :
    (p.release b).available ≤ p.maxBuffers := by
  unfold release
  split
  · simp [available]; omega
  · exact h

end Pool

end FramedDuplex
