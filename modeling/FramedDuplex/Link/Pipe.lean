import FramedDuplex.Bytes.LittleEndian
/-!
# The staging pipe

Bytes on the way from the reader to the decoder. A pipe holds no more than its
capacity. Either end may leave: when the source has left, the sink reads what is
there and then the end; when the sink has left, writing fails.

Each turn of a loop allows a number of uses of the pipe; then the loop waits for
its next turn (`Pipe.refresh`).
-/

namespace FramedDuplex

/-- Bytes on the way from the reader to the decoder. -/
structure Pipe where
  capacity : Nat
  staged : Bytes
  sourceLeft : Bool
  sinkLeft : Bool
  /-- How often the pipe may still be used in this turn. -/
  allowance : Nat

namespace Pipe

/-- How often a loop may use the pipe in one turn. -/
def turnAllowance : Nat := 128

/-- An empty pipe. -/
def new (capacity : Nat) : Pipe := ⟨capacity, [], false, false, turnAllowance⟩

/-- Begins a turn. -/
def refresh (p : Pipe) : Pipe := { p with allowance := turnAllowance }

/-- How many more bytes fit. -/
def room (p : Pipe) : Nat := p.capacity - p.staged.length

/-- Stages as many of some bytes as fit, and gives the others back; nothing if
the loop has to wait. -/
def stage (p : Pipe) (bs : Bytes) : Option (Bytes × Pipe) :=
  if p.allowance = 0 ∨ p.room = 0 then
    none
  else
    some (bs.drop p.room,
      { p with staged := p.staged ++ bs.take p.room, allowance := p.allowance - 1 })

/-- **A pipe holds no more than its capacity.** -/
theorem length_staged_of_stage {p p' : Pipe} {bs rest : Bytes} (h : p.stage bs = some (rest, p'))
    (full : p.staged.length ≤ p.capacity) : p'.staged.length ≤ p'.capacity := by
  unfold stage at h
  split at h
  · cases h
  · cases h
    simp [room]
    omega

/-- **Staging loses no byte**: what is staged and what was given back are what
was there and what came. -/
theorem staged_append_of_stage {p p' : Pipe} {bs rest : Bytes} (h : p.stage bs = some (rest, p')) :
    p'.staged ++ rest = p.staged ++ bs := by
  unfold stage at h
  split at h
  · cases h
  · cases h
    simp

/-- Takes no more than a number of bytes out; none of them means that the source
has left, and no answer that the loop has to wait. -/
def unstage (p : Pipe) (limit : Nat) : Option (Bytes × Pipe) :=
  if p.allowance = 0 then
    none
  else if p.staged.isEmpty then
    if p.sourceLeft then some ([], p) else none
  else
    some (p.staged.take limit,
      { p with staged := p.staged.drop limit, allowance := p.allowance - 1 })

/-- **The sink reads in the order of staging.** -/
theorem append_staged_of_unstage {p p' : Pipe} {limit : Nat} {out : Bytes}
    (h : p.unstage limit = some (out, p')) : out ++ p'.staged = p.staged := by
  unfold unstage at h
  split at h
  · cases h
  · split at h
    · split at h
      · cases h
        rfl
      · cases h
    · cases h
      simp

end Pipe

end FramedDuplex
