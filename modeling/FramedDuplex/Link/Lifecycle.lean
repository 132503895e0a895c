/-!
# The end of a connection

A connection ends once, for the reason that was given first. Whoever waits for
its end is told when it has come, whether the waiting began before or after.
-/

namespace FramedDuplex

/-- Why a connection ended. -/
inductive BrokenReason
  /-- The peer closed the stream between two frames. -/
  | closedByPeer
  | io (detail : String)
  /-- A frame could not be read, or the stream ended inside one. -/
  | decode (detail : String)
  | write (detail : String)
  /-- The client was closed or dropped. -/
  | disposed
deriving DecidableEq, Repr

namespace BrokenReason

/-- A reason in words. -/
def message : BrokenReason → String
  | closedByPeer => "closed by peer"
  | io detail => s!"I/O error: {detail}"
  | decode detail => s!"decode error: {detail}"
  | write detail => s!"write error: {detail}"
  | disposed => "client disposed"

/-- Whether the transport failed, and not a caller or a message. -/
def isTransportFault : BrokenReason → Bool
  | closedByPeer | io _ | write _ => true
  | decode _ | disposed => false

end BrokenReason

/-- Whether a connection has ended, and why. -/
structure Lifecycle where
  reason : Option BrokenReason
deriving DecidableEq, Repr

namespace Lifecycle

/-- A connection that has not ended. -/
def start : Lifecycle := ⟨none⟩

/-- Whether the connection has ended; a signal is ready exactly then. -/
def isTriggered (l : Lifecycle) : Bool := l.reason.isSome

/-- Ends the connection for a reason, unless it has ended. -/
def trigger (l : Lifecycle) (reason : BrokenReason) : Lifecycle :=
  ⟨l.reason.or (some reason)⟩

/-- **The first reason stays.** -/
theorem trigger_trigger (l : Lifecycle) (first later : BrokenReason) :
    (l.trigger first).trigger later = l.trigger first := by
  cases l with | mk reason => cases reason <;> rfl

/-- **Triggering ends the connection.** -/
@[simp] theorem isTriggered_trigger (l : Lifecycle) (reason : BrokenReason) :
    (l.trigger reason).isTriggered = true := by
  cases l with | mk r => cases r <;> rfl

end Lifecycle

end FramedDuplex
