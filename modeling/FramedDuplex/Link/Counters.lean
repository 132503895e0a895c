/-!
# Counters of a connection

How many bytes and frames have passed a connection. Each counter is a word of
64 bits and begins again at zero behind its greatest value.
-/

namespace FramedDuplex

/-- What has passed a connection. -/
structure Counters where
  bytesRead : UInt64 := 0
  bytesWritten : UInt64 := 0
  framesDecoded : UInt64 := 0
  framesSent : UInt64 := 0
deriving DecidableEq, Repr

namespace Counters

/-- Counts bytes that were read. -/
def read (c : Counters) (bytes : Nat) : Counters :=
  { c with bytesRead := c.bytesRead + UInt64.ofNat bytes }

/-- Counts a frame of so many bytes that was written. -/
def sent (c : Counters) (bytes : Nat) : Counters :=
  { c with
    bytesWritten := c.bytesWritten + UInt64.ofNat bytes
    framesSent := c.framesSent + 1 }

/-- Counts a frame that was decoded. -/
def decoded (c : Counters) : Counters :=
  { c with framesDecoded := c.framesDecoded + 1 }

end Counters

end FramedDuplex
