/-!
# How a link is set up

The peer's address, the sizes and limits of a link, and the times that it waits.
Times are in milliseconds. The sizes of buffers and of the send queue stay
within bounds, whatever is asked for.
-/

namespace FramedDuplex

/-- How bytes come from the wire to the decoder. -/
inductive PipeMode
  /-- A reader copies them into a pipe, from which the decoder reads. -/
  | staged
  /-- The decoder reads the wire itself. -/
  | direct
deriving DecidableEq, Repr

/-- How a link is set up. -/
structure LinkConfig where
  /-- The peer's host, a colon and the number of its service. -/
  addr : String
  connectTimeout : UInt64
  /-- How long a call waits for its answer, if not forever. -/
  receiveTimeout : Option UInt64
  readBuffer : UInt64
  stagingCapacity : UInt64
  /-- How many frames wait to be written, if there is a limit. -/
  sendQueue : Option UInt64
  /-- The most bytes that may follow a header. -/
  maxBody : UInt64
  /-- How long closing waits for the loops. -/
  shutdownTimeout : UInt64
  pipeMode : PipeMode
deriving DecidableEq, Repr

namespace LinkConfig

/-- The value between two bounds that is nearest to a value. -/
def clamp (low high n : UInt64) : UInt64 :=
  if n < low then low else if high < n then high else n

theorem le_clamp {low high : UInt64} (n : UInt64) (h : low ≤ high) : low ≤ clamp low high n := by
  simp only [clamp, UInt64.le_iff_toNat_le, UInt64.lt_iff_toNat_lt] at *
  split <;> (try split) <;> omega

theorem clamp_le {low high : UInt64} (n : UInt64) (h : low ≤ high) : clamp low high n ≤ high := by
  simp only [clamp, UInt64.le_iff_toNat_le, UInt64.lt_iff_toNat_lt] at *
  split <;> (try split) <;> omega

/-- **A value within the bounds stays.** -/
theorem clamp_of_mem {low high n : UInt64} (hl : low ≤ n) (hh : n ≤ high) :
    clamp low high n = n := by
  simp only [UInt64.le_iff_toNat_le] at hl hh
  simp only [clamp, UInt64.lt_iff_toNat_lt]
  rw [if_neg (by omega), if_neg (by omega)]

/-- The peer's address unless told otherwise. -/
def defaultAddr : String := "127.0.0.1:7500"

/-- What is set up unless told otherwise. -/
def new (addr : String) : LinkConfig where
  addr
  connectTimeout := 10000
  receiveTimeout := none
  readBuffer := 8192
  stagingCapacity := 65536
  sendQueue := none
  maxBody := 16777216
  shutdownTimeout := 5000
  pipeMode := .staged

def withConnectTimeout (c : LinkConfig) (ms : UInt64) : LinkConfig :=
  { c with connectTimeout := ms }

def withReceiveTimeout (c : LinkConfig) (ms : UInt64) : LinkConfig :=
  { c with receiveTimeout := some ms }

/-- A read buffer has at least 1 KiB and at most 1 MiB. -/
def withReadBuffer (c : LinkConfig) (size : UInt64) : LinkConfig :=
  { c with readBuffer := clamp 1024 1048576 size }

/-- A staging pipe has at least 1 KiB and at most 16 MiB. -/
def withStagingCapacity (c : LinkConfig) (size : UInt64) : LinkConfig :=
  { c with stagingCapacity := clamp 1024 16777216 size }

/-- A limited send queue has room for at least one frame. -/
def withSendQueue (c : LinkConfig) (capacity : UInt64) : LinkConfig :=
  { c with sendQueue := some (if capacity = 0 then 1 else capacity) }

def withMaxBody (c : LinkConfig) (size : UInt64) : LinkConfig :=
  { c with maxBody := size }

def withShutdownTimeout (c : LinkConfig) (ms : UInt64) : LinkConfig :=
  { c with shutdownTimeout := ms }

def withPipeMode (c : LinkConfig) (mode : PipeMode) : LinkConfig :=
  { c with pipeMode := mode }

end LinkConfig

end FramedDuplex
