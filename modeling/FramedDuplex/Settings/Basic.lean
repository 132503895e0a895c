import FramedDuplex.Link.Config
import FramedDuplex.Settings.Error
/-!
# Settings

What a user sets, as it stands in a file. Settings are taken as they are;
`Settings.linkConfig` brings sizes within their bounds, and `Settings.fault?`
says which value no connection can be made with.
-/

namespace FramedDuplex

/-- What a user sets. Times are in milliseconds. -/
structure Settings where
  addr : String
  connectTimeout : UInt64
  receiveTimeout : Option UInt64
  readBuffer : UInt64
  stagingCapacity : UInt64
  sendQueue : Option UInt64
  maxBody : UInt64
  shutdownTimeout : UInt64
  pipeMode : PipeMode
deriving DecidableEq, Repr

namespace Settings

/-- What is set unless told otherwise. -/
def standard : Settings :=
  let c := LinkConfig.new LinkConfig.defaultAddr
  { addr := c.addr
    connectTimeout := c.connectTimeout
    receiveTimeout := c.receiveTimeout
    readBuffer := c.readBuffer
    stagingCapacity := c.stagingCapacity
    sendQueue := c.sendQueue
    maxBody := c.maxBody
    shutdownTimeout := c.shutdownTimeout
    pipeMode := c.pipeMode }

/-- The first value that no connection can be made with. -/
def fault? (s : Settings) : Option ConfigError :=
  if s.addr.isEmpty then some (.invalid "addr must not be empty")
  else if s.connectTimeout = 0 then
    some (.invalid "connect_timeout_ms must be greater than zero")
  else if s.maxBody = 0 then some (.invalid "max_body_size must be greater than zero")
  else none

/-- The link that is set up with settings. -/
def linkConfig (s : Settings) : LinkConfig :=
  let c := (LinkConfig.new s.addr)
    |>.withConnectTimeout s.connectTimeout
    |>.withReadBuffer s.readBuffer
    |>.withStagingCapacity s.stagingCapacity
    |>.withMaxBody s.maxBody
    |>.withShutdownTimeout s.shutdownTimeout
    |>.withPipeMode s.pipeMode
  let c := (s.receiveTimeout.map c.withReceiveTimeout).getD c
  (s.sendQueue.map c.withSendQueue).getD c

end Settings

end FramedDuplex
