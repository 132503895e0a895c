import FramedDuplex.Codec.Error
import FramedDuplex.Link.Lifecycle
import FramedDuplex.Settings.Error
/-!
# What a client's caller is told

The causes for which a client does not do what it was asked to, and whether
asking again on a new connection may help (`ClientError.isRetryable`).
-/

namespace FramedDuplex

/-- Why a client did not do what it was asked to. -/
inductive ClientError
  | io (reason : String)
  | codec (cause : CodecError)
  | connectionBroken (reason : BrokenReason)
  | cancelled
  | timeout
  | invalidKey (reason : String)
  | config (cause : ConfigError)
deriving DecidableEq, Repr

namespace ClientError

/-- An error in words. -/
def message : ClientError → String
  | io reason => s!"I/O error: {reason}"
  | codec cause => s!"codec error: {cause.message}"
  | connectionBroken reason => s!"connection broken: {reason.message}"
  | cancelled => "operation cancelled"
  | timeout => "operation timed out"
  | invalidKey reason => s!"invalid correlation key: {reason}"
  | config cause => s!"configuration error: {cause.message}"

/-- Whether the same request may succeed on a new connection. -/
def isRetryable : ClientError → Bool
  | io _ | timeout => true
  | connectionBroken reason => reason.isTransportFault
  | codec _ | cancelled | invalidKey _ | config _ => false

end ClientError

end FramedDuplex
