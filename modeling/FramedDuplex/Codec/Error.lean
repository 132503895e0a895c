import FramedDuplex.Schema.Error
/-!
# What can go wrong with one message

The causes for which a message cannot be written or a frame cannot be read.
A fault of the byte source (`CodecError.isStreamFault`) is told apart from a
fault of what the bytes say.
-/

namespace FramedDuplex

/-- Why a message was not written or a frame was not read. -/
inductive CodecError
  | schema (cause : SchemaError)
  | fieldOverflow (field : String) (declared actual : Nat)
  | fieldTooShort (field : String) (available required : Nat)
  | lengthOutOfRange (length : Nat)
  | bodyTooLarge (size limit : Nat)
  | frameLength (expected actual : Nat)
  | convert (type reason : String)
  | typeMismatch (type : String)
  | invalidValue (type reason : String)
  | notDecodable (field : String)
  | truncated (expected received : Nat)
  | closed
  | io (reason : String)
  /-- A converter gave up without an answer; whoever runs the codec stops with it. -/
  | crashed
deriving DecidableEq, Repr

namespace CodecError

/-- An error in words. -/
def message : CodecError → String
  | schema cause => cause.message
  | fieldOverflow field declared actual =>
    s!"field '{field}' encodes to {actual} bytes but is declared as {declared}"
  | fieldTooShort field available required =>
    s!"field '{field}' is {available} bytes, {required} needed to decode it"
  | lengthOutOfRange length => s!"body length {length} cannot be represented by the length field"
  | bodyTooLarge size limit => s!"body too large: {size} bytes (max {limit})"
  | frameLength expected actual => s!"frame is {actual} bytes, schema requires {expected}"
  | convert type reason => s!"converter for {type} failed: {reason}"
  | typeMismatch type => s!"converter for {type} produced a value of a different type"
  | invalidValue type reason => s!"invalid value for {type}: {reason}"
  | notDecodable field => s!"field '{field}' is read-only and cannot be decoded"
  | truncated expected received =>
    s!"stream ended mid-frame: got {received} of {expected} bytes"
  | closed => "stream closed"
  | io reason => s!"I/O error: {reason}"
  | crashed => "converter crashed"

/-- Whether the byte source failed, and not what the bytes say. -/
def isStreamFault : CodecError → Bool
  | truncated .. | closed | io _ => true
  | _ => false

end CodecError

end FramedDuplex
