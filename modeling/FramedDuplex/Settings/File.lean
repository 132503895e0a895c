import FramedDuplex.Settings.Basic
import FramedDuplex.Text.Utf8
import FramedDuplex.Yaml.Document
import FramedDuplex.Yaml.Meaning
import FramedDuplex.Yaml.Style
/-!
# Settings files

A settings file is a mapping from names to values. A name that is not there
leaves its value as it is unless told otherwise, and names that mean nothing do
not count; a name may stand there once. An address is any scalar; a number is a
scalar without quotes.

The files are given by what reads and writes them: a function that says for a
path what is there, or why it cannot be read.
-/

namespace FramedDuplex

namespace PipeMode

/-- The name of a mode. -/
def name : PipeMode → String
  | staged => "staged"
  | direct => "direct"

/-- The mode of a name. -/
def ofName? (name : String) : Option PipeMode :=
  if name = "staged" then some staged else if name = "direct" then some direct else none

end PipeMode

namespace Yaml

namespace Node

/-- The tag of a whole number. -/
def intTag : Bytes := asciiBytes "tag:yaml.org,2002:int".toList

/-- The tag of nothing. -/
def nullTag : Bytes := asciiBytes "tag:yaml.org,2002:null".toList

/-- The number of a scalar that is written plain. A block of which the lines are
kept is a number if its tag says so. -/
def number? : Node → Option UInt64
  | scalar _ .plain text => word64? text
  | scalar tag .literal text => if tag = some intTag then word64? text else none
  | _ => none

/-- The number of a scalar, or no number where a plain scalar is taken for nothing.
With a tag it is taken for nothing only if the tag says so. -/
def numberOrNull? : Node → Option (Option UInt64)
  | scalar tag .plain text =>
    match tag with
    | none => if isNull text then some none else (word64? text).map some
    | some tag =>
      if tag = nullTag then (if isNullWord text then some none else none)
      else (word64? text).map some
  | n => n.number?.map some

/-- The name that a tag of one's own consists of, behind its exclamation mark. -/
def ownTag? (tag : Option Bytes) : Option String :=
  match tag with
  | some (c :: name) => if c = 0x21 then (Utf8.decode name).toOption else none
  | _ => none

/-- The mode that a scalar names, or that a tag names on nothing else. -/
def pipeMode? : Node → Option PipeMode
  | scalar tag form text =>
    match ownTag? tag with
    | some name =>
      if form = .plain ∧ isNull text then PipeMode.ofName? name else none
    | none => PipeMode.ofName? text
  | _ => none

end Node

/-- The value under a name, if it can be read and the name stands there once, and
otherwise a value given for it. -/
def valueAt {α : Type} (entries : List (String × Node)) (name : String) (read : Node → Option α)
    (otherwise : α) : Option α :=
  match entries.filter (·.1 = name) with
  | [] => some otherwise
  | [(_, value)] => read value
  | _ => none

end Yaml

namespace Settings

open Yaml

/-- The settings in a file with a text. -/
def ofText? (text : String) : Option Settings := do
  let entries ← (← Yaml.read text).entries?
  let number (name : String) (field : Settings → UInt64) :=
    valueAt entries name Node.number? (field standard)
  let optional (name : String) (field : Settings → Option UInt64) :=
    valueAt entries name Node.numberOrNull? (field standard)
  return {
    addr := ← valueAt entries "addr" Node.text? standard.addr
    connectTimeout := ← number "connect_timeout_ms" (·.connectTimeout)
    receiveTimeout := ← optional "receive_timeout_ms" (·.receiveTimeout)
    readBuffer := ← number "read_buffer_size" (·.readBuffer)
    stagingCapacity := ← number "staging_capacity" (·.stagingCapacity)
    sendQueue := ← optional "send_queue_capacity" (·.sendQueue)
    maxBody := ← number "max_body_size" (·.maxBody)
    shutdownTimeout := ← number "shutdown_timeout_ms" (·.shutdownTimeout)
    pipeMode := ← valueAt entries "pipe_mode" Node.pipeMode? standard.pipeMode }

/-- A name and a value that is written plain, in a line of their own. -/
def line (name value : String) : String := name ++ ": " ++ value ++ "\n"

/-- A number, or no number. -/
def numberOrNull (n : Option UInt64) : String :=
  (n.map fun n => toString n.toNat).getD "null"

/-- The text of the file with settings. -/
def text (s : Settings) : String :=
  "addr: " ++ Yaml.scalarLine s.addr ++
  line "connect_timeout_ms" (toString s.connectTimeout.toNat) ++
  line "receive_timeout_ms" (numberOrNull s.receiveTimeout) ++
  line "read_buffer_size" (toString s.readBuffer.toNat) ++
  line "staging_capacity" (toString s.stagingCapacity.toNat) ++
  line "send_queue_capacity" (numberOrNull s.sendQueue) ++
  line "max_body_size" (toString s.maxBody.toNat) ++
  line "shutdown_timeout_ms" (toString s.shutdownTimeout.toNat) ++
  line "pipe_mode" s.pipeMode.name

/-- The settings in the file at a path. -/
def ofFile (read : String → Except String String) (path : String) : Except ConfigError Settings :=
  match read path with
  | .error reason => .error (.io path reason)
  | .ok text =>
    match ofText? text with
    | none => .error (.parse path "not a settings file")
    | some s => .ok s

/-- Writes settings to the file at a path. -/
def save {α : Type} (s : Settings) (write : String → String → Except String α) (path : String) :
    Except ConfigError α :=
  match write path s.text with
  | .error reason => .error (.io path reason)
  | .ok done => .ok done

end Settings

end FramedDuplex
