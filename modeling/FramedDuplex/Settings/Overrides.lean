import FramedDuplex.Settings.File
import FramedDuplex.Text.Digits
/-!
# Settings from variables

Variables override what a file says, one after the other: the address, the times
of connecting and receiving, the size of the read buffer, the pipe mode. A
variable that makes no sense ends that, and those before it have taken effect.
-/

namespace FramedDuplex

/-- Whether a character is a blank in any script. -/
def isWhite (c : Char) : Bool :=
  ('\t' ≤ c && c ≤ '\r') || c = ' ' || c = '\u0085' || c = '\u00a0' || c = '\u1680' ||
    ('\u2000' ≤ c && c ≤ '\u200a') || c = '\u2028' || c = '\u2029' || c = '\u202f' ||
    c = '\u205f' || c = '\u3000'

/-- A text without the blanks at its ends. -/
def trimmed (text : String) : List Char :=
  ((text.toList.dropWhile isWhite).reverse.dropWhile isWhite).reverse

/-- Reads a mode in letters of either case. -/
def PipeMode.read (text : String) : Except ConfigError PipeMode :=
  let lower := String.ofList (text.toList.map (·.toLower))
  match PipeMode.ofName? lower with
  | some mode => .ok mode
  | none => .error (.invalid s!"unknown pipe mode '{lower}'")

namespace Settings

/-- Reads a number, with blanks around it or without. -/
def readNumber (name value : String) : Except ConfigError UInt64 :=
  match Digits.below? UInt64.size (trimmed value) with
  | some n => .ok (UInt64.ofNat n)
  | none => .error (.invalid s!"{name} has invalid value '{value}'")

/-- A variable and what its value changes. -/
structure Override where
  name : String
  change : Settings → String → Except ConfigError Settings

/-- A variable that holds a number. -/
def numberOverride (name : String) (set : Settings → UInt64 → Settings) : Override :=
  ⟨name, fun s value => (readNumber name value).map (set s)⟩

/-- The variables, in the order in which they take effect. -/
def overrides : List Override :=
  [⟨"WIRELINK_ADDR", fun s value => .ok { s with addr := value }⟩,
    numberOverride "WIRELINK_CONNECT_TIMEOUT_MS" fun s n => { s with connectTimeout := n },
    numberOverride "WIRELINK_RECEIVE_TIMEOUT_MS" fun s n => { s with receiveTimeout := some n },
    numberOverride "WIRELINK_READ_BUFFER_SIZE" fun s n => { s with readBuffer := n },
    ⟨"WIRELINK_PIPE_MODE", fun s value =>
      (PipeMode.read value).map fun mode => { s with pipeMode := mode }⟩]

/-- Lets variables take effect one after the other, up to the first that makes no
sense: what is wrong with it, and the settings then. -/
def applyAll (environment : String → Option String) :
    List Override → Settings → Option ConfigError × Settings
  | [], s => (none, s)
  | o :: rest, s =>
    match environment o.name with
    | none => applyAll environment rest s
    | some value =>
      match o.change s value with
      | .error fault => (some fault, s)
      | .ok s => applyAll environment rest s

/-- Lets all variables take effect. -/
def override (s : Settings) (environment : String → Option String) : Option ConfigError × Settings :=
  applyAll environment overrides s

/-- The variable that names the settings file. -/
def fileVariable : String := "WIRELINK_CONFIG"

/-- The settings of a file, if a variable names one, and of the other variables. -/
def load (read : String → Except String String) (environment : String → Option String) :
    Except ConfigError Settings :=
  let base : Except ConfigError Settings :=
    match environment fileVariable with
    | none => .ok standard
    | some path => ofFile read path
  match base with
  | .error fault => .error fault
  | .ok s =>
    match s.override environment with
    | (some fault, _) => .error fault
    | (none, s) => .ok s

end Settings

end FramedDuplex
