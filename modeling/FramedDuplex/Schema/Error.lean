/-!
# What can be wrong with a layout

The causes for which a declared layout is refused, and the one wording of each
(`SchemaError.message`). A layout that is refused once is refused every time.
-/

namespace FramedDuplex

/-- The part a field plays in a frame. -/
inductive FieldRole
  | metaData
  | identifier
  | length
  | body
  | composed
deriving DecidableEq, Repr

/-- A role's name in messages. -/
def FieldRole.label : FieldRole → String
  | metaData => "MetaData"
  | identifier => "Identifier"
  | length => "Length"
  | body => "Body"
  | composed => "Composed"

/-- Why a layout does not make a schema, or a schema does not fit its converters.
`owner` is the name of the message type at fault. -/
inductive SchemaError
  | empty (owner : String)
  | duplicateRole (owner : String) (role : FieldRole)
  | lengthBodyMismatch (owner : String)
  | bodyAndComposed (owner : String)
  | readOnlyField (owner field : String) (role : FieldRole)
  | zeroLength (owner field : String)
  | overlap (owner field : String) (offset expected : Nat)
  | gap (owner field : String) (offset expected : Nat)
  | bodyNotLast (owner field : String) (offset expected : Nat)
  | fieldTooNarrow (owner field : String) (declared width : Nat)
  | notDecodable (owner field : String)
  | missingConverter (type : String)
deriving DecidableEq, Repr

/-- An error in words. -/
def SchemaError.message : SchemaError → String
  | empty owner => s!"{owner}: schema declares no fields"
  | duplicateRole owner role => s!"{owner}: more than one {role.label} field"
  | lengthBodyMismatch owner =>
    s!"{owner}: Length and Body/Composed fields must be declared together"
  | bodyAndComposed owner => s!"{owner}: both a Body and a Composed field are declared"
  | readOnlyField owner field role => s!"{owner}: {role.label} field '{field}' must be writable"
  | zeroLength owner field => s!"{owner}: fixed field '{field}' has zero length"
  | overlap owner field offset expected =>
    s!"{owner}: field '{field}' at offset {offset} overlaps the previous field " ++
      s!"(ends at {expected})"
  | gap owner field offset expected =>
    s!"{owner}: gap before field '{field}': offset {offset}, expected {expected}"
  | bodyNotLast owner field offset expected =>
    s!"{owner}: variable field '{field}' at offset {offset} must follow the last fixed field " ++
      s!"(offset {expected})"
  | fieldTooNarrow owner field declared width =>
    s!"{owner}: field '{field}' is {declared} bytes but its type needs {width}"
  | notDecodable owner field =>
    s!"{owner}: composed field '{field}' is read-only, so the type cannot be decoded"
  | missingConverter type => s!"no converter registered for field type {type}"

end FramedDuplex
