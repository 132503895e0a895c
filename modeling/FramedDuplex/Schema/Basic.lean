import FramedDuplex.Value.Type
import FramedDuplex.Schema.Error
/-!
# Schemas

A schema is a layout that was found sound: a header of fields that follow one
another without gap or overlap, and after the header nothing, a body, or a
message of another schema. Offsets are not stored: a field begins where the
fields before it end (`Schema.descriptors`).
-/

namespace FramedDuplex

/-- What a field of the header holds. -/
inductive HeaderContent
  | metaData (type : ValueType)
  | identifier (type : ValueType)
  /-- The number of bytes after the header. -/
  | length (type : IntType)
deriving DecidableEq

namespace HeaderContent

/-- The type of the value. -/
def type : HeaderContent → ValueType
  | metaData type => type
  | identifier type => type
  | length type => .scalar (.int type)

/-- The part it plays. -/
def role : HeaderContent → FieldRole
  | metaData _ => .metaData
  | identifier _ => .identifier
  | length _ => .length

end HeaderContent

/-- A field of the header. -/
structure HeaderField where
  name : String
  length : Nat
  content : HeaderContent
  reversed : Bool
deriving DecidableEq

/-- The type of a header field's value. -/
abbrev HeaderField.type (f : HeaderField) : ValueType := f.content.type

/-- A body: all bytes after the header. -/
structure BodyField where
  name : String
  type : ValueType
  reversed : Bool
deriving DecidableEq

/-- A message in place of the body. -/
structure PartField where
  name : String
  reversed : Bool
  writable : Bool
deriving DecidableEq

/-- A sound layout, its header in the order of the wire. -/
inductive Schema where
  /-- A header and nothing after it. -/
  | flat (name : String) (header : List HeaderField)
  /-- A header and a body. -/
  | withBody (name : String) (header : List HeaderField) (body : BodyField)
  /-- A header and a message. -/
  | withMessage (name : String) (header : List HeaderField) (part : PartField) (inner : Schema)

namespace Schema

/-- The name of the message type. -/
def name : Schema → String
  | flat name _ => name
  | withBody name _ _ => name
  | withMessage name _ _ _ => name

/-- The fields of the header, in the order of the wire. -/
def header : Schema → List HeaderField
  | flat _ header => header
  | withBody _ header _ => header
  | withMessage _ header _ _ => header

/-- Bytes of some fields of a header. -/
def sizeOf : List HeaderField → Nat
  | [] => 0
  | f :: rest => f.length + sizeOf rest

/-- Bytes of the header. -/
def fixedSize (s : Schema) : Nat := sizeOf s.header

/-- Whether anything follows the header. -/
def hasBody : Schema → Bool
  | flat .. => false
  | _ => true

/-- The field that answers are matched with callers by: its name and type. -/
def identifierOf : List HeaderField → Option (String × ValueType)
  | [] => none
  | f :: rest =>
    match f.content with
    | .identifier type => some (f.name, type)
    | _ => identifierOf rest

/-- The identifier of a schema: its name and type. -/
def identifier? (s : Schema) : Option (String × ValueType) :=
  identifierOf s.header

/-- A field that says how many bytes follow the header. -/
structure LengthField where
  name : String
  type : IntType
  length : Nat
  reversed : Bool
  offset : Nat

/-- The length field of a header whose first field begins at `offset`. -/
def lengthFieldFrom (offset : Nat) : List HeaderField → Option LengthField
  | [] => none
  | f :: rest =>
    match f.content with
    | .length type => some ⟨f.name, type, f.length, f.reversed, offset⟩
    | _ => lengthFieldFrom (offset + f.length) rest

/-- The length field of a schema. -/
def lengthField? (s : Schema) : Option LengthField :=
  lengthFieldFrom 0 s.header

/-! ## What a schema asks of the converters -/

/-- A scalar in a field that is too narrow for its built-in encoding. -/
structure NarrowField where
  owner : String
  field : String
  kind : Scalar
  declared : Nat

/-- The scalar in a field of `declared` bytes, if it does not fit there. -/
def narrow? (owner field : String) (type : ValueType) (declared : Nat) : Option NarrowField :=
  match type with
  | .scalar kind => if declared < kind.width then some ⟨owner, field, kind, declared⟩ else none
  | _ => none

/-- The narrow fields of a header. -/
def narrowIn (owner : String) (header : List HeaderField) : List NarrowField :=
  header.filterMap fun f => narrow? owner f.name f.type f.length

/-- The fields that only a converter can fill, a message's own before those of
the message inside it. A body is declared with no length at all, so a scalar
body is one of them. -/
def narrowFields : Schema → List NarrowField
  | flat name header => narrowIn name header
  | withBody name header body =>
    narrowIn name header ++ (narrow? name body.name body.type 0).toList
  | withMessage name header _ inner => narrowIn name header ++ inner.narrowFields

/-- Adds a type that needs a converter, once. -/
def addCustom (types : List ValueType) (type : ValueType) : List ValueType :=
  if type.needsConverter ∧ type ∉ types then types ++ [type] else types

/-- The types that need a converter: those of the message inside first, then a
message's own in the order of the wire, each once. -/
def customTypes : Schema → List ValueType
  | flat _ header => (header.map (·.type)).foldl addCustom []
  | withBody _ header body => (header.map (·.type) ++ [body.type]).foldl addCustom []
  | withMessage _ header _ inner => (header.map (·.type)).foldl addCustom inner.customTypes

/-- The outermost message that reading cannot set, if there is one. -/
def undecodable? : Schema → Option SchemaError
  | flat .. => none
  | withBody .. => none
  | withMessage name _ part inner =>
    if part.writable then inner.undecodable? else some (.notDecodable name part.name)

/-! ## The fields as a reader sees them -/

/-- What a field holds. -/
inductive FieldContent
  | value (type : ValueType)
  /-- A message of the type of that name. -/
  | message (name : String)
deriving DecidableEq

/-- One field of a schema with its place. A field after the header has no
declared length. -/
structure Descriptor where
  name : String
  offset : Nat
  length : Nat
  role : FieldRole
  content : FieldContent
  reversed : Bool
  writable : Bool
deriving DecidableEq

/-- Whether a field takes what the header leaves. -/
def Descriptor.isVariable (d : Descriptor) : Bool :=
  d.role = .body ∨ d.role = .composed

/-- The descriptors of a header whose first field begins at `offset`. -/
def describeFrom (offset : Nat) : List HeaderField → List Descriptor
  | [] => []
  | f :: rest =>
    ⟨f.name, offset, f.length, f.content.role, .value f.type, f.reversed, true⟩ ::
      describeFrom (offset + f.length) rest

/-- The fields of a schema in the order of the wire. -/
def descriptors (s : Schema) : List Descriptor :=
  describeFrom 0 s.header ++
    match s with
    | flat .. => []
    | withBody _ _ body =>
      [⟨body.name, s.fixedSize, 0, .body, .value body.type, body.reversed, true⟩]
    | withMessage _ _ part inner =>
      [⟨part.name, s.fixedSize, 0, .composed, .message inner.name, part.reversed, part.writable⟩]

end Schema

end FramedDuplex
