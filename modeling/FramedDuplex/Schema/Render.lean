import FramedDuplex.Schema.Basic
import FramedDuplex.Text.Quoted
/-!
# Schemas in words

A schema as one line of text for a log: its name, the size of its header and
its fields in the order of the wire.
-/

namespace FramedDuplex

/-- A type as a schema shows it. -/
def ValueType.render : ValueType → String
  | scalar kind => s!"Scalar({kind.label})"
  | bytes | sharedBytes => "Raw"
  | type => type.name

namespace Schema

/-- A field in words. -/
def Descriptor.render (d : Descriptor) : String :=
  let type := match d.content with
    | .value type => type.render
    | .message name => name
  "FieldDescriptor \x7b name: " ++ Quoted.text d.name ++ s!", offset: {d.offset}" ++
    s!", length: {d.length}, role: {d.role.label}, value_type: {type}" ++
    s!", reverse_byte_order: {d.reversed}, writable: {d.writable} " ++ "\x7d"

/-- A schema in words. -/
def render (s : Schema) : String :=
  "Schema \x7b type_name: " ++ Quoted.text s.name ++ s!", fixed_size: {s.fixedSize}, fields: [" ++
    ", ".intercalate (s.descriptors.map (·.render)) ++ "] \x7d"

end Schema

end FramedDuplex
