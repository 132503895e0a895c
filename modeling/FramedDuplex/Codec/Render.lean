import FramedDuplex.Codec.Basic
/-!
# Codecs in words

A registry as the set of the types it has converters for, and a codec as its
registry, the number of buffers its pool holds idle, and its limit.
-/

namespace FramedDuplex

variable [OwnTypes]

/-- A registry in words. -/
def Registry.render (r : Registry) : String :=
  "\x7b" ++ ", ".intercalate (r.typeNames.map Quoted.text) ++ "\x7d"

/-- A codec in words, with the number of idle buffers. -/
def Codec.render (c : Codec) (idle : Nat) : String :=
  "Codec \x7b registry: " ++ c.registry.render ++ s!", pooled_buffers: {idle}" ++
    s!", max_body_size: {c.maxBody} " ++ "\x7d"

end FramedDuplex
