import FramedDuplex.Converter.Registry
import Mathlib.Data.List.Induction
/-!
# What a registry answers after registrations

Converters are registered one after the other (`Registry.registerAll`). Asked for a
type the registry then answers with the last converter that was registered for it, and
with its former answer if there was none (`Registry.find?_registerAll`). Nothing but
the answer for its type enters into the encoding and the decoding of a value.
-/

namespace FramedDuplex

variable [OwnTypes]

namespace Registry

variable {r r' : Registry} {type : ValueType}

/-- Registers converters one after the other. -/
def registerAll (r : Registry) (registrations : List ((type : ValueType) × Converter type)) :
    Registry :=
  registrations.foldl (fun r e => r.register e.2) r

/-- The converter that registrations name last for a type. -/
def last? (type : ValueType) (registrations : List ((t : ValueType) × Converter t)) :
    Option (Converter type) :=
  lookup type registrations.reverse

/-- **The last registration for a type wins**, and one for another type does not count. -/
theorem find?_registerAll (r : Registry)
    (registrations : List ((type : ValueType) × Converter type)) (type : ValueType) :
    (r.registerAll registrations).find? type = (last? type registrations).or (r.find? type) := by
  induction registrations using List.reverseRecOn with
  | nil => rfl
  | append_singleton earlier e ih =>
    obtain ⟨t, c⟩ := e
    rw [registerAll, List.foldl_append, List.foldl_cons, List.foldl_nil, last?,
      List.reverse_append, List.reverse_singleton, List.singleton_append, lookup]
    by_cases ht : t = type
    · subst ht
      rw [find?_register_self, dif_pos rfl, Option.some_or]
    · rw [find?_register_of_ne _ _ (Ne.symm ht), dif_neg ht]
      exact ih

/-! ## One type at a time -/

theorem contains_congr (h : r'.find? type = r.find? type) : r'.contains type = r.contains type := by
  rw [contains, contains, h]

theorem encode_congr (h : r'.find? type = r.find? type) : r'.encode type = r.encode type := by
  funext v
  rw [encode, encode, h]

theorem decode_congr (h : r'.find? type = r.find? type) (field : String) :
    r'.decode field type = r.decode field type := by
  funext window
  rw [decode, decode, h]

end Registry

end FramedDuplex
