import FramedDuplex.Value.Wire
/-!
# Converters

An application can say how values of a type are written, for a type without a
built-in encoding or in place of one. A `Registry` holds at most one converter
for each type; registering another replaces it.

`Registry.encode` and `Registry.decode` are what the codec asks: the converter
of the exact type if there is one, else the built-in encoding.
-/

namespace FramedDuplex

variable [OwnTypes]

/-- How a converter fails. -/
inductive ConvertFailure
  | refused (reason : String)
  /-- It gives no answer at all. -/
  | crashed
deriving DecidableEq, Repr

/-- A failed conversion of a type's value, as the codec reports it. -/
def ConvertFailure.toCodecError (type : ValueType) : ConvertFailure → CodecError
  | refused reason => .convert type.name reason
  | crashed => .crashed

/-- An application's way to write and read the values of a type. -/
structure Converter (type : ValueType) where
  encode : type.Carrier → Except ConvertFailure Bytes
  decode : Bytes → Except ConvertFailure type.Carrier
  /-- Whether zero bytes at the end of a window are dropped before reading. -/
  padded : Bool := false

/-- The converters of an application, at most one for a type. -/
structure Registry where
  entries : List ((type : ValueType) × Converter type)

namespace Registry

/-- No converter at all. -/
def empty : Registry := ⟨[]⟩

/-- Registers a converter for its type, in place of any earlier one. -/
def register (r : Registry) {type : ValueType} (c : Converter type) : Registry :=
  ⟨r.entries.filter (·.1 ≠ type) ++ [⟨type, c⟩]⟩

/-- The converter among entries for a type. -/
def lookup (type : ValueType) : List ((t : ValueType) × Converter t) → Option (Converter type)
  | [] => none
  | ⟨t, c⟩ :: rest => if h : t = type then some (h ▸ c) else lookup type rest

/-- The converter registered for a type. -/
def find? (r : Registry) (type : ValueType) : Option (Converter type) :=
  lookup type r.entries

/-- Whether a type has a converter. -/
def contains (r : Registry) (type : ValueType) : Bool :=
  (r.find? type).isSome

/-- How many types have a converter. -/
def size (r : Registry) : Nat :=
  r.entries.length

/-- The names of the types that have a converter. -/
def typeNames (r : Registry) : List String :=
  r.entries.map (·.1.name)

/-- The bytes of a value. -/
def encode (r : Registry) (type : ValueType) (v : type.Carrier) : Except CodecError Bytes :=
  match r.find? type with
  | some c => (c.encode v).mapError (·.toCodecError type)
  | none => type.encode v

/-- The value that a window of the field `field` holds. -/
def decode (r : Registry) (field : String) (type : ValueType) (window : Bytes) :
    Except CodecError type.Carrier :=
  match r.find? type with
  | some c =>
    (c.decode (if c.padded then window.trimZeros else window)).mapError (·.toCodecError type)
  | none => type.decode field window

/-! ## What a registration changes -/

theorem lookup_filter_ne {type other : ValueType} (h : type ≠ other)
    (entries : List ((t : ValueType) × Converter t)) :
    lookup type (entries.filter (·.1 ≠ other)) = lookup type entries := by
  induction entries with
  | nil => rfl
  | cons e rest ih =>
    obtain ⟨t, c⟩ := e
    by_cases ht : t = other
    · have hne : t ≠ type := fun e => h (e ▸ ht)
      simp only [ne_eq, ht, not_true_eq_false, decide_false, Bool.false_eq_true,
        not_false_eq_true, List.filter_cons_of_neg]
      simp only [ne_eq] at ih
      rw [ih, lookup, dif_neg (ht ▸ hne)]
    · simp only [ne_eq, ht, not_false_eq_true, decide_true, List.filter_cons_of_pos]
      simp only [ne_eq] at ih
      simp only [lookup, ih]

theorem lookup_append_of_absent {type : ValueType}
    {entries more : List ((t : ValueType) × Converter t)} (h : ∀ e ∈ entries, e.1 ≠ type) :
    lookup type (entries ++ more) = lookup type more := by
  induction entries with
  | nil => rfl
  | cons e rest ih =>
    rw [List.cons_append, lookup, dif_neg (h e (by simp)), ih fun e he => h e (by simp [he])]

/-- **The last registration wins.** -/
@[simp] theorem find?_register_self (r : Registry) {type : ValueType} (c : Converter type) :
    (r.register c).find? type = some c := by
  unfold find? register
  rw [lookup_append_of_absent (by simp)]
  simp [lookup]

theorem lookup_append {type : ValueType} (entries more : List ((t : ValueType) × Converter t)) :
    lookup type (entries ++ more) = (lookup type entries).or (lookup type more) := by
  induction entries with
  | nil => rfl
  | cons e rest ih =>
    rw [List.cons_append, lookup, lookup, ih]
    split <;> rfl

/-- **A registration is local to its type.** -/
theorem find?_register_of_ne (r : Registry) {type other : ValueType} (c : Converter other)
    (h : type ≠ other) : (r.register c).find? type = r.find? type := by
  unfold find? register
  rw [lookup_append, lookup_filter_ne h]
  simp [lookup, Ne.symm h]

end Registry

end FramedDuplex
