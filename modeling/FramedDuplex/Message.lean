import FramedDuplex.Key
import FramedDuplex.Schema.Basic
/-!
# Messages

A message gives each field a value. A field inside a message inside the message
is reached by the names on the way to it, so the message inside is the same
thing seen from further down (`Message.part`), and putting it back
(`Message.setPart`) changes nothing else.
-/

namespace FramedDuplex

variable [OwnTypes]

/-- The values of a message's fields, by the names that lead to a field. -/
structure Message where
  slot : List String → (type : ValueType) → type.Carrier

namespace Message

@[ext] theorem ext {a b : Message} (h : ∀ path type, a.slot path type = b.slot path type) :
    a = b := by
  cases a; cases b
  congr
  funext path type
  exact h path type

/-- The message whose fields were never set. -/
def blank : Message := ⟨fun _ type => type.blank⟩

/-- The value of a field. -/
def get (m : Message) (field : String) (type : ValueType) : type.Carrier :=
  m.slot [field] type

/-- Sets the value of a field. -/
def set (m : Message) (field : String) (type : ValueType) (v : type.Carrier) : Message where
  slot path t :=
    if h : path = [field] ∧ type = t then h.2 ▸ v else m.slot path t

/-- The message in a field. -/
def part (m : Message) (field : String) : Message where
  slot path := m.slot (field :: path)

/-- Puts a message into a field. -/
def setPart (m : Message) (field : String) (inner : Message) : Message where
  slot
    | [] => m.slot []
    | name :: path => if name = field then inner.slot path else m.slot (name :: path)

@[simp] theorem get_set (m : Message) (field : String) (type : ValueType) (v : type.Carrier) :
    (m.set field type v).get field type = v := by
  simp [get, set]

@[simp] theorem part_setPart (m : Message) (field : String) (inner : Message) :
    (m.setPart field inner).part field = inner := by
  ext path type
  simp [part, setPart]

/-- **Putting back what was there changes nothing.** -/
@[simp] theorem setPart_part (m : Message) (field : String) : m.setPart field (m.part field) = m := by
  ext path type
  cases path with
  | nil => rfl
  | cons name path =>
    by_cases h : name = field <;> simp [setPart, part, h]

end Message

/-- The key that a message carries. -/
def Schema.keyOf (s : Schema) (m : Message) : Key :=
  match s.identifier? with
  | some (field, type) => .of ⟨type, m.get field type⟩
  | none => .unassigned

end FramedDuplex
