import FramedDuplex.Value.Type
/-!
# Declared layouts

A message type declares its fields one by one, each with the part it plays, an
offset, and for a field of the header its length. Nothing is promised of a
declared layout: fields may overlap, repeat or be missing. `Schema.ofLayout`
says which layouts make a schema.
-/

namespace FramedDuplex

/-- The part a declared field plays, with what that part needs. `Inner` is the
declaration of a message inside the message. -/
inductive FieldKind (Inner : Type) where
  /-- Plain data of fixed length. -/
  | metaData (type : ValueType) (length : Nat)
  /-- The value that answers are matched with callers by. -/
  | identifier (type : ValueType) (length : Nat)
  /-- The number of bytes after the header, in a field of `length` bytes. -/
  | length (type : IntType) (length : Nat)
  /-- All bytes after the header. -/
  | body (type : ValueType)
  /-- A message in place of the body. -/
  | composed (inner : Inner)

/-- One declared field. -/
structure Declaration (Inner : Type) where
  name : String
  offset : Nat
  kind : FieldKind Inner
  /-- Whether its bytes stand in reverse order. -/
  reversed : Bool
  /-- Whether reading a message can set it. -/
  writable : Bool

/-- The declared fields of a message type, in the order of their declaration. -/
inductive Layout where
  | mk (name : String) (fields : List (Declaration Layout))

end FramedDuplex
