import FramedDuplex.Schema.Basic
import FramedDuplex.Schema.Layout
/-!
# From a layout to a schema

`Schema.ofLayout` checks a declared layout and puts its fields in the order of
the wire. The messages inside are checked first; of a message's own faults the
first in this order is reported:

1. no fields; more than one identifier, length, body or message; both a body
   and a message; a length without a body or a body without a length;
2. field by field in the order of declaration: one that reading cannot set
   (a message excepted), or a header field without length;
3. in the order of offsets: a header field that overlaps the one before it or
   leaves a gap; at last a body that does not begin where the header ends.
-/

namespace FramedDuplex

/-- The part a declared field plays. -/
def FieldKind.role {Inner : Type} : FieldKind Inner → FieldRole
  | metaData .. => .metaData
  | identifier .. => .identifier
  | length .. => .length
  | body _ => .body
  | composed _ => .composed

namespace Declaration

variable {Inner : Type}

/-- The part a declared field plays. -/
abbrev role (d : Declaration Inner) : FieldRole := d.kind.role

/-- The header field that a declaration makes, if it makes one. -/
def headerField? (d : Declaration Inner) : Option HeaderField :=
  match d.kind with
  | .metaData type length => some ⟨d.name, length, .metaData type, d.reversed⟩
  | .identifier type length => some ⟨d.name, length, .identifier type, d.reversed⟩
  | .length type length => some ⟨d.name, length, .length type, d.reversed⟩
  | .body _ => none
  | .composed _ => none

/-- Whether a declaration makes a header field. -/
def isFixed (d : Declaration Inner) : Bool := d.headerField?.isSome

/-- The fault of a declaration on its own. -/
def fault? (owner : String) (d : Declaration Inner) : Option SchemaError :=
  if d.role ≠ .composed ∧ ¬ d.writable then
    some (.readOnlyField owner d.name d.role)
  else if d.headerField?.any (·.length == 0) then
    some (.zeroLength owner d.name)
  else
    none

end Declaration

namespace Schema

variable {Inner : Type}

/-- How many of the declared fields play a part. -/
def countRole (role : FieldRole) (fields : List (Declaration Inner)) : Nat :=
  fields.countP (·.role = role)

/-- The fault in which parts are played, whatever the places of the fields. -/
def rolesFault? (owner : String) (fields : List (Declaration Inner)) : Option SchemaError :=
  if fields.isEmpty then some (.empty owner)
  else if 1 < countRole .identifier fields then some (.duplicateRole owner .identifier)
  else if 1 < countRole .length fields then some (.duplicateRole owner .length)
  else if 1 < countRole .body fields then some (.duplicateRole owner .body)
  else if 1 < countRole .composed fields then some (.duplicateRole owner .composed)
  else if countRole .body fields = 1 ∧ countRole .composed fields = 1 then
    some (.bodyAndComposed owner)
  else if countRole .length fields ≠ countRole .body fields + countRole .composed fields then
    some (.lengthBodyMismatch owner)
  else none

/-- The fields of the header in the order of their offsets. Of two fields at
one offset the one declared first comes first. -/
def byOffset (fields : List (Declaration Inner)) : List (Declaration Inner) :=
  (fields.filter (·.isFixed)).mergeSort (·.offset ≤ ·.offset)

/-- Lays header fields down one after the other, the first at `next`. -/
def lay (owner : String) (next : Nat) :
    List (Declaration Inner) → Except SchemaError (List HeaderField)
  | [] => .ok []
  | d :: rest =>
    match d.headerField? with
    | none => lay owner next rest
    | some f =>
      if d.offset < next then .error (.overlap owner d.name d.offset next)
      else if next < d.offset then .error (.gap owner d.name d.offset next)
      else (lay owner (next + f.length) rest).map (f :: ·)

/-- The schema of a header and of what is declared to follow it. -/
def close (owner : String) (header : List HeaderField) :
    Option (Declaration Schema) → Except SchemaError Schema
  | none => .ok (flat owner header)
  | some d =>
    if d.offset ≠ sizeOf header then
      .error (.bodyNotLast owner d.name d.offset (sizeOf header))
    else
      match d.kind with
      | .body type => .ok (withBody owner header ⟨d.name, type, d.reversed⟩)
      | .composed inner => .ok (withMessage owner header ⟨d.name, d.reversed, d.writable⟩ inner)
      | _ => .ok (flat owner header)

/-- The schema of declared fields whose inner messages have a schema already. -/
def assemble (owner : String) (fields : List (Declaration Schema)) :
    Except SchemaError Schema :=
  match (rolesFault? owner fields).or (fields.findSome? (·.fault? owner)) with
  | some fault => .error fault
  | none =>
    match lay owner 0 (byOffset fields) with
    | .error fault => .error fault
    | .ok header => close owner header (fields.find? (!·.isFixed))

mutual

/-- The schema of a layout, or its first fault. -/
def ofLayout : Layout → Except SchemaError Schema
  | .mk name fields =>
    match ofDeclarations fields with
    | .error fault => .error fault
    | .ok fields => assemble name fields

/-- Declared fields with the schemas of their inner messages, or the first
fault of one of those. -/
def ofDeclarations :
    List (Declaration Layout) → Except SchemaError (List (Declaration Schema))
  | [] => .ok []
  | d :: rest =>
    match ofDeclaration d with
    | .error fault => .error fault
    | .ok d =>
      match ofDeclarations rest with
      | .error fault => .error fault
      | .ok rest => .ok (d :: rest)

/-- A declared field with the schema of its inner message. -/
def ofDeclaration : Declaration Layout → Except SchemaError (Declaration Schema)
  | ⟨name, offset, kind, reversed, writable⟩ =>
    match ofKind kind with
    | .error fault => .error fault
    | .ok kind => .ok ⟨name, offset, kind, reversed, writable⟩

/-- A declared part with the schema of its inner message. -/
def ofKind : FieldKind Layout → Except SchemaError (FieldKind Schema)
  | .metaData type length => .ok (.metaData type length)
  | .identifier type length => .ok (.identifier type length)
  | .length type length => .ok (.length type length)
  | .body type => .ok (.body type)
  | .composed inner =>
    match ofLayout inner with
    | .error fault => .error fault
    | .ok inner => .ok (.composed inner)

end

end Schema

end FramedDuplex
