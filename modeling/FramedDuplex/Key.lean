import FramedDuplex.Value.Type
import FramedDuplex.Text.Quoted
import FramedDuplex.Time.Civil
/-!
# Correlation keys

Answers are matched with callers by the value of the identifier field. Two keys
are equal when both the types and the values are: the same number in two types
makes two keys. Messages without an identifier share the key `unassigned`.
-/

namespace FramedDuplex

variable [OwnTypes]

/-- What an answer is matched with its caller by. -/
inductive Key
  | unassigned
  | of (value : Value)
deriving DecidableEq

/-- The type of a key's value. -/
def Key.type? : Key → Option ValueType
  | unassigned => none
  | of value => some value.type

/-- A scalar in words. -/
def Scalar.render : (kind : Scalar) → kind.Carrier → String
  | int type, v => if type.signed then toString v.toInt else toString v.toNat
  | wide signed, v => if signed then toString v.toInt else toString v.toNat
  | float32, v => toString v.toNat
  | float64, v => toString v.toNat
  | bool, v => toString v
  | char, v => Quoted.char v

/-- A unique identifier in words: its digits in five groups. -/
def uuidText (id : Vector UInt8 16) : String :=
  let digits := id.toList.map Quoted.hexPair
  "-".intercalate
    [String.join (digits.take 4), String.join ((digits.drop 4).take 2),
      String.join ((digits.drop 6).take 2), String.join ((digits.drop 8).take 2),
      String.join (digits.drop 10)]

/-- A value in words. -/
def ValueType.renderData : (type : ValueType) → type.Carrier → String
  | scalar kind, v => kind.render v
  | bytes, v => "[" ++ ", ".intercalate (v.map fun b => toString b.toNat) ++ "]"
  | sharedBytes, v => Quoted.bytes v
  | text, v => Quoted.text v
  | uuid, v => uuidText v
  | instant, v => v.render
  | custom name, v => OwnTypes.render name v

/-- A key in words. -/
def Key.render : Key → String
  | unassigned => "Unassigned"
  | of value => value.type.renderData value.data

end FramedDuplex
