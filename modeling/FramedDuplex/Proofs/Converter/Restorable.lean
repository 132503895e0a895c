import FramedDuplex.Converter.Standard
import FramedDuplex.Proofs.Text.Utf8
import FramedDuplex.Proofs.Time.Instant
/-!
# Values that come back out of their windows

`Registry.Restorable` collects what a value has to be like to be read back from
the window it was written to: nothing for a scalar, a full window for bytes,
no U+0000 at the end for text, and so on; of an application's converter it asks
that it reads what it wrote. `Registry.decode_of_restorable` is all that the
codec's round trip needs to know about converters.

A body has exactly the bytes of its value. It is a window of width zero here:
filling up to no width at all adds nothing.
-/

namespace FramedDuplex

variable {width : ℕ}

/-- **Reading a scalar undoes writing it.** -/
@[simp] theorem Scalar.decode_encode (kind : Scalar) (v : kind.Carrier) :
    kind.decode (kind.encode v) = .ok v := by
  have word : ∀ {n : ℕ} (w : BitVec (8 * n)),
      BitVec.ofNat (8 * n) (Bytes.toNatLE (Bytes.ofNatLE n w.toNat)) = w := by
    intro n w
    have fits : w.toNat < 256 ^ n := by
      have := w.isLt
      rwa [Nat.pow_mul] at this
    rw [Bytes.toNatLE_ofNatLE_of_lt fits, BitVec.ofNat_toNat, BitVec.setWidth_eq]
  cases kind with
  | int type => exact congrArg Except.ok (word v)
  | wide signed => exact congrArg Except.ok (word (n := 16) v)
  | float32 => exact congrArg Except.ok (word (n := 4) v)
  | float64 => exact congrArg Except.ok (word (n := 8) v)
  | bool => cases v <;> rfl
  | char =>
    have valid : v.toNat.isValidChar := v.valid
    have fits : v.toNat < 256 ^ 4 := by
      rcases valid with low | high <;> omega
    have code := Bytes.toNatLE_ofNatLE_of_lt fits
    simp [decode, encode, code, valid]

variable [OwnTypes]

namespace Converter

/-- A converter reads what it wrote for a value, filled up with zeros to a
width and seen the way it sees a window. -/
def Restores {type : ValueType} (c : Converter type) (width : ℕ) (v : type.Carrier) : Prop :=
  ∀ bs, c.encode v = .ok bs →
    c.decode (if c.padded then (Bytes.padTo width bs).trimZeros else Bytes.padTo width bs) = .ok v

/-- The count that the first eight bytes of a window say. -/
def timestamp (window : Bytes) : ℤ := (BitVec.ofNat 64 (Bytes.toNatLE (window.take 8))).toInt

/-- A window of eight bytes or more is read as what its count names. -/
theorem instant_decode {window : Bytes} (h : 8 ≤ window.length) :
    instant.decode window =
      match Instant.ofMillis? (timestamp window) with
      | some t => .ok t
      | none => .error (.refused s!"timestamp {timestamp window} out of range") :=
  if_neg (Nat.not_lt.mpr h)

omit [OwnTypes] in
/-- **The count that was written is read**, whatever stands behind it. -/
theorem timestamp_append {t : Instant} (hmin : Instant.minMillis ≤ t.millis)
    (hmax : t.millis ≤ Instant.maxMillis) (more : Bytes) :
    timestamp (Bytes.ofNatLE 8 (BitVec.ofInt 64 t.millis).toNat ++ more) = t.millis := by
  have front : (Bytes.ofNatLE 8 (BitVec.ofInt 64 t.millis).toNat ++ more).take 8 =
      Bytes.ofNatLE 8 (BitVec.ofInt 64 t.millis).toNat := by
    rw [List.take_append_of_le_length (by simp), List.take_of_length_le (by simp)]
  rw [timestamp, front, Bytes.toNatLE_ofNatLE_of_lt (by simpa using (BitVec.ofInt 64 t.millis).isLt),
    BitVec.ofNat_toNat, BitVec.setWidth_eq, Instant.toInt_ofInt_millis hmin hmax]

end Converter

namespace Registry

variable {r : Registry} {type : ValueType} {v : type.Carrier} {bs : Bytes}

/-- What a value has to be like to be read back from its window. -/
inductive Restorable (r : Registry) (width : ℕ) : (type : ValueType) → type.Carrier → Prop
  /-- A scalar in its built-in encoding always is. -/
  | scalar {kind : Scalar} (v : kind.Carrier) :
      r.find? (.scalar kind) = none → Restorable r width (.scalar kind) v
  /-- Bytes copied as they are leave no room in their window. -/
  | bytes (v : Bytes) :
      r.find? .bytes = none → width ≤ v.length → Restorable r width .bytes v
  | sharedBytes (v : Bytes) :
      r.find? .sharedBytes = none → width ≤ v.length → Restorable r width .sharedBytes v
  /-- Text under the standard converter does not end in U+0000. -/
  | text (s : String) :
      r.find? .text = some Converter.text → s.toList.getLast? ≠ some '\x00' →
        Restorable r width .text s
  /-- An identifier under the standard converter leaves no room either. -/
  | uuid (id : Vector UInt8 16) :
      r.find? .uuid = some Converter.uuid → width ≤ 16 → Restorable r width .uuid id
  | instant (t : Instant) :
      r.find? .instant = some Converter.instant → t.IsWhole → Restorable r width .instant t
  /-- An application's converter reads what it wrote. -/
  | converted {type : ValueType} (v : type.Carrier) {c : Converter type} :
      r.find? type = some c → c.Restores width v → Restorable r width type v

omit [OwnTypes] in
/-- Naming a fault otherwise makes nothing succeed. -/
theorem mapError_eq_ok {α ε ε' : Type} {x : Except ε α} {f : ε → ε'} {a : α} :
    x.mapError f = .ok a ↔ x = .ok a := by
  cases x <;> simp [Except.mapError]

/-- What is read with a converter, and how it sees its window. -/
theorem decode_eq_of_find? {c : Converter type} (h : r.find? type = some c) (field : String)
    (window : Bytes) : r.decode field type window =
      (c.decode (if c.padded then window.trimZeros else window)).mapError
        (·.toCodecError type) := by
  rw [decode, h]

/-- What a converter wrote is what the registry wrote. -/
theorem encode_ok_of_find? {c : Converter type} (h : r.find? type = some c)
    (he : r.encode type v = .ok bs) : c.encode v = .ok bs := by
  simpa only [encode, h, mapError_eq_ok] using he

/-- Without a converter the built-in encoding writes and reads. -/
theorem encode_ok_of_find?_none (h : r.find? type = none) (he : r.encode type v = .ok bs) :
    type.encode v = .ok bs := by
  simpa only [encode, h] using he

/-- **A restorable value is read back from its window**, whatever the field is
called. -/
theorem decode_of_restorable (h : r.Restorable width type v) (he : r.encode type v = .ok bs)
    (field : String) : r.decode field type (Bytes.padTo width bs) = .ok v := by
  cases h with
  | @scalar kind v hnone =>
    -- a scalar is read from the front of its window, however wide
    have hbs : kind.encode v = bs := by
      simpa [ValueType.encode] using encode_ok_of_find?_none hnone he
    have front : (Bytes.padTo width bs).take kind.width = kind.encode v := by
      rw [← hbs, ← Scalar.length_encode kind v, Bytes.take_padTo]
    have long : ¬ (Bytes.padTo width bs).length < kind.width := by
      rw [Bytes.length_padTo, ← hbs, Scalar.length_encode]
      omega
    simp only [decode, hnone, ValueType.decode]
    rw [if_neg long, front, Scalar.decode_encode]
  | bytes v hnone full =>
    obtain rfl : v = bs := by
      simpa [ValueType.encode] using encode_ok_of_find?_none hnone he
    simp only [decode, hnone, ValueType.decode]
    rw [Bytes.padTo_of_le full]
  | sharedBytes v hnone full =>
    obtain rfl : v = bs := by
      simpa [ValueType.encode] using encode_ok_of_find?_none hnone he
    simp only [decode, hnone, ValueType.decode]
    rw [Bytes.padTo_of_le full]
  | text s hfind hlast =>
    -- text is trimmed before it is read, which takes no byte of its own
    obtain rfl : Utf8.encode s = bs := by
      simpa [Converter.text] using encode_ok_of_find? hfind he
    rw [decode_eq_of_find? hfind]
    simp only [Converter.text, if_true]
    rw [Utf8.trimZeros_padTo_encode hlast, Utf8.decode_encode]
    rfl
  | uuid id hfind full =>
    obtain rfl : id.toList = bs := by
      simpa [Converter.uuid] using encode_ok_of_find? hfind he
    have exact16 : Bytes.padTo width id.toList = id.toList :=
      Bytes.padTo_of_le (by simpa using full)
    have long : id.toList.length = 16 := by simp
    rw [decode_eq_of_find? hfind, exact16]
    simp only [Converter.uuid, Bool.false_eq_true, if_false]
    rw [dif_pos long]
    rfl
  | instant t hfind whole =>
    -- the count is a word of eight bytes at the front
    obtain rfl : Bytes.ofNatLE 8 (BitVec.ofInt 64 t.millis).toNat = bs := by
      simpa [Converter.instant] using encode_ok_of_find? hfind he
    have read : Converter.instant.decode
        (Bytes.padTo width (Bytes.ofNatLE 8 (BitVec.ofInt 64 t.millis).toNat)) = .ok t := by
      rw [Bytes.padTo, Converter.instant_decode (by simp),
        Converter.timestamp_append whole.min_le whole.le_max, Instant.ofMillis?_millis whole]
    have unpadded : Converter.instant.padded = false := rfl
    rw [decode_eq_of_find? hfind, unpadded, if_neg Bool.false_ne_true, read]
    rfl
  | @converted type v c hfind restores =>
    rw [decode_eq_of_find? hfind, restores bs (encode_ok_of_find? hfind he)]
    rfl

end Registry

end FramedDuplex
