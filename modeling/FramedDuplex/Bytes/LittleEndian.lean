/-!
# Byte strings and little-endian numbers

Every number on the wire is written least significant byte first, in a fixed
number of bytes. `Bytes.ofNatLE` writes and `Bytes.toNatLE` reads; each undoes
the other on numbers that fit, and reading ignores nothing.

A field that is longer than its value is filled up with zero bytes
(`Bytes.padTo`); a converter for padded fields sees the bytes without the
zeros at the end (`Bytes.trimZeros`).
-/

namespace FramedDuplex

/-- A string of bytes, first byte first. -/
abbrev Bytes := List UInt8

namespace Bytes

/-- The `width` low bytes of a number, least significant first. -/
def ofNatLE : Nat → Nat → Bytes
  | 0, _ => []
  | width + 1, n => UInt8.ofNat (n % 256) :: ofNatLE width (n / 256)

/-- The number that bytes stand for, least significant first. -/
def toNatLE : Bytes → Nat
  | [] => 0
  | b :: bs => b.toNat + 256 * toNatLE bs

@[simp] theorem length_ofNatLE (width n : Nat) : (ofNatLE width n).length = width := by
  induction width generalizing n with
  | zero => rfl
  | succ width ih => simp [ofNatLE, ih]

/-- **Writing undoes reading.** -/
theorem ofNatLE_toNatLE (bs : Bytes) : ofNatLE bs.length (toNatLE bs) = bs := by
  induction bs with
  | nil => rfl
  | cons b bs ih =>
    have hb := b.toNat_lt
    have low : (b.toNat + 256 * toNatLE bs) % 256 = b.toNat := by omega
    have high : (b.toNat + 256 * toNatLE bs) / 256 = toNatLE bs := by omega
    simp [toNatLE, ofNatLE, low, high, ih]

/-! ## Padding -/

/-- Fills up with zero bytes to at least `width` bytes. -/
def padTo (width : Nat) (bs : Bytes) : Bytes :=
  bs ++ List.replicate (width - bs.length) 0

@[simp] theorem length_padTo (width : Nat) (bs : Bytes) :
    (padTo width bs).length = max width bs.length := by
  simp [padTo]
  omega

/-- Drops the zero bytes at the end. -/
def trimZeros (bs : Bytes) : Bytes :=
  (bs.reverse.dropWhile (· == 0)).reverse

/-- Reverses a window whose byte order is flipped on the wire. -/
def orient (reversed : Bool) (bs : Bytes) : Bytes :=
  if reversed then bs.reverse else bs

@[simp] theorem length_orient (reversed : Bool) (bs : Bytes) :
    (orient reversed bs).length = bs.length := by
  cases reversed <;> simp [orient]

@[simp] theorem orient_orient (reversed : Bool) (bs : Bytes) :
    orient reversed (orient reversed bs) = bs := by
  cases reversed <;> simp [orient]

end Bytes

end FramedDuplex
