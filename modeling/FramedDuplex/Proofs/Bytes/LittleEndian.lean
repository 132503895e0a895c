import FramedDuplex.Bytes.LittleEndian
import Mathlib.Algebra.Group.Nat.Defs
import Mathlib.Data.List.Basic
/-!
# Bytes that are read back

A number that fits its bytes is read back from them.

A window is a value's bytes and zero bytes after them. What reads a window
either takes a known number of bytes from its front, or first drops the zeros
at its end; both give the value's bytes back, the second if these do not end in
a zero themselves.
-/

namespace FramedDuplex

namespace Bytes

variable {bs : Bytes} {width n : ℕ}

/-! ## Numbers -/

/-- **Reading undoes writing**, up to what does not fit. -/
theorem toNatLE_ofNatLE (width n : ℕ) : toNatLE (ofNatLE width n) = n % 256 ^ width := by
  induction width generalizing n with
  | zero => simp [ofNatLE, toNatLE, Nat.mod_one]
  | succ width ih =>
    rw [ofNatLE, toNatLE, ih, Nat.pow_succ, Nat.mul_comm (256 ^ width) 256, Nat.mod_mul]
    simp

theorem toNatLE_ofNatLE_of_lt (h : n < 256 ^ width) :
    toNatLE (ofNatLE width n) = n := by
  rw [toNatLE_ofNatLE, Nat.mod_eq_of_lt h]

/-! ## Windows -/

/-- Bytes that fill their window are the window. -/
theorem padTo_of_le (h : width ≤ bs.length) : padTo width bs = bs := by
  have none : width - bs.length = 0 := by omega
  simp [padTo, none]

/-- The bytes stand at the front of their window. -/
@[simp] theorem take_padTo (width : ℕ) (bs : Bytes) : (padTo width bs).take bs.length = bs := by
  simp [padTo]

/-- **Trimming forgets how much was padded.** -/
@[simp] theorem trimZeros_padTo (width : ℕ) (bs : Bytes) :
    trimZeros (padTo width bs) = trimZeros bs := by
  have zeros : ∀ b ∈ List.replicate (width - bs.length) (0 : UInt8), (b == 0) = true := by simp
  rw [trimZeros, padTo, List.reverse_append, List.reverse_replicate,
    List.dropWhile_append_of_pos zeros, trimZeros]

/-- Trimming takes nothing off bytes that do not end in a zero. -/
theorem trimZeros_of_getLast?_ne (h : bs.getLast? ≠ some 0) : trimZeros bs = bs := by
  rcases List.eq_nil_or_concat bs with rfl | ⟨front, last, rfl⟩
  · rfl
  · have hlast : last ≠ 0 := by simpa using h
    simp [trimZeros, hlast]

end Bytes

end FramedDuplex
