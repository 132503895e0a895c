import FramedDuplex.Proofs.Bytes.LittleEndian
/-!
# Most significant byte first

A number in little-endian bytes that are turned around stands most significant
byte first, and the zeros it was filled up with stand in front of it
(`Bytes.reverse_padTo_ofNatLE`).
-/

namespace FramedDuplex

namespace Bytes

/-- The `width` low bytes of a number, most significant first. -/
def ofNatBE : ℕ → ℕ → Bytes
  | 0, _ => []
  | width + 1, n => UInt8.ofNat (n / 256 ^ width % 256) :: ofNatBE width n

/-- The least significant byte comes last. -/
theorem ofNatBE_succ (width n : ℕ) :
    ofNatBE (width + 1) n = ofNatBE width (n / 256) ++ [UInt8.ofNat (n % 256)] := by
  induction width with
  | zero => simp [ofNatBE]
  | succ width ih =>
    have hshift : n / 256 ^ (width + 1) = n / 256 / 256 ^ width := by
      rw [Nat.pow_succ, Nat.mul_comm, Nat.div_div_eq_div_mul]
    rw [ofNatBE, ih, hshift, ofNatBE, List.cons_append]

/-- **Turning a number around** puts its most significant byte first. -/
theorem reverse_ofNatLE (width n : ℕ) : (ofNatLE width n).reverse = ofNatBE width n := by
  induction width generalizing n with
  | zero => rfl
  | succ width ih => rw [ofNatLE, List.reverse_cons, ih, ofNatBE_succ]

/-- **A number that was filled up and turned around** is right-aligned behind
zeros. -/
theorem reverse_padTo_ofNatLE (width size n : ℕ) :
    (padTo width (ofNatLE size n)).reverse =
      List.replicate (width - size) 0 ++ ofNatBE size n := by
  rw [padTo, length_ofNatLE, List.reverse_append, List.reverse_replicate, reverse_ofNatLE]

end Bytes

end FramedDuplex
