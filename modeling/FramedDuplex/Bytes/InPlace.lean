import FramedDuplex.Bytes.LittleEndian
/-!
# Changing bytes where they stand

What is done to the bytes of a buffer: it is brought to a length, bytes are copied
into a window of it, and a window of it is turned around.
-/

namespace FramedDuplex

namespace Bytes

/-- Brings bytes to a length: cut off at the end, or filled up with zero bytes. -/
def resize (length : Nat) (bs : Bytes) : Bytes :=
  bs.take length ++ List.replicate (length - bs.length) 0

/-- Copies bytes over those from a place on. -/
def copyAt (bs : Bytes) (start : Nat) (piece : Bytes) : Bytes :=
  bs.take start ++ piece ++ bs.drop (start + piece.length)

/-- Turns a stretch of bytes around where it stands. -/
def reverseAt (start length : Nat) (bs : Bytes) : Bytes :=
  bs.take start ++ ((bs.drop start).take length).reverse ++ bs.drop (start + length)

@[simp] theorem resize_zero (bs : Bytes) : bs.resize 0 = [] := by
  simp [resize]

/-- What was empty is filled up with zeros. -/
@[simp] theorem resize_nil (length : Nat) : resize length [] = List.replicate length 0 := by
  simp [resize]

/-! ## Between what is before and what is behind -/

theorem copyAt_append (front piece old back : Bytes) (h : piece.length = old.length) :
    copyAt (front ++ old ++ back) front.length piece = front ++ piece ++ back := by
  have behind : front.length + piece.length = (front ++ old).length := by
    rw [List.length_append, h]
  rw [copyAt, behind, List.drop_left, List.append_assoc front old, List.take_left]

theorem reverseAt_append (front window back : Bytes) :
    reverseAt front.length window.length (front ++ window ++ back) =
      front ++ window.reverse ++ back := by
  have behind : front.length + window.length = (front ++ window).length := by
    rw [List.length_append]
  rw [reverseAt, behind, List.drop_left, List.append_assoc front window, List.take_left,
    List.drop_left, List.take_left]

end Bytes

end FramedDuplex
