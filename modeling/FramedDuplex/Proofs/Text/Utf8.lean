import FramedDuplex.Text.Utf8
import FramedDuplex.Proofs.Bytes.LittleEndian
import Mathlib.Data.List.DropRight
/-!
# Text written and read

Reading the bytes of a text gives the text, and the last of its bytes is zero
only if its last character is U+0000. So a text that does not end in U+0000
comes back out of a window that was filled up with zeros.
-/

namespace FramedDuplex

namespace Utf8

/-- **Reading undoes writing.** -/
@[simp] theorem decode_encode (s : String) : decode (encode s) = .ok s := by
  have valid : (⟨(encode s).toArray⟩ : ByteArray) = s.toByteArray := by simp [encode]
  have read : String.fromUTF8? s.toByteArray = some s := by
    rw [String.fromUTF8?, dif_pos s.isValidUTF8]
    rfl
  rw [decode, valid, read]

/-- The bytes of a text are those of its characters, one after the other. -/
theorem encode_eq_flatMap (s : String) : encode s = s.toList.flatMap String.utf8EncodeChar := by
  have whole : s.toByteArray = s.toList.utf8Encode := by
    rw [← String.toByteArray_ofList, String.ofList_toList]
  rw [encode, whole, List.utf8Encode]
  simp

/-- A character's last byte is zero only for U+0000: every later byte of a
longer form has its highest bit set. -/
theorem getLast?_utf8EncodeChar_ne {c : Char} (h : c ≠ '\x00') :
    (String.utf8EncodeChar c).getLast? ≠ some 0 := by
  have hc : c.val.toNat ≠ 0 := fun e => h (Char.ext (UInt32.toNat_inj.mp e))
  have high : ∀ n < 64, UInt8.ofNat (n + 0x80) ≠ 0 := by decide
  have last : ∀ v : ℕ, UInt8.ofNat (v % 0x40 + 0x80) ≠ 0 := fun v =>
    high _ (Nat.mod_lt _ (by decide))
  fun_cases String.utf8EncodeChar c with
  | case1 v hv =>
    -- one byte, which is the character's own number
    have low : (UInt8.ofNat v).toNat = v := by
      rw [UInt8.toNat_ofNat', Nat.mod_eq_of_lt (by omega)]
    have hne : UInt8.ofNat v ≠ 0 := fun e => hc (low.symm.trans (congrArg UInt8.toNat e))
    simpa using hne
  | case2 v => simpa using last v
  | case3 v => simpa using last v
  | case4 v => simpa using last v

/-- **The last byte of a text is zero only if its last character is U+0000.** -/
theorem getLast?_encode_ne {s : String} (h : s.toList.getLast? ≠ some '\x00') :
    (encode s).getLast? ≠ some 0 := by
  rw [encode_eq_flatMap]
  rcases List.eq_nil_or_concat s.toList with empty | ⟨front, c, split⟩
  · simp [empty]
  · rw [split] at h ⊢
    have hc : c ≠ '\x00' := by simpa using h
    obtain ⟨b, hb⟩ := Option.ne_none_iff_exists'.mp
      (fun e => String.utf8EncodeChar_ne_nil (List.getLast?_eq_none_iff.mp e) :
        (String.utf8EncodeChar c).getLast? ≠ none)
    rw [List.concat_eq_append, List.flatMap_append, List.getLast?_append]
    have := getLast?_utf8EncodeChar_ne hc
    simpa [hb] using this

/-- A text that does not end in U+0000 comes back out of its window. -/
theorem trimZeros_padTo_encode {s : String} (h : s.toList.getLast? ≠ some '\x00') (width : ℕ) :
    Bytes.trimZeros (Bytes.padTo width (encode s)) = encode s := by
  rw [Bytes.trimZeros_padTo, Bytes.trimZeros_of_getLast?_ne (getLast?_encode_ne h)]

/-! ## Text that ends in U+0000 -/

/-- The text without the characters U+0000 at its end. -/
def dropNuls (s : String) : String :=
  String.ofList (s.toList.rdropWhile (· == '\x00'))

/-- **Only a text that ends in U+0000 loses characters.** -/
theorem dropNuls_eq_self_iff {s : String} :
    dropNuls s = s ↔ s.toList.getLast? ≠ some '\x00' := by
  rw [dropNuls, ← String.toList_inj, String.toList_ofList, List.rdropWhile_eq_self_iff]
  rcases List.eq_nil_or_concat s.toList with empty | ⟨front, c, split⟩
  · simp [empty]
  · simp [split]

theorem trimZeros_flatMap (cs : List Char) :
    Bytes.trimZeros (cs.flatMap String.utf8EncodeChar) =
      (cs.rdropWhile (· == '\x00')).flatMap String.utf8EncodeChar := by
  induction cs using List.reverseRecOn with
  | nil => rfl
  | append_singleton front c ih =>
    by_cases hc : c = '\x00'
    · have nul : String.utf8EncodeChar '\x00' = [0] := by decide
      rw [hc, List.rdropWhile_concat_pos _ _ _ (by simp), ← ih, List.flatMap_append]
      simp [nul, Bytes.trimZeros]
    · have last := getLast?_encode_ne (s := String.ofList (front ++ [c])) (by simpa using hc)
      rw [encode_eq_flatMap, String.toList_ofList] at last
      rw [List.rdropWhile_concat_neg _ _ _ (by simpa using hc), Bytes.trimZeros_of_getLast?_ne last]

/-- **A text read with the zeros at its end trimmed** is the text without the
characters U+0000 at its end, which are written as zeros. -/
theorem trimZeros_encode (s : String) : Bytes.trimZeros (encode s) = encode (dropNuls s) := by
  rw [encode_eq_flatMap, trimZeros_flatMap, encode_eq_flatMap, dropNuls, String.toList_ofList]

end Utf8

end FramedDuplex
