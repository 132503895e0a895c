import FramedDuplex.Codec.Decode
import FramedDuplex.Proofs.Schema.Header
import Mathlib.Data.Int.Notation
import Mathlib.Data.Nat.Notation
/-!
# What a buffer begins with

A complete header announces how many bytes follow it (`Codec.Announces`) or is
at fault (`Codec.HeaderFault`): its length field cannot be read, or says a
negative number, or says more than the limits admit. So a buffer begins with a
frame of a known length, or with a header at fault, or with less than either
(`Codec.front`), and that decides what taking a frame off it does
(`Codec.decodeNext_eq`).

What a buffer begins with does not change when more bytes are put behind it
(`Codec.front_append`).
-/

namespace FramedDuplex

/-- The number that an integer of a type stands for. -/
def IntType.value (type : IntType) (v : (Scalar.int type).Carrier) : ℤ :=
  if type.signed then v.toInt else v.toNat

/-- **An integer says the length that it is**, and none if it is negative. -/
theorem IntType.toLength?_eq_some_iff {type : IntType} {v : (Scalar.int type).Carrier} {n : ℕ} :
    type.toLength? v = some n ↔ type.value v = n := by
  obtain ⟨size, signed⟩ := type
  have hlt : v.toNat < 2 ^ size.bits := v.isLt
  cases signed with
  | false =>
    simp only [toLength?, lengths, value, Bool.false_eq_true, if_false, Nat.sub_zero,
      Nat.one_shiftLeft, if_pos hlt, Option.some.injEq, Int.natCast_inj]
  | true =>
    have hpow : 2 ^ size.bits = 2 * 2 ^ (size.bits - 1) := by
      cases size <;> rfl
    have hint : v.toInt =
        if 2 * v.toNat < 2 ^ size.bits then (v.toNat : ℤ) else v.toNat - (2 ^ size.bits : ℕ) :=
      BitVec.toInt_eq_toNat_cond v
    simp only [toLength?, lengths, value, if_true, Nat.one_shiftLeft, hint]
    by_cases hneg : v.toNat < 2 ^ (size.bits - 1)
    · have hsmall : 2 * v.toNat < 2 ^ size.bits := by omega
      simp only [if_pos hneg, if_pos hsmall, Option.some.injEq, Int.natCast_inj]
    · have hlarge : ¬ 2 * v.toNat < 2 ^ size.bits := by omega
      simp only [if_neg hneg, if_neg hlarge, reduceCtorEq, false_iff]
      omega

theorem IntType.toLength?_eq_none_iff {type : IntType} {v : (Scalar.int type).Carrier} :
    type.toLength? v = none ↔ type.value v < 0 := by
  constructor
  · intro h
    by_contra hneg
    obtain ⟨n, hn⟩ := Int.eq_ofNat_of_zero_le (Int.not_lt.mp hneg)
    rw [toLength?_eq_some_iff.mpr hn] at h
    cases h
  · intro h
    cases hv : type.toLength? v with
    | none => rfl
    | some n =>
      have := toLength?_eq_some_iff.mp hv
      omega

variable [OwnTypes]

namespace Codec

variable {c : Codec} {s : Schema} {b head more : Bytes} {fault : CodecError} {n total : ℕ}

/-! ## What a header says -/

/-- What the window of a length field is read as. -/
def readLength (c : Codec) (f : Schema.LengthField) (head : Bytes) :
    Except CodecError (Scalar.int f.type).Carrier :=
  c.registry.decode f.name (.scalar (.int f.type))
    (Bytes.orient f.reversed ((head.drop f.offset).take f.length))

/-- A header announces that `n` bytes follow it. A header without a length field
announces that nothing does. -/
inductive Announces (c : Codec) (s : Schema) (head : Bytes) : ℕ → Prop where
  | nothing : s.lengthField? = none → Announces c s head 0
  | length {f : Schema.LengthField} {v : (Scalar.int f.type).Carrier} {n : ℕ} :
      s.lengthField? = some f → c.readLength f head = .ok v → f.type.value v = n →
        Announces c s head n

/-- The limits admit a frame with `n` bytes after its header. -/
def Admits (c : Codec) (s : Schema) (n : ℕ) : Prop :=
  n ≤ c.maxBody ∧ s.fixedSize + n < sizeBound

instance (c : Codec) (s : Schema) (n : ℕ) : Decidable (c.Admits s n) :=
  inferInstanceAs (Decidable (n ≤ c.maxBody ∧ s.fixedSize + n < sizeBound))

/-- A header is at fault: its length field cannot be read, or is negative, or
says more than the limits admit. -/
inductive HeaderFault (c : Codec) (s : Schema) (head : Bytes) : CodecError → Prop where
  | unreadable {f : Schema.LengthField} {fault : CodecError} :
      s.lengthField? = some f → c.readLength f head = .error fault → HeaderFault c s head fault
  | negative {f : Schema.LengthField} {v : (Scalar.int f.type).Carrier} :
      s.lengthField? = some f → c.readLength f head = .ok v → f.type.value v < 0 →
        HeaderFault c s head
          (.invalidValue (Scalar.int f.type).name "length field is negative")
  | tooLarge {n : ℕ} : c.Announces s head n → ¬ c.Admits s n →
      HeaderFault c s head (.bodyTooLarge n c.maxBody)

theorem bodyLength_eq (c : Codec) (s : Schema) (head : Bytes) :
    c.bodyLength s.header head =
      match s.lengthField? with
      | none => .ok 0
      | some f =>
        match c.readLength f head with
        | .error fault => .error fault
        | .ok v =>
          match f.type.toLength? v with
          | some n => .ok n
          | none => .error (.invalidValue (Scalar.int f.type).name "length field is negative") := by
  unfold bodyLength Schema.lengthField? readLength
  cases Schema.lengthFieldFrom 0 s.header with
  | none => rfl
  | some f =>
    dsimp only
    generalize c.registry.decode f.name _ _ = read
    cases read <;> rfl

theorem bodyLength_eq_ok_iff :
    c.bodyLength s.header head = .ok n ↔ c.Announces s head n := by
  rw [bodyLength_eq]
  constructor
  · intro h
    cases hfield : s.lengthField? with
    | none =>
      simp only [hfield, Except.ok.injEq] at h
      exact h ▸ .nothing hfield
    | some f =>
      cases hread : c.readLength f head with
      | error fault => simp [hfield, hread] at h
      | ok v =>
        cases hlength : f.type.toLength? v with
        | none => simp [hfield, hread, hlength] at h
        | some k =>
          simp only [hfield, hread, hlength, Except.ok.injEq] at h
          exact h ▸ .length hfield hread (IntType.toLength?_eq_some_iff.mp hlength)
  · rintro (hfield | ⟨hfield, hread, hvalue⟩)
    · simp [hfield]
    · simp [hfield, hread, IntType.toLength?_eq_some_iff.mpr hvalue]

/-- **A header announces one number at most.** -/
theorem Announces.unique {m : ℕ} (h : c.Announces s head n) (h' : c.Announces s head m) :
    n = m := by
  rw [← bodyLength_eq_ok_iff] at h h'
  exact Except.ok.inj (h.symm.trans h')

theorem bodyLength_eq_error_iff : c.bodyLength s.header head = .error fault ↔
    (∃ f, s.lengthField? = some f ∧ c.readLength f head = .error fault) ∨
      ∃ f v, s.lengthField? = some f ∧ c.readLength f head = .ok v ∧ f.type.value v < 0 ∧
        fault = .invalidValue (Scalar.int f.type).name "length field is negative" := by
  rw [bodyLength_eq]
  constructor
  · intro h
    cases hfield : s.lengthField? with
    | none => simp [hfield] at h
    | some f =>
      cases hread : c.readLength f head with
      | error cause =>
        simp only [hfield, hread, Except.error.injEq] at h
        exact .inl ⟨f, rfl, h ▸ hread⟩
      | ok v =>
        cases hlength : f.type.toLength? v with
        | some k => simp [hfield, hread, hlength] at h
        | none =>
          simp only [hfield, hread, hlength, Except.error.injEq] at h
          exact .inr ⟨f, v, rfl, hread, IntType.toLength?_eq_none_iff.mp hlength, h.symm⟩
  · rintro (⟨f, hfield, hread⟩ | ⟨f, v, hfield, hread, hvalue, rfl⟩)
    · simp [hfield, hread]
    · simp [hfield, hread, IntType.toLength?_eq_none_iff.mpr hvalue]

theorem frameLength_eq (c : Codec) (s : Schema) (n : ℕ) :
    c.frameLength s.fixedSize n =
      if c.Admits s n then .ok (s.fixedSize + n) else .error (.bodyTooLarge n c.maxBody) := by
  rw [frameLength]
  by_cases h : c.Admits s n
  · have : ¬ (c.maxBody < n ∨ sizeBound ≤ s.fixedSize + n) := by
      obtain ⟨hbody, htotal⟩ := h
      omega
    rw [if_pos h, if_neg this]
  · have : c.maxBody < n ∨ sizeBound ≤ s.fixedSize + n := by
      rw [Admits] at h
      omega
    rw [if_neg h, if_pos this]

/-- **A header tells the length of its frame** exactly if it announces a body
that the limits admit. -/
theorem announced_eq_ok_iff : c.announced s head = .ok total ↔
    ∃ n, c.Announces s head n ∧ c.Admits s n ∧ total = s.fixedSize + n := by
  rw [announced]
  constructor
  · intro h
    split at h
    · cases h
    · next n hn =>
      rw [frameLength_eq] at h
      split_ifs at h with hadmits
      exact ⟨n, bodyLength_eq_ok_iff.mp hn, hadmits, (Except.ok.inj h).symm⟩
  · rintro ⟨n, hn, hadmits, rfl⟩
    rw [bodyLength_eq_ok_iff.mpr hn]
    simp only [frameLength_eq, if_pos hadmits]

/-- **A header cannot be read exactly if it is at fault.** -/
theorem announced_eq_error_iff : c.announced s head = .error fault ↔ c.HeaderFault s head fault := by
  rw [announced]
  constructor
  · intro h
    split at h
    · next cause hcause =>
      obtain rfl := Except.error.inj h
      rcases bodyLength_eq_error_iff.mp hcause with
        ⟨f, hfield, hread⟩ | ⟨f, v, hfield, hread, hvalue, rfl⟩
      · exact .unreadable hfield hread
      · exact .negative hfield hread hvalue
    · next n hn =>
      rw [frameLength_eq] at h
      split_ifs at h with hadmits
      obtain rfl := Except.error.inj h
      exact .tooLarge (bodyLength_eq_ok_iff.mp hn) hadmits
  · rintro (⟨hfield, hread⟩ | ⟨hfield, hread, hvalue⟩ | ⟨hn, hadmits⟩)
    · rw [bodyLength_eq_error_iff.mpr (.inl ⟨_, hfield, hread⟩)]
    · rw [bodyLength_eq_error_iff.mpr (.inr ⟨_, _, hfield, hread, hvalue, rfl⟩)]
    · rw [bodyLength_eq_ok_iff.mpr hn]
      simp only [frameLength_eq, if_neg hadmits]

/-! ## What stands in front -/

/-- What a buffer begins with. -/
inductive Front where
  /-- Less than a frame, with a header that is not at fault as far as it is there. -/
  | short
  /-- A header at fault. -/
  | broken (fault : CodecError)
  /-- A frame of that many bytes. -/
  | frame (total : ℕ)

/-- What a buffer begins with. -/
def front (c : Codec) (s : Schema) (b : Bytes) : Front :=
  if b.length < s.fixedSize then .short
  else
    match c.announced s (b.take s.fixedSize) with
    | .error fault => .broken fault
    | .ok total => if b.length < total then .short else .frame total

/-- **What a buffer begins with decides what taking a frame off it does.** -/
theorem decodeNext_eq (c : Codec) (s : Schema) (b : Bytes) :
    c.decodeNext s b =
      match c.front s b with
      | .short => (.ok none, b)
      | .broken fault => (.error fault, b)
      | .frame total => ((c.decodeFrame s (b.take total)).map some, b.drop total) := by
  rw [decodeNext, front]
  by_cases hlen : b.length < s.fixedSize
  · simp only [if_pos hlen]
  · simp only [if_neg hlen]
    cases c.announced s (b.take s.fixedSize) with
    | error fault => rfl
    | ok total => by_cases hshort : b.length < total <;> simp only [hshort, if_true, if_false]

theorem front_eq_broken_iff : c.front s b = .broken fault ↔
    s.fixedSize ≤ b.length ∧ c.HeaderFault s (b.take s.fixedSize) fault := by
  rw [← announced_eq_error_iff, front]
  split
  · simp only [reduceCtorEq, false_iff]
    omega
  · next hlen =>
    have hle : s.fixedSize ≤ b.length := by omega
    cases c.announced s (b.take s.fixedSize) with
    | error cause => simp [hle]
    | ok total => by_cases hshort : b.length < total <;> simp [hshort]

theorem front_eq_frame_iff : c.front s b = .frame total ↔
    s.fixedSize ≤ b.length ∧ total ≤ b.length ∧
      c.announced s (b.take s.fixedSize) = .ok total := by
  rw [front]
  split
  · simp only [reduceCtorEq, false_iff]
    omega
  · next hlen =>
    have hle : s.fixedSize ≤ b.length := by omega
    cases hann : c.announced s (b.take s.fixedSize) with
    | error cause => simp
    | ok k =>
      by_cases hshort : b.length < k
      · simp only [hshort, if_true, reduceCtorEq, false_iff, Except.ok.injEq]
        omega
      · simp only [hshort, if_false, Front.frame.injEq, Except.ok.injEq]
        omega

theorem front_eq_short_iff : c.front s b = .short ↔
    b.length < s.fixedSize ∨
      ∃ total, c.announced s (b.take s.fixedSize) = .ok total ∧ b.length < total := by
  rw [front]
  split
  · next hlen => simp [hlen]
  · next hlen =>
    cases hann : c.announced s (b.take s.fixedSize) with
    | error cause => simp [hlen]
    | ok k => by_cases hshort : b.length < k <;> simp [hlen, hshort]

/-- **More bytes behind a frame, or behind a header at fault, change nothing in
front.** -/
theorem front_append (h : c.front s b ≠ .short) (more : Bytes) :
    c.front s (b ++ more) = c.front s b := by
  have head (hlen : s.fixedSize ≤ b.length) :
      (b ++ more).take s.fixedSize = b.take s.fixedSize := List.take_append_of_le_length hlen
  have longer : b.length ≤ (b ++ more).length := by
    rw [List.length_append]
    omega
  cases hfront : c.front s b with
  | short => exact absurd hfront h
  | broken fault =>
    obtain ⟨hlen, hfault⟩ := front_eq_broken_iff.mp hfront
    exact front_eq_broken_iff.mpr ⟨Nat.le_trans hlen longer, by rwa [head hlen]⟩
  | frame total =>
    obtain ⟨hlen, htotal, hann⟩ := front_eq_frame_iff.mp hfront
    exact front_eq_frame_iff.mpr
      ⟨Nat.le_trans hlen longer, Nat.le_trans htotal longer, by rwa [head hlen]⟩

end Codec

end FramedDuplex
