import FramedDuplex.Text.Digits
/-!
# Numbers in base ten

Digits in base ten are read as the number that they stand for, and nothing else is read
(`Digits.read?_ten_eq_some_iff`). So the digits in which a number is written give that
number back. Where a plus sign may stand in front, it may stand there once.
-/

namespace FramedDuplex

namespace Digits

variable {c : Char} {cs : List Char} {n acc : Nat}

/-- In base ten a letter is no digit. -/
theorem digit?_ten_eq_some_iff :
    digit? 10 c = some n ↔ c.isDigit = true ∧ c.toNat - '0'.toNat = n := by
  by_cases hdigit : c.isDigit = true
  · have hlow : c.toNat - '0'.toNat < 10 := by
      simp only [Char.isDigit, Bool.and_eq_true, decide_eq_true_eq, UInt32.le_iff_toNat_le] at hdigit
      have hc : c.toNat = c.val.toNat := rfl
      have h0 : '0'.toNat = 48 := rfl
      have h9 : '9'.val.toNat = 57 := rfl
      omega
    simp only [digit?, hdigit, if_true, true_and, Option.filter_some, hlow, decide_true,
      Option.some.injEq]
  · have large (value : Nat) : Option.filter (· < 10) (some (value + 10)) = none := by simp
    simp only [digit?, hdigit, Bool.false_eq_true, if_false, false_and, iff_false]
    split
    · simp only [large, reduceCtorEq, not_false_eq_true]
    · split
      · simp only [large, reduceCtorEq, not_false_eq_true]
      · simp

/-- Reading on in digits. -/
theorem foldlM_digit?_eq_some_iff :
    cs.foldlM (fun n c => (digit? 10 c).map (10 * n + ·)) acc = some n ↔
      (∀ c ∈ cs, c.isDigit = true) ∧ Nat.ofDigitChars 10 cs acc = n := by
  induction cs generalizing acc with
  | nil => simp [Nat.ofDigitChars]
  | cons c cs ih =>
    rw [List.foldlM_cons, Nat.ofDigitChars_cons, List.forall_mem_cons]
    by_cases hdigit : c.isDigit = true
    · have value : digit? 10 c = some (c.toNat - '0'.toNat) :=
        digit?_ten_eq_some_iff.mpr ⟨hdigit, rfl⟩
      rw [value]
      simp only [hdigit, true_and]
      exact ih
    · have none : digit? 10 c = none := by
        rw [Option.eq_none_iff_forall_ne_some]
        intro value hvalue
        exact hdigit (digit?_ten_eq_some_iff.mp hvalue).1
      simp [none, hdigit]

/-- **What is read in base ten** is one digit or more, and the number that they stand for. -/
theorem read?_ten_eq_some_iff :
    read? 10 cs = some n ↔
      cs ≠ [] ∧ (∀ c ∈ cs, c.isDigit = true) ∧ Nat.ofDigitChars 10 cs 0 = n := by
  rw [read?]
  cases cs with
  | nil => simp
  | cons c cs =>
    rw [List.isEmpty_cons, if_neg Bool.false_ne_true, foldlM_digit?_eq_some_iff]
    simp

/-- **A number is read back from its digits.** -/
@[simp] theorem read?_ten_toDigits (n : Nat) : read? 10 (Nat.toDigits 10 n) = some n := by
  rw [read?_ten_eq_some_iff]
  refine ⟨Nat.toDigits_ne_nil, fun c hc => ?_, Nat.ofDigitChars_ten_toDigits⟩
  exact Nat.isDigit_of_mem_toDigits (by decide) (by decide) hc

/-- A number that is not zero is written without zeros in front. -/
theorem head?_toDigits_ten (h : 0 < n) : (Nat.toDigits 10 n).head? ≠ some '0' := by
  induction n using Nat.strongRecOn with
  | ind n ih =>
    by_cases hlow : n < 10
    · have hdigit : ∀ m < 10, 0 < m → m.digitChar ≠ '0' := by decide
      rw [Nat.toDigits_of_lt_base hlow, List.head?_cons, ne_eq, Option.some.injEq]
      exact hdigit n hlow h
    · have hfewer : n / 10 < n := by omega
      have hpos : 0 < n / 10 := by omega
      obtain ⟨c, rest, hdigits⟩ := List.exists_cons_of_ne_nil
        (Nat.toDigits_ne_nil : Nat.toDigits 10 (n / 10) ≠ [])
      have hfront := ih (n / 10) hfewer hpos
      rw [hdigits] at hfront
      rw [Nat.toDigits_of_base_le (by decide) (by omega), hdigits]
      exact hfront

/-- **A number below a bound** is digits with a plus sign in front or without. -/
theorem below?_eq_some_iff {bound : Nat} :
    below? bound cs = some n ↔
      ∃ sign digits, cs = sign ++ digits ∧ (sign = [] ∨ sign = ['+']) ∧ digits ≠ [] ∧
        (∀ c ∈ digits, c.isDigit = true) ∧ Nat.ofDigitChars 10 digits 0 = n ∧ n < bound := by
  have reads (digits : List Char) : ((read? 10 digits).filter (· < bound)) = some n ↔
      digits ≠ [] ∧ (∀ c ∈ digits, c.isDigit = true) ∧ Nat.ofDigitChars 10 digits 0 = n ∧
        n < bound := by
    rw [Option.filter_eq_some_iff, read?_ten_eq_some_iff, decide_eq_true_eq]
    simp only [and_assoc]
  rw [below?.eq_def]
  split
  · next rest =>
    rw [reads]
    constructor
    · intro h
      exact ⟨['+'], rest, rfl, .inr rfl, h⟩
    · rintro ⟨sign, digits, hcs, hsign, hne, hdigits, h⟩
      rcases hsign with rfl | rfl
      · -- a plus sign is no digit
        have hplus := hdigits '+' (by simp only [List.nil_append] at hcs; simp [← hcs])
        exact absurd hplus (by decide)
      · obtain rfl : rest = digits := by simpa using hcs
        exact ⟨hne, hdigits, h⟩
  · next hplus =>
    rw [reads]
    constructor
    · intro h
      exact ⟨[], cs, rfl, .inl rfl, h⟩
    · rintro ⟨sign, digits, rfl, hsign, h⟩
      rcases hsign with rfl | rfl
      · exact h
      · exact absurd rfl (hplus digits)

end Digits

end FramedDuplex
