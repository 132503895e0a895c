import Mathlib.Data.List.Forall2
/-!
# Letters of ASCII

Letters by their numbers, and what changing their case does to these: a small letter lies
thirty-two behind the capital one. So there are two characters that become a given small
letter (`toLower_eq_iff`), and two ways to write each letter of a word
(`map_toLower_eq_iff`).
-/

namespace FramedDuplex

variable {c small : Char}

/-- Capital letters by their numbers. -/
theorem isUpper_iff : c.isUpper = true ↔ 65 ≤ c.toNat ∧ c.toNat ≤ 90 := by
  have hrange : c.isUpper = decide (c.val ≥ 'A'.val ∧ c.val ≤ 'Z'.val) := rfl
  rw [hrange, decide_eq_true_eq]
  exact Iff.rfl

/-- Small letters by their numbers. -/
theorem isLower_iff : c.isLower = true ↔ 97 ≤ c.toNat ∧ c.toNat ≤ 122 := by
  have hrange : c.isLower = (decide (c.val ≥ 'a'.val) && decide (c.val ≤ 'z'.val)) := rfl
  rw [hrange, Bool.and_eq_true, decide_eq_true_eq, decide_eq_true_eq]
  exact Iff.rfl

/-- Letters and digits by their numbers. -/
theorem isAlphanum_iff :
    c.isAlphanum = true ↔ (65 ≤ c.toNat ∧ c.toNat ≤ 90) ∨ (97 ≤ c.toNat ∧ c.toNat ≤ 122) ∨
      (48 ≤ c.toNat ∧ c.toNat ≤ 57) := by
  have hkinds : c.isAlphanum = ((c.isUpper || c.isLower) || c.isDigit) := rfl
  have hdigit : c.isDigit = true ↔ 48 ≤ c.toNat ∧ c.toNat ≤ 57 := Char.isDigit_iff_toNat
  rw [hkinds, Bool.or_eq_true, Bool.or_eq_true, isUpper_iff, isLower_iff, hdigit, or_assoc]

/-- The small letter of a capital one. -/
theorem toNat_toLower (h : c.isUpper = true) : c.toLower.toNat = c.toNat + 32 := by
  have hbounds := isUpper_iff.mp h
  have hdistance : ('a'.val - 'A'.val).toNat = 32 := rfl
  have hc : c.toNat = c.val.toNat := rfl
  have hlower : c.toLower = _ := dif_pos hbounds
  rw [hlower, Char.toNat]
  simp only [UInt32.toNat_add, hdistance]
  omega

/-- A character that is no capital letter stays. -/
theorem toLower_of_not_isUpper (h : c.isUpper = false) : c.toLower = c :=
  dif_neg (of_decide_eq_false h)

/-- The capital letter of a small one. -/
theorem toNat_toUpper (h : small.isLower = true) : small.toUpper.toNat = small.toNat - 32 := by
  have hbounds := isLower_iff.mp h
  have hdistance : ('A'.val - 'a'.val).toNat = 2 ^ 32 - 32 := rfl
  have hc : small.toNat = small.val.toNat := rfl
  have hupper : small.toUpper = _ := dif_pos hbounds
  rw [hupper, Char.toNat]
  simp only [UInt32.toNat_add, hdistance]
  omega

/-- **A character becomes a small letter** if it is that letter in either case. -/
theorem toLower_eq_iff (h : small.isLower = true) :
    c.toLower = small ↔ c = small ∨ c = small.toUpper := by
  have hsmall := isLower_iff.mp h
  have hcapital := toNat_toUpper h
  rw [← Char.toNat_inj, ← Char.toNat_inj, ← Char.toNat_inj, hcapital]
  cases hc : c.isUpper with
  | true =>
    have hbounds := isUpper_iff.mp hc
    rw [toNat_toLower hc]
    omega
  | false =>
    have hbounds : ¬(65 ≤ c.toNat ∧ c.toNat ≤ 90) := by
      rw [← isUpper_iff, hc]
      exact Bool.false_ne_true
    rw [toLower_of_not_isUpper hc]
    omega

/-- **A text becomes a word in small letters** if it is that word with letters in either
case. -/
theorem map_toLower_eq_iff {cs smalls : List Char} (h : ∀ c ∈ smalls, c.isLower = true) :
    cs.map Char.toLower = smalls ↔
      List.Forall₂ (fun c small => c = small ∨ c = small.toUpper) cs smalls := by
  induction smalls generalizing cs with
  | nil => simp
  | cons small smalls ih =>
    cases cs with
    | nil => simp
    | cons c cs =>
      rw [List.map_cons, List.cons.injEq, List.forall₂_cons,
        toLower_eq_iff (h small List.mem_cons_self),
        ih fun c hc => h c (List.mem_cons_of_mem _ hc)]

end FramedDuplex
