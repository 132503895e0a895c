import FramedDuplex.Settings.Overrides
import FramedDuplex.Proofs.Text.Ascii
import FramedDuplex.Proofs.Text.Digits
import Mathlib.Data.List.TakeWhile
/-!
# What the texts of variables say

A variable says a number in digits, with blanks around them and a plus sign in front or
without (`SaysNumber`), or it names a pipe mode in letters of either case (`SaysMode`).
Such texts are read as what they say and all others are refused
(`Settings.readNumber_eq_ok_iff`, `PipeMode.read_eq_ok_iff`).
-/

namespace FramedDuplex

/-! ## Blanks at the ends -/

section Trimmed

variable {text : String} {before core after : List Char}

/-- Nothing but blanks is taken off a text. -/
theorem exists_trimmed (text : String) :
    ∃ before after, text.toList = before ++ trimmed text ++ after ∧
      (∀ c ∈ before, isWhite c = true) ∧ ∀ c ∈ after, isWhite c = true := by
  set rest := text.toList.dropWhile isWhite with hrest
  refine ⟨text.toList.takeWhile isWhite, (rest.reverse.takeWhile isWhite).reverse, ?_, ?_, ?_⟩
  · have back : trimmed text ++ (rest.reverse.takeWhile isWhite).reverse = rest := by
      rw [trimmed, ← List.reverse_append, List.takeWhile_append_dropWhile, List.reverse_reverse]
    rw [List.append_assoc, back, hrest, List.takeWhile_append_dropWhile]
  · intro c hc
    exact List.mem_takeWhile_imp hc
  · intro c hc
    exact List.mem_takeWhile_imp (List.mem_reverse.mp hc)

/-- **Blanks around a text are taken off**, if it neither begins nor ends with one. -/
theorem trimmed_eq_of_append (htext : text.toList = before ++ core ++ after)
    (hbefore : ∀ c ∈ before, isWhite c = true) (hafter : ∀ c ∈ after, isWhite c = true)
    (hhead : ∃ c ∈ core.head?, isWhite c = false) (hlast : ∃ c ∈ core.getLast?, isWhite c = false) :
    trimmed text = core := by
  obtain ⟨first, hfirst, hshown⟩ := hhead
  obtain ⟨last, hlast, hshown'⟩ := hlast
  obtain ⟨tail, rfl⟩ : ∃ tail, core = first :: tail := by
    cases core with
    | nil => simp at hfirst
    | cons c tail => exact ⟨tail, by simpa using hfirst⟩
  have front : text.toList.dropWhile isWhite = first :: tail ++ after := by
    rw [htext, List.append_assoc, List.dropWhile_append_of_pos hbefore, List.cons_append,
      List.dropWhile_cons_of_neg (by simp [hshown])]
  obtain ⟨init, hinit⟩ : ∃ init, (first :: tail).reverse = last :: init := by
    rw [List.getLast?_eq_head?_reverse] at hlast
    cases hrev : (first :: tail).reverse with
    | nil => simp at hrev
    | cons c init =>
      rw [hrev] at hlast
      exact ⟨init, by simpa using hlast⟩
  have hafter' : ∀ c ∈ after.reverse, isWhite c = true := fun c hc =>
    hafter c (List.mem_reverse.mp hc)
  rw [trimmed, front, List.reverse_append, List.dropWhile_append_of_pos hafter', hinit,
    List.dropWhile_cons_of_neg (by simp [hshown']), ← hinit, List.reverse_reverse]

end Trimmed

/-! ## Numbers -/

/-- **A text says a number**: blanks, perhaps a plus sign, digits in base ten, blanks. -/
def SaysNumber (text : String) (n : UInt64) : Prop :=
  ∃ before sign digits after : List Char, text.toList = before ++ (sign ++ digits) ++ after ∧
    (∀ c ∈ before, isWhite c = true) ∧ (∀ c ∈ after, isWhite c = true) ∧
    (sign = [] ∨ sign = ['+']) ∧ digits ≠ [] ∧ (∀ c ∈ digits, c.isDigit = true) ∧
    Nat.ofDigitChars 10 digits 0 = n.toNat

/-- A digit is no blank. -/
theorem isWhite_of_isDigit {c : Char} (h : c.isDigit = true) : isWhite c = false := by
  have hc : c.toNat = c.val.toNat := rfl
  simp only [Char.isDigit, Bool.and_eq_true, decide_eq_true_eq, UInt32.le_iff_toNat_le] at h
  have h0 : '0'.val.toNat = 48 := rfl
  have h9 : '9'.val.toNat = 57 := rfl
  have other {d : Char} (hd : d.val.toNat < 48 ∨ 57 < d.val.toNat) : c ≠ d := by
    rintro rfl
    omega
  have apart {low high : Char} (hd : 57 < low.val.toNat ∨ high.val.toNat < 48) :
      ¬(low ≤ c ∧ c ≤ high) := by
    simp only [Char.le_def, UInt32.le_iff_toNat_le]
    omega
  simp only [isWhite, Bool.or_eq_false_iff, Bool.and_eq_false_iff, decide_eq_false_iff_not]
  and_intros
  all_goals first
    | exact other (by decide)
    | exact not_and_or.mp (apart (by decide))

theorem isWhite_plus : isWhite '+' = false := by decide

namespace Settings

variable {name value : String} {n : UInt64}

/-- What is read as a number. -/
theorem below?_trimmed_eq_some_iff {m : Nat} :
    Digits.below? UInt64.size (trimmed value) = some m ↔
      ∃ n : UInt64, n.toNat = m ∧ SaysNumber value n := by
  rw [Digits.below?_eq_some_iff]
  constructor
  · rintro ⟨sign, digits, hcore, hsign, hne, hdigits, hvalue, hlt⟩
    obtain ⟨before, after, htext, hbefore, hafter⟩ := exists_trimmed value
    have hback : (UInt64.ofNat m).toNat = m := by
      rw [UInt64.toNat_ofNat']
      exact Nat.mod_eq_of_lt hlt
    rw [hcore] at htext
    exact ⟨.ofNat m, hback, before, sign, digits, after, htext, hbefore, hafter, hsign, hne,
      hdigits, hvalue.trans hback.symm⟩
  · rintro ⟨n, rfl, before, sign, digits, after, htext, hbefore, hafter, hsign, hne, hdigits,
      hvalue⟩
    have hcore : trimmed value = sign ++ digits := by
      refine trimmed_eq_of_append htext hbefore hafter ?_ ?_
      · rcases hsign with rfl | rfl
        · obtain ⟨c, tail, rfl⟩ := List.exists_cons_of_ne_nil hne
          exact ⟨c, rfl, isWhite_of_isDigit (hdigits c List.mem_cons_self)⟩
        · exact ⟨'+', rfl, isWhite_plus⟩
      · rw [List.getLast?_append, List.getLast?_eq_some_getLast hne, Option.some_or]
        exact ⟨_, rfl, isWhite_of_isDigit (hdigits _ (List.getLast_mem hne))⟩
    exact ⟨sign, digits, hcore, hsign, hne, hdigits, hvalue, n.toNat_lt⟩

/-- **A variable is read as the number that it says.** -/
theorem readNumber_eq_ok_iff : readNumber name value = .ok n ↔ SaysNumber value n := by
  rw [readNumber]
  cases hread : Digits.below? UInt64.size (trimmed value) with
  | none =>
    simp only [reduceCtorEq, false_iff]
    intro hsaid
    rw [below?_trimmed_eq_some_iff.mpr ⟨n, rfl, hsaid⟩] at hread
    cases hread
  | some m =>
    obtain ⟨k, rfl, hk⟩ := below?_trimmed_eq_some_iff.mp hread
    simp only [UInt64.ofNat_toNat, Except.ok.injEq]
    constructor
    · rintro rfl
      exact hk
    · intro hsaid
      rw [below?_trimmed_eq_some_iff.mpr ⟨n, rfl, hsaid⟩] at hread
      exact UInt64.toNat_inj.mp (Option.some.inj hread).symm

/-- A variable that says no number is refused. -/
theorem readNumber_eq_error_iff {fault : ConfigError} :
    readNumber name value = .error fault ↔
      (¬∃ n, SaysNumber value n) ∧ fault = .invalid s!"{name} has invalid value '{value}'" := by
  cases hread : readNumber name value with
  | ok n =>
    simp only [reduceCtorEq, false_iff, not_and]
    intro hnone
    exact absurd ⟨n, readNumber_eq_ok_iff.mp hread⟩ hnone
  | error found =>
    have hnone : ¬∃ n, SaysNumber value n := by
      rintro ⟨n, hn⟩
      rw [readNumber_eq_ok_iff.mpr hn] at hread
      cases hread
    have hfound : found = .invalid s!"{name} has invalid value '{value}'" := by
      rw [readNumber] at hread
      split at hread
      · cases hread
      · exact (Except.error.inj hread).symm
    simp only [Except.error.injEq, hnone, not_false_eq_true, true_and, hfound]
    exact eq_comm

end Settings

/-! ## Modes -/

/-- **A text names a mode**, in letters of either case. -/
def SaysMode (text : String) (mode : PipeMode) : Prop :=
  List.Forall₂ (fun c small => c = small ∨ c = small.toUpper) text.toList mode.name.toList

/-- A text in small letters. -/
def lowered (text : String) : String := String.ofList (text.toList.map (·.toLower))

namespace PipeMode

variable {text : String} {mode : PipeMode}

theorem ofName?_eq_some_iff {name : String} : ofName? name = some mode ↔ name = mode.name := by
  rw [ofName?]
  cases mode <;> by_cases hs : name = "staged" <;> by_cases hd : name = "direct" <;>
    simp_all [PipeMode.name]

theorem isLower_name (mode : PipeMode) : ∀ c ∈ mode.name.toList, c.isLower = true := by
  have hall : mode.name.toList.all (·.isLower) = true := by
    cases mode <;> decide
  exact List.all_eq_true.mp hall

/-- In small letters a text that names a mode is its name. -/
theorem lowered_eq_name_iff : lowered text = mode.name ↔ SaysMode text mode := by
  rw [SaysMode, ← map_toLower_eq_iff mode.isLower_name, lowered, ← String.toList_inj,
    String.toList_ofList]

/-- **A variable is read as the mode that it names.** -/
theorem read_eq_ok_iff : PipeMode.read text = .ok mode ↔ SaysMode text mode := by
  rw [← lowered_eq_name_iff, ← ofName?_eq_some_iff, PipeMode.read, ← lowered]
  cases PipeMode.ofName? (lowered text) <;> simp

/-- A variable that names no mode is refused. -/
theorem read_eq_error_iff {fault : ConfigError} :
    PipeMode.read text = .error fault ↔
      (¬∃ mode, SaysMode text mode) ∧ fault = .invalid s!"unknown pipe mode '{lowered text}'" := by
  simp only [← lowered_eq_name_iff, ← ofName?_eq_some_iff]
  rw [PipeMode.read, ← lowered]
  cases PipeMode.ofName? (lowered text) <;> simp [eq_comm]

end PipeMode

end FramedDuplex
