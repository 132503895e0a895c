import FramedDuplex.Proofs.Settings.Fields
import FramedDuplex.Proofs.Text.Digits
import FramedDuplex.Proofs.Yaml.Document
/-!
# Settings that were saved

A settings file is written line by line, a line for each field (`fieldLine`). What is
shown of a value is read as that value (`Field.read_shown`), and the lines are read as one
entry each. So settings are read back from their text if their address is one of printable
characters (`ofText?_text`), whether it needs quotes or not.

The address alone is written as a text and may be quoted. Numbers, modes and the word for
no number are words, which stand in a file as they are.
-/

namespace FramedDuplex

open Yaml

/-! ## Numbers in a file -/

section Numbers

variable {cs : List Char}

/-- Digits without zeros in front are a number in base ten. -/
theorem magnitude?_of_isDigit (h : ∀ c ∈ cs, c.isDigit = true) (hzero : hasLeadingZero cs = false) :
    magnitude? cs = Digits.read? 10 cs := by
  have hno {c : Char} (hc : c.isDigit = false) (rest : List Char) : cs ≠ '0' :: c :: rest := by
    rintro rfl
    rw [h c (by simp)] at hc
    cases hc
  rw [magnitude?.eq_def]
  split
  · next rest => exact absurd rfl (hno (by decide) rest)
  · next rest => exact absurd rfl (hno (by decide) rest)
  · next rest => exact absurd rfl (hno (by decide) rest)
  · rw [hzero]
    rfl

theorem hasLeadingZero_toDigits (n : Nat) : hasLeadingZero (Nat.toDigits 10 n) = false := by
  by_cases hn : n = 0
  · subst hn
    decide
  · have hhead := Digits.head?_toDigits_ten (Nat.pos_of_ne_zero hn)
    rw [hasLeadingZero.eq_def]
    split
    · next heq =>
      rw [heq] at hhead
      exact absurd rfl hhead
    · rfl

theorem isDigit_toDigits (n : Nat) : ∀ c ∈ Nat.toDigits 10 n, c.isDigit = true := fun _ hc =>
  Nat.isDigit_of_mem_toDigits (by decide) (by decide) hc

/-- **A number is read back** from a plain scalar. -/
theorem word64?_toString (n : UInt64) : word64? (toString n.toNat) = some n := by
  have hvalue : magnitude? (Nat.toDigits 10 n.toNat) = some n.toNat := by
    rw [magnitude?_of_isDigit (isDigit_toDigits _) (hasLeadingZero_toDigits _),
      Digits.read?_ten_toDigits]
  rw [word64?, Nat.toString_eq_ofList_toDigits, String.toList_ofList]
  split
  · next heq =>
    have hplus := isDigit_toDigits n.toNat '+' (by rw [heq]; exact List.mem_cons_self)
    exact absurd hplus (by decide)
  · rw [hvalue]
    simp [UInt64.toNat_lt n, UInt64.size]

/-- A number is not taken for nothing. -/
theorem isNull_toString (n : Nat) : isNull (toString n) = false := by
  have hdigits := isDigit_toDigits n
  have hne : Nat.toDigits 10 n ≠ [] := Nat.toDigits_ne_nil
  rw [Nat.toString_eq_ofList_toDigits]
  generalize Nat.toDigits 10 n = cs at hdigits hne
  have hempty : String.ofList cs ≠ "" := by
    intro heq
    rw [← String.toList_inj, String.toList_ofList] at heq
    exact hne heq
  have hword {text : String} (h : text.toList.all Char.isDigit = false) :
      String.ofList cs ≠ text := by
    rintro rfl
    rw [String.toList_ofList, List.all_eq_true.mpr hdigits] at h
    cases h
  have hnull : String.ofList cs ≠ "null" := hword (by decide)
  have hNull : String.ofList cs ≠ "Null" := hword (by decide)
  have hNULL : String.ofList cs ≠ "NULL" := hword (by decide)
  have htilde : String.ofList cs ≠ "~" := hword (by decide)
  simp [isNull, isNullWord, hempty, hnull, hNull, hNULL, htilde]

end Numbers

namespace Settings

namespace Field

/-! ## Lines of fields -/

/-- What is shown of a field in a file. -/
def shown : (f : Field) → f.Value → String
  | addr, text => text
  | connectTimeout, n | readBuffer, n | stagingCapacity, n | maxBody, n | shutdownTimeout, n =>
    toString n.toNat
  | receiveTimeout, n | sendQueue, n => numberOrNull n
  | pipeMode, mode => mode.name

/-- The form in which a field is written. -/
def form : (f : Field) → f.Value → Form
  | addr, text => .for text
  | _, _ => .plain

/-- The fields in the order of a file. -/
def inFile : List Field :=
  [addr, connectTimeout, receiveTimeout, readBuffer, stagingCapacity, sendQueue, maxBody,
    shutdownTimeout, pipeMode]

/-- **What is shown of a value is read as that value.** -/
theorem read_shown (f : Field) (value : f.Value) :
    f.read (.scalar none (f.form value) (f.shown value)) = some value := by
  have number (n : UInt64) : Node.number? (.scalar none .plain (toString n.toNat)) = some n :=
    word64?_toString n
  have optional (n : Option UInt64) :
      Node.numberOrNull? (.scalar none .plain (numberOrNull n)) = some n := by
    cases n with
    | none => rfl
    | some n =>
      have hshown : numberOrNull (some n) = toString n.toNat := rfl
      rw [hshown, Node.numberOrNull?, isNull_toString, if_neg Bool.false_ne_true, word64?_toString]
      rfl
  cases f with
  | addr => rfl
  | connectTimeout => exact number value
  | receiveTimeout => exact optional value
  | readBuffer => exact number value
  | stagingCapacity => exact number value
  | sendQueue => exact optional value
  | maxBody => exact number value
  | shutdownTimeout => exact number value
  | pipeMode => cases value <;> rfl

/-- What is shown of any field but an address is a word. -/
theorem isWordPart_shown {f : Field} (hf : f ≠ addr) (value : f.Value) :
    (f.shown value).toList ≠ [] ∧ (f.shown value).toList.all isWordPart = true := by
  have number (n : UInt64) : (toString n.toNat).toList ≠ [] ∧
      (toString n.toNat).toList.all isWordPart = true := by
    rw [Nat.toString_eq_ofList_toDigits, String.toList_ofList, List.all_eq_true]
    refine ⟨Nat.toDigits_ne_nil, fun c hc => ?_⟩
    simp [isWordPart, Char.isAlphanum, isDigit_toDigits _ c hc]
  have optional (n : Option UInt64) : (numberOrNull n).toList ≠ [] ∧
      (numberOrNull n).toList.all isWordPart = true := by
    cases n with
    | none => decide
    | some n => exact number n
  cases f with
  | addr => exact absurd rfl hf
  | connectTimeout => exact number value
  | receiveTimeout => exact optional value
  | readBuffer => exact number value
  | stagingCapacity => exact number value
  | sendQueue => exact optional value
  | maxBody => exact number value
  | shutdownTimeout => exact number value
  | pipeMode => cases value <;> decide

theorem form_of_ne {f : Field} (hf : f ≠ addr) (value : f.Value) : f.form value = .plain := by
  cases f <;> first | rfl | exact absurd rfl hf

end Field

section Lines

variable {s : Settings} (h : ∀ c ∈ s.addr.toList, isPrintable c = true)

include h

/-- Every field is written in a form that what is shown of it fits. -/
theorem fits_shown (f : Field) : Fits (f.form (f.get s)) (f.shown (f.get s)).toList := by
  by_cases hf : f = .addr
  · subst hf
    exact fits_for h
  · obtain ⟨hne, hword⟩ := f.isWordPart_shown hf (f.get s)
    rw [f.form_of_ne hf]
    exact .plain (plainText_of_isWordPart hne (List.all_eq_true.mp hword))

omit h in
theorem isWordPart_key (f : Field) :
    f.key.toList ≠ [] ∧ f.key.toList.all isWordPart = true ∧
      f.key.toList.length ≤ keyLimit := by
  cases f <;> decide

/-- **The line of a field** in a file. -/
def fieldLine (f : Field) : Line where
  name := f.key
  form := f.form (f.get s)
  text := f.shown (f.get s)
  nonempty := (isWordPart_key f).1
  word := List.all_eq_true.mp (isWordPart_key f).2.1
  short := (isWordPart_key f).2.2
  fits := fits_shown h f

theorem chars_fieldLine_addr :
    (fieldLine h .addr).chars = "addr: ".toList ++ (scalarLine s.addr).toList := by
  have hkey : "addr: ".toList = "addr".toList ++ [':', ' '] := by decide
  rw [toList_scalarLine h, hkey, List.append_assoc]
  rfl

theorem chars_fieldLine {f : Field} (hf : f ≠ .addr) :
    (fieldLine h f).chars = (line f.key (f.shown (f.get s))).toList := by
  have hform : (fieldLine h f).form = .plain := f.form_of_ne hf (f.get s)
  have htext : (fieldLine h f).text = f.shown (f.get s) := rfl
  have hname : (fieldLine h f).name = f.key := rfl
  rw [Line.chars, htext, hname, hform]
  simp [line, Form.write, String.toList_append]

/-- **A settings file is the lines of its fields.** -/
theorem text_eq : s.text = String.ofList ((Field.inFile.map (fieldLine h)).flatMap Line.chars) := by
  rw [← String.toList_inj, String.toList_ofList]
  -- the text is one long chain of strings, which its equation takes long to unfold
  delta text
  simp only [String.toList_append, Field.inFile, List.map_cons, List.map_nil, List.flatMap_cons,
    List.flatMap_nil, List.append_nil, List.append_assoc, chars_fieldLine_addr]
  rw [chars_fieldLine h (by decide), chars_fieldLine h (by decide), chars_fieldLine h (by decide),
    chars_fieldLine h (by decide), chars_fieldLine h (by decide), chars_fieldLine h (by decide),
    chars_fieldLine h (by decide), chars_fieldLine h (by decide)]
  rfl

end Lines

/-! ## What is read from a file -/

/-- A name among entries with distinct names stands there once. -/
theorem under_of_mem {α : Type} {entries : List (String × Node)} {name : String} {node : Node}
    {read : Node → Option α} {value : α} (hdistinct : (entries.map Prod.fst).Nodup)
    (hmem : (name, node) ∈ entries) (hread : read node = some value) :
    Under entries name read value := by
  obtain ⟨before, after, rfl⟩ := List.append_of_mem hmem
  refine ⟨before, node, after, rfl, ?_, hread⟩
  rw [List.map_append, List.map_cons, List.nodup_append, List.nodup_cons] at hdistinct
  obtain ⟨-, ⟨hafter, -⟩, hbefore⟩ := hdistinct
  intro e he heq
  rcases List.mem_append.mp he with he | he
  · exact hbefore e.1 (List.mem_map_of_mem he) name List.mem_cons_self heq
  · have hthere : e.1 ∈ after.map Prod.fst := List.mem_map_of_mem he
    rw [heq] at hthere
    exact hafter hthere

/-- **Settings are read back from their text.** -/
theorem ofText?_text {s : Settings} (h : ∀ c ∈ s.addr.toList, isPrintable c = true) :
    ofText? s.text = some s := by
  rw [ofText?_eq_some_iff]
  refine ⟨(Field.inFile.map (fieldLine h)).map Line.entry, ?_, fun f => .stands ?_⟩
  · rw [entries?, text_eq h]
    exact entries?_lines _ _
  · have hdistinct : (((Field.inFile.map (fieldLine h)).map Line.entry).map Prod.fst).Nodup := by
      have hkeys : ((Field.inFile.map (fieldLine h)).map Line.entry).map Prod.fst =
          Field.inFile.map Field.key := rfl
      rw [hkeys]
      decide
    have hmem : f ∈ Field.inFile := by cases f <;> decide
    exact under_of_mem hdistinct (List.mem_map_of_mem (List.mem_map_of_mem hmem))
      (f.read_shown (f.get s))

/-! ## Saving and loading -/

/-- The files there are once a text was written at a path. -/
def stored (files : String → Except String String) (path text : String) :
    String → Except String String :=
  Function.update files path (.ok text)

/-- **Settings survive saving and loading.** If the address consists of printable characters
of ASCII, saving succeeds where a text can be written, and loading the file that it leaves
gives the same settings. -/
theorem ofFile_of_save (s : Settings) (h : ∀ c ∈ s.addr.toList, ' ' ≤ c ∧ c ≤ '~') :
    ofText? s.text = some s ∧
      ∀ (files : String → Except String String) (path : String), ∃ files',
        s.save (fun path text => .ok (stored files path text)) path = .ok files' ∧
          ofFile files' path = .ok s := by
  have hprintable : ∀ c ∈ s.addr.toList, isPrintable c = true := by
    intro c hc
    obtain ⟨hlow, hhigh⟩ := h c hc
    simp only [isPrintable, hlow, hhigh, decide_true, Bool.and_true]
  have hback : ofText? s.text = some s := ofText?_text hprintable
  refine ⟨hback, fun files path => ⟨stored files path s.text, rfl, ?_⟩⟩
  have hthere : stored files path s.text path = .ok s.text := Function.update_self path _ files
  simp only [ofFile, hthere, hback]

/-- Settings with an address that has to be quoted: it begins like an item, and has a quote,
a colon before a blank, and a hash behind one. -/
def awkward : Settings :=
  { standard with
    addr := "- it\x27s: #5 ", receiveTimeout := none, sendQueue := some 18446744073709551615 }

theorem ofFile_of_save_awkward :
    (∀ c ∈ awkward.addr.toList, ' ' ≤ c ∧ c ≤ '~') ∧
      scalarLine awkward.addr = "\x27- it\x27\x27s: #5 \x27\n" ∧
      ofText? awkward.text = some awkward ∧
      ∃ files', awkward.save (fun path text =>
          .ok (stored (fun _ => .error "no such file") path text)) "settings.yaml" = .ok files' ∧
        ofFile files' "settings.yaml" = .ok awkward := by
  have hall : awkward.addr.toList.all (fun c => ' ' ≤ c && c ≤ '~') = true := by decide
  have hprintable : ∀ c ∈ awkward.addr.toList, ' ' ≤ c ∧ c ≤ '~' := by
    simpa only [List.all_eq_true, Bool.and_eq_true, decide_eq_true_eq] using hall
  obtain ⟨hback, hfiles⟩ := ofFile_of_save awkward hprintable
  exact ⟨hprintable, by decide, hback, hfiles (fun _ => .error "no such file") "settings.yaml"⟩

end Settings

end FramedDuplex
