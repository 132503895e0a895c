import FramedDuplex.Yaml.Style
import FramedDuplex.Yaml.Scalar
import FramedDuplex.Proofs.Text.Ascii
/-!
# Scalars of one line

A text of printable characters is written in one line, plain or in single quotes. Which
of the two is for `needsQuotes` to say, and the readers have rules of their own for where a
plain scalar ends. `PlainText` is where the two meet: what needs no quotes is such a text
(`plainText_of_needsQuotes`), and the reader of plain scalars reads one to its end and no
further (`plain_append`). In single quotes every text is read back
(`singleQuoted_quoteLines`).
-/

namespace FramedDuplex

namespace Yaml

/-! ## Characters -/

/-- Whether a character is one of ASCII that is printed. -/
def isPrintable (c : Char) : Bool := ' ' ≤ c && c ≤ '~'

/-- Whether a character may stand in a word: a letter, a digit or an underscore. -/
def isWordPart (c : Char) : Bool := c.isAlphanum || c = '_'

section Characters

variable {c : Char}

/-- Printable characters by their numbers. -/
theorem isPrintable_iff : isPrintable c = true ↔ 32 ≤ c.toNat ∧ c.toNat ≤ 126 := by
  simp only [isPrintable, Bool.and_eq_true, decide_eq_true_eq, Char.le_def, UInt32.le_iff_toNat_le]
  rfl

/-- A character by its number is no printable one. -/
theorem ne_of_isPrintable {d : Char} (h : isPrintable c = true) (hd : isPrintable d = false) :
    c ≠ d := by
  rintro rfl
  rw [h] at hd
  cases hd

theorem isBreak_of_isPrintable (h : isPrintable c = true) : isBreak c = false := by
  simp only [isBreak, Bool.or_eq_false_iff, decide_eq_false_iff_not]
  exact ⟨⟨ne_of_isPrintable h (by decide), ne_of_isPrintable h (by decide)⟩,
    ne_of_isPrintable h (by decide)⟩

/-- The space is the only blank that is printable. -/
theorem isBlank_of_isPrintable (h : isPrintable c = true) : isBlank c = decide (c = ' ') := by
  have htab : c ≠ '\t' := ne_of_isPrintable h (by decide)
  simp only [isBlank, htab, decide_false, Bool.or_false]

theorem isSpace_of_isPrintable (h : isPrintable c = true) : isSpace c = decide (c = ' ') := by
  have hreturn : c ≠ '\r' := ne_of_isPrintable h (by decide)
  have hnext : c ≠ '\u0085' := ne_of_isPrintable h (by decide)
  have hzero : c ≠ '\x00' := ne_of_isPrintable h (by decide)
  simp only [isSpace, isBlank_of_isPrintable h, isBreak_of_isPrintable h, hreturn, hnext, hzero,
    decide_false, Bool.or_false]

theorem isShown_of_isPrintable (h : isPrintable c = true) : isShown c = true := by
  have hbetween : (' ' ≤ c && c ≤ '~') = true := h
  simp only [isShown, hbetween, Bool.or_true, Bool.true_or]

theorem isLegal_of_isPrintable (h : isPrintable c = true) : isLegal c = true := by
  have hbetween : (' ' ≤ c && c ≤ '~') = true := h
  simp only [isLegal, hbetween, Bool.or_true, Bool.true_or]

/-- A printable character takes one byte and one column. -/
theorem past_of_isPrintable (h : isPrintable c = true) (p : Place) :
    p.past c = ⟨p.index + 1, p.line, p.column + 1⟩ := by
  have hsize : c.utf8Size = 1 := by
    rw [Char.utf8Size, if_pos]
    have := (isPrintable_iff.mp h).2
    simp only [UInt32.le_iff_toNat_le]
    exact Nat.le_trans this (by decide)
  simp only [Place.past, hsize, isBreak_of_isPrintable h, Bool.false_eq_true, if_false]

/-- **Printable characters are passed** in their line, one byte each. -/
theorem pastAll_of_isPrintable {cs : List Char} (h : ∀ c ∈ cs, isPrintable c = true) (p : Place) :
    p.pastAll cs = ⟨p.index + cs.length, p.line, p.column + cs.length⟩ := by
  induction cs generalizing p with
  | nil => rfl
  | cons c cs ih =>
    rw [Place.pastAll, List.foldl_cons, ← Place.pastAll, past_of_isPrintable (h c List.mem_cons_self),
      ih fun c hc => h c (List.mem_cons_of_mem _ hc)]
    simp only [List.length_cons, Place.mk.injEq, true_and]
    omega

theorem isPrintable_of_isWordPart (h : isWordPart c = true) : isPrintable c = true := by
  rw [isWordPart, Bool.or_eq_true, isAlphanum_iff, decide_eq_true_eq] at h
  rcases h with hnumber | rfl
  · rw [isPrintable_iff]
    omega
  · decide

/-- A character that means something in a text stands in no word. -/
theorem ne_of_isWordPart {d : Char} (h : isWordPart c = true) (hd : isWordPart d = false) :
    c ≠ d := by
  rintro rfl
  rw [h] at hd
  cases hd

end Characters

/-! ## Plain texts -/

/-- **A line that is read plain** to its end. `behind` says whether a blank stands before
it. No blank stands at its end, no hash behind a blank, and no colon before a blank or at
the end. -/
inductive PlainLine : (behind : Bool) → List Char → Prop
  | done : PlainLine false []
  | blank {behind cs} : PlainLine true cs → PlainLine behind (' ' :: cs)
  | char {behind c cs} : isPrintable c = true → c ≠ ' ' → (c = '#' → behind = false) →
      (c = ':' → endsWord cs = false) → PlainLine false cs → PlainLine behind (c :: cs)

/-- **A text that is read plain**, alone in its line or behind a key. -/
structure PlainText (cs : List Char) : Prop where
  starts : startsPlain false cs = true
  line : PlainLine false cs

section Plain

variable {cs tail acc : List Char} {gap : Gap} {least : Nat} {p : Place} {behind : Bool}

theorem PlainLine.isPrintable (h : PlainLine behind cs) : ∀ c ∈ cs, isPrintable c = true := by
  induction h with
  | done => simp
  | blank _ ih => exact List.forall_mem_cons.mpr ⟨by decide, ih⟩
  | char hc _ _ _ _ ih => exact List.forall_mem_cons.mpr ⟨hc, ih⟩

theorem PlainText.isPrintable (h : PlainText cs) : ∀ c ∈ cs, isPrintable c = true :=
  h.line.isPrintable

/-- What follows a character does not matter where a word does not end. -/
theorem endsWord_append (h : endsWord cs = false) : endsWord (cs ++ tail) = false := by
  cases cs with
  | nil => simp [endsWord] at h
  | cons c cs => exact h

/-- **A plain scalar begins** with a character that means nothing, or with one of three signs
if the word goes on behind it. -/
theorem startsPlain_cons_iff {c : Char} :
    startsPlain false (c :: cs) = true ↔ isBlank c = false ∧ isBreak c = false ∧
      (c ∈ marks → (c = '-' ∨ c = '?' ∨ c = ':') ∧ endsWord cs = false) := by
  have hdashMark : '-' ∈ marks := by decide
  have hquestionMark : '?' ∈ marks := by decide
  have hcolonMark : ':' ∈ marks := by decide
  rw [startsPlain]
  by_cases hblank : (isBlank c || isBreak c) = true
  · rw [if_pos hblank]
    rw [Bool.or_eq_true] at hblank
    simp only [Bool.false_eq_true, false_iff]
    rintro ⟨hb, hn, -⟩
    rcases hblank with h | h
    · rw [hb] at h
      cases h
    · rw [hn] at h
      cases h
  rw [if_neg hblank]
  rw [Bool.not_eq_true, Bool.or_eq_false_iff] at hblank
  simp only [hblank.1, hblank.2, true_and]
  by_cases hdash : c = '-'
  · simp [hdash, hdashMark]
  rw [if_neg hdash]
  by_cases hsigns : c = '?' ∨ c = ':'
  · rw [if_pos hsigns]
    have hmark : c ∈ marks := by
      rcases hsigns with rfl | rfl
      · exact hquestionMark
      · exact hcolonMark
    simp [hsigns, hmark]
  · rw [if_neg hsigns]
    simp [hdash, hsigns]

theorem exists_cons_of_startsPlain (h : startsPlain false cs = true) :
    ∃ c rest, cs = c :: rest := by
  cases cs with
  | nil => cases h
  | cons c rest => exact ⟨c, rest, rfl⟩

/-- A plain scalar begins with no other sign. -/
theorem ne_of_startsPlain {c d : Char} (h : startsPlain false (c :: cs) = true) (hd : d ∈ marks)
    (hothers : ¬(d = '-' ∨ d = '?' ∨ d = ':')) : c ≠ d := by
  rintro rfl
  exact hothers ((startsPlain_cons_iff.mp h).2.2 hd).1

theorem startsPlain_append (h : startsPlain false cs = true) :
    startsPlain false (cs ++ tail) = true := by
  obtain ⟨c, rest, rfl⟩ := exists_cons_of_startsPlain h
  obtain ⟨hblank, hbreak, hmark⟩ := startsPlain_cons_iff.mp h
  rw [List.cons_append, startsPlain_cons_iff]
  refine ⟨hblank, hbreak, fun hmem => ?_⟩
  obtain ⟨hsign, hends⟩ := hmark hmem
  exact ⟨hsign, endsWord_append hends⟩

@[simp] theorem Gap.isLines_blank (c : Char) : (gap.blank c).isLines = gap.isLines := by
  cases gap <;> rfl

@[simp] theorem Gap.isNothing_blank (c : Char) : (gap.blank c).isNothing = false := by
  cases gap <;> rfl

/-- Behind a character a gap in one line is read as its blanks. -/
theorem Gap.join_blank (h : gap.isLines = false) (acc : List Char) :
    (gap.blank ' ').join acc = ' ' :: gap.join acc := by
  cases gap with
  | nothing => rfl
  | blanks bs => rfl
  | lines first more => cases h

/-- **A plain line is read to its end**, whatever follows. The gap before it is part of the
line that is read, and is in front of its first character. -/
theorem plain_append (h : PlainLine behind cs) (hgap : gap.isLines = false)
    (hbehind : behind = !gap.isNothing) :
    plain false least acc gap p (cs ++ tail) =
      plain false least (cs.reverse ++ gap.join acc) .nothing (p.pastAll cs) tail := by
  induction h generalizing acc gap p with
  | done =>
    -- no line ends behind a blank, so nothing of the gap is left to be dropped
    have hnothing : gap = .nothing := by
      cases gap with
      | nothing => rfl
      | blanks bs => cases hbehind
      | lines first more => cases hgap
    rw [hnothing]
    rfl
  | @blank behind cs hcs ih =>
    have hline : (gap.blank ' ').isLines = false := by
      rw [Gap.isLines_blank, hgap]
    have hthere : (true : Bool) = !(gap.blank ' ').isNothing := by
      rw [Gap.isNothing_blank, Bool.not_false]
    have hblank : isBlank ' ' = true := rfl
    have hbreak : isBreak ' ' = false := rfl
    rw [List.cons_append, plain, hbreak, if_neg Bool.false_ne_true, if_pos hblank, hgap,
      Bool.false_and, Bool.false_and, if_neg Bool.false_ne_true, ih hline hthere,
      Gap.join_blank hgap]
    simp [Place.pastAll]
  | @char behind c cs hc hspace hhash hcolon hcs ih =>
    have hblank : isBlank c = false := by
      rw [isBlank_of_isPrintable hc, decide_eq_false hspace]
    have hnoHash : (!gap.isNothing && decide (c = '#')) = false := by
      by_cases h : c = '#'
      · rw [← hbehind, hhash h, Bool.false_and]
      · rw [decide_eq_false h, Bool.and_false]
    have hnoColon : (decide (c = ':') && endsWord (cs ++ tail)) = false := by
      by_cases h : c = ':'
      · rw [endsWord_append (hcolon h), Bool.and_false]
      · rw [decide_eq_false h, Bool.false_and]
    rw [List.cons_append, plain, isBreak_of_isPrintable hc, if_neg Bool.false_ne_true, hblank,
      if_neg Bool.false_ne_true]
    simp only [hgap, hnoHash, hnoColon, Bool.false_and, Bool.or_false, Bool.false_eq_true, if_false]
    rw [ih rfl rfl]
    simp [Place.pastAll, Gap.join]

/-- A plain scalar ends at the colon of a key. -/
theorem plain_colon :
    plain false least acc .nothing p (':' :: ' ' :: tail) =
      some ⟨acc.reverse, ⟨p, ':' :: ' ' :: tail⟩, false⟩ := by
  simp [plain, isBreak, isBlank, endsWord, Gap.isLines, Gap.isNothing]

/-- A plain scalar ends with its line, if the next line begins further to the left with
something that is no blank. -/
theorem plain_newline (h : ∀ c ∈ tail.head?, isBlank c = false ∧ isBreak c = false)
    (hleast : 0 < least) :
    plain false least acc .nothing p ('\n' :: tail) =
      some ⟨acc.reverse, ⟨p.past '\n', tail⟩, true⟩ := by
  have hbreak : isBreak '\n' = true := rfl
  rw [plain, if_pos hbreak]
  cases tail with
  | nil => rfl
  | cons c tail =>
    obtain ⟨hblank, hnoBreak⟩ := h c rfl
    have hcolumn : (p.past '\n').column = 0 := rfl
    simp [plain, hblank, hnoBreak, Gap.newline, Gap.isLines, hcolumn, hleast]

/-- A character of a word means nothing at the beginning of one. -/
theorem not_mem_marks_of_isWordPart {c : Char} (h : isWordPart c = true) : c ∉ marks := by
  have hall : marks.all (fun d => !isWordPart d) = true := by decide
  intro hmem
  have hno := List.all_eq_true.mp hall c hmem
  rw [h] at hno
  cases hno

/-- **Letters, digits and underscores are a plain text.** -/
theorem plainText_of_isWordPart (hne : cs ≠ []) (h : ∀ c ∈ cs, isWordPart c = true) :
    PlainText cs where
  starts := by
    obtain ⟨c, rest, rfl⟩ := List.exists_cons_of_ne_nil hne
    have hc := h c List.mem_cons_self
    have hprintable := isPrintable_of_isWordPart hc
    have hspace : c ≠ ' ' := ne_of_isWordPart hc (by decide)
    have hblank : isBlank c = false := by
      rw [isBlank_of_isPrintable hprintable, decide_eq_false hspace]
    rw [startsPlain_cons_iff]
    exact ⟨hblank, isBreak_of_isPrintable hprintable, fun hmem =>
      absurd hmem (not_mem_marks_of_isWordPart hc)⟩
  line := by
    clear hne
    induction cs with
    | nil => exact .done
    | cons c rest ih =>
      have hc := h c List.mem_cons_self
      refine .char (isPrintable_of_isWordPart hc) (ne_of_isWordPart hc (by decide)) ?_ ?_
        (ih fun c hc => h c (List.mem_cons_of_mem _ hc))
      · intro hhash
        exact absurd hhash (ne_of_isWordPart hc (by decide))
      · intro hcolon
        exact absurd hcolon (ne_of_isWordPart hc (by decide))

end Plain

/-! ## What needs no quotes -/

section Quotes

variable {cs : List Char}

theorem anyPair_cons_cons {first second : Char → Bool} {a b : Char} :
    anyPair first second (a :: b :: cs) =
      (first a && second b || anyPair first second (b :: cs)) := rfl

theorem anyPair_eq_false_of_right {first second : Char → Bool} (h : ∀ c ∈ cs, second c = false) :
    anyPair first second cs = false := by
  simp only [anyPair, List.any_eq_false, Bool.and_eq_true, not_and, Bool.not_eq_true]
  rintro ⟨a, b⟩ hmem -
  exact h b (List.mem_of_mem_tail (List.of_mem_zip hmem).2)

theorem anyPair_eq_false_of_left {first second : Char → Bool} (h : ∀ c ∈ cs, first c = false) :
    anyPair first second cs = false := by
  simp only [anyPair, List.any_eq_false, Bool.and_eq_true, not_and, Bool.not_eq_true]
  rintro ⟨a, b⟩ hmem ha
  rw [h a (List.of_mem_zip hmem).1] at ha
  cases ha

/-- What the writer asks of neighbours is what the reader of plain scalars asks of them. -/
theorem plainLine_of_anyPair {behind : Bool} (hprintable : ∀ c ∈ cs, isPrintable c = true)
    (hcolon : anyPair (· = ':') isSpace cs = false) (hcolonLast : cs.getLast? ≠ some ':')
    (hhash : anyPair isSpace (· = '#') cs = false) (hblankLast : cs.getLast? ≠ some ' ')
    (hbehind : behind = true → cs ≠ [] ∧ cs.head? ≠ some '#') : PlainLine behind cs := by
  induction cs generalizing behind with
  | nil =>
    cases behind with
    | false => exact .done
    | true => exact absurd rfl (hbehind rfl).1
  | cons c rest ih =>
    obtain ⟨hc, hrest⟩ := List.forall_mem_cons.mp hprintable
    -- what is known of the pairs of the whole is known of those of the rest
    have onward {behind : Bool} (hbehind : behind = true → rest ≠ [] ∧ rest.head? ≠ some '#') :
        PlainLine behind rest := by
      cases rest with
      | nil =>
        cases behind with
        | false => exact .done
        | true => exact absurd rfl (hbehind rfl).1
      | cons d rest =>
        rw [anyPair_cons_cons, Bool.or_eq_false_iff] at hcolon hhash
        rw [List.getLast?_cons_cons] at hcolonLast hblankLast
        exact ih hrest hcolon.2 hcolonLast hhash.2 hblankLast hbehind
    by_cases hspace : c = ' '
    · subst hspace
      refine .blank (onward fun _ => ?_)
      cases rest with
      | nil => exact absurd rfl hblankLast
      | cons d rest =>
        rw [anyPair_cons_cons, Bool.or_eq_false_iff, Bool.and_eq_false_iff] at hhash
        refine ⟨List.cons_ne_nil d rest, ?_⟩
        rcases hhash.1 with h | h
        · cases h
        · simpa using h
    · refine .char hc hspace ?_ ?_ (onward fun h => by cases h)
      · rintro rfl
        cases behind with
        | false => rfl
        | true => exact absurd rfl (hbehind rfl).2
      · rintro rfl
        cases rest with
        | nil => exact absurd rfl hcolonLast
        | cons d rest =>
          have hd := hrest d List.mem_cons_self
          rw [anyPair_cons_cons, Bool.or_eq_false_iff] at hcolon
          simp only [decide_true, Bool.true_and, isSpace_of_isPrintable hd] at hcolon
          simp only [endsWord, isBlank_of_isPrintable hd, isBreak_of_isPrintable hd, hcolon.1,
            Bool.or_false]

/-- **A text that needs no quotes is a plain text.** -/
theorem plainText_of_needsQuotes (hprintable : ∀ c ∈ cs, isPrintable c = true) (hne : cs ≠ [])
    (h : needsQuotes cs = false) : PlainText cs := by
  simp only [needsQuotes, Bool.or_eq_false_iff, decide_eq_false_iff_not] at h
  obtain ⟨⟨⟨⟨⟨⟨hopens, hcolon⟩, hcolonLast⟩, hhash⟩, hhead⟩, hblankLast⟩, -⟩ := h
  have line : PlainLine false cs :=
    plainLine_of_anyPair hprintable hcolon hcolonLast hhash hblankLast fun h => by cases h
  refine ⟨?_, line⟩
  obtain ⟨c, rest, rfl⟩ := List.exists_cons_of_ne_nil hne
  obtain ⟨hc, hrest⟩ := List.forall_mem_cons.mp hprintable
  have hspace : c ≠ ' ' := by simpa using hhead
  have hblank : isBlank c = false := by
    rw [isBlank_of_isPrintable hc, decide_eq_false hspace]
  simp only [opensMeaning, Bool.or_eq_false_iff] at hopens
  obtain ⟨-, hopeners, hsign⟩ := hopens
  -- a dash or a question mark has something behind it that is no blank
  have goesOn (hc : c = '?' ∨ c = '-') : endsWord rest = false := by
    have hsome : rest.head?.all isSpace = false := by
      rcases hc with rfl | rfl <;> simpa using hsign
    cases rest with
    | nil => cases hsome
    | cons d rest =>
      have hd := hrest d List.mem_cons_self
      simp only [List.head?_cons, Option.all_some, isSpace_of_isPrintable hd] at hsome
      simp only [endsWord, isBlank_of_isPrintable hd, isBreak_of_isPrintable hd, hsome,
        Bool.or_false]
  rw [startsPlain_cons_iff]
  refine ⟨hblank, isBreak_of_isPrintable hc, fun hmem => ?_⟩
  have hall : marks.all (fun d => openers.contains d || d = '-' || d = '?' || d = ':') = true := by
    decide
  have hsigns := List.all_eq_true.mp hall c hmem
  simp only [hopeners, Bool.false_or, Bool.or_eq_true, decide_eq_true_eq] at hsigns
  rcases hsigns with (hdash | hquestion) | hcolon
  · exact ⟨.inl hdash, goesOn (.inr hdash)⟩
  · exact ⟨.inr (.inl hquestion), goesOn (.inl hquestion)⟩
  · cases line with
    | blank _ => exact absurd rfl hspace
    | char _ _ _ hends _ => exact ⟨.inr (.inr hcolon), hends hcolon⟩

/-- A text of printable characters has no line breaks, and nothing is an escape. -/
theorem style_of_isPrintable {text : String} (h : ∀ c ∈ text.toList, isPrintable c = true) :
    Style.of text =
      if isAmbiguous text || needsQuotes text.toList then .singleQuoted else .plain := by
  have hbreak : ∀ c ∈ text.toList, isBreak c = false := fun c hc => isBreak_of_isPrintable (h c hc)
  have hline : text.toList.contains '\n' = false := by
    rw [← Bool.not_eq_true, List.contains_iff_mem]
    intro hmem
    exact absurd (hbreak _ hmem) (by decide)
  have hshown : text.toList.all isShown = true :=
    List.all_eq_true.mpr fun c hc => isShown_of_isPrintable (h c hc)
  have hspaceBreak : hasSpaceBreak text.toList = false := anyPair_eq_false_of_right hbreak
  have hbreakSpace : hasBreakSpace text.toList = false := anyPair_eq_false_of_left hbreak
  simp only [Style.of, hline, hshown, hspaceBreak, hbreakSpace, Bool.not_true, Bool.or_false,
    Bool.false_eq_true, if_false]

end Quotes

/-! ## Single quotes -/

section SingleQuotes

variable {cs tail acc : List Char} {gap : Gap} {p : Place}

/-- A quote is written twice, and other printable characters as they are. -/
theorem quoteLines_cons {c : Char} (hc : isPrintable c = true) :
    quoteLines false (c :: cs) =
      (if c = '\x27' then ['\x27', '\x27'] else [c]) ++ quoteLines false cs := by
  rw [quoteLines, isBreak_of_isPrintable hc]
  rfl

theorem quoteLines_isPrintable (h : ∀ c ∈ cs, isPrintable c = true) :
    ∀ c ∈ quoteLines false cs, isPrintable c = true := by
  induction cs with
  | nil => simp [quoteLines]
  | cons c cs ih =>
    obtain ⟨hc, hcs⟩ := List.forall_mem_cons.mp h
    rw [quoteLines_cons hc]
    intro d hd
    rcases List.mem_append.mp hd with hd | hd
    · split at hd
      · next hquote =>
        have : d = '\x27' := by simpa using hd
        subst this
        decide
      · rw [List.mem_singleton] at hd
        exact hd ▸ hc
    · exact ih hcs d hd

/-- Inside a line no document begins or ends. -/
theorem atMark_of_column {s : Spot} (h : 0 < s.place.column) : s.atMark = false := by
  have hne : s.place.column ≠ 0 := by omega
  simp only [Spot.atMark, Spot.isMark, hne, decide_false, Bool.false_and, Bool.or_false]

/-- **In single quotes every text is read back**, up to the quote that ends the line. -/
theorem singleQuoted_quoteLines (h : ∀ c ∈ cs, isPrintable c = true) (hgap : gap.isLines = false)
    (hp : 0 < p.column) :
    singleQuoted acc gap p (quoteLines false cs ++ '\x27' :: '\n' :: tail) =
      some ⟨(gap.join acc).reverse ++ cs,
        ⟨p.pastAll (quoteLines false cs ++ ['\x27']), '\n' :: tail⟩, false⟩ := by
  induction cs generalizing acc gap p with
  | nil => simp [quoteLines, singleQuoted, Place.pastAll]
  | cons c cs ih =>
    obtain ⟨hc, hcs⟩ := List.forall_mem_cons.mp h
    have hp' : 0 < (p.past c).column := by
      rw [past_of_isPrintable hc]
      exact Nat.succ_pos _
    rw [quoteLines_cons hc]
    by_cases hquote : c = '\x27'
    · -- a quote stands there twice, and the reader takes both at once
      subst hquote
      have hp'' : 0 < ((p.past '\x27').past '\x27').column := by
        rw [past_of_isPrintable hc]
        exact Nat.succ_pos _
      rw [if_pos rfl]
      simp only [List.cons_append, List.nil_append, singleQuoted]
      rw [ih hcs rfl hp'']
      simp [Gap.join, Place.pastAll]
    · have hmark (rest : List Char) : (Spot.mk p (c :: rest)).atMark = false :=
        atMark_of_column hp
      rw [if_neg hquote]
      simp only [List.cons_append, List.nil_append]
      rw [singleQuoted.eq_def]
      split
      · next heq => cases heq
      · next heq => exact absurd (List.cons.inj heq).1 hquote
      · next d rest _ heq =>
        obtain ⟨rfl, rfl⟩ := List.cons.inj heq
        simp only [hquote, if_false, hmark, isBreak_of_isPrintable hc, isBlank_of_isPrintable hc,
          Bool.false_eq_true, decide_eq_true_eq]
        by_cases hspace : c = ' '
        · subst hspace
          have hline : (gap.blank ' ').isLines = false := by
            rw [Gap.isLines_blank, hgap]
          rw [if_pos rfl, ih hcs hline hp', Gap.join_blank hgap]
          simp [Place.pastAll]
        · rw [if_neg hspace, ih hcs rfl hp']
          simp [Gap.join, Place.pastAll]

end SingleQuotes

/-! ## Forms -/

/-- A text as it stands in a line in a form. -/
def Form.write : Form → List Char → List Char
  | .quoted, cs => '\x27' :: quoteLines false cs ++ ['\x27']
  | _, cs => cs

/-- **A text can stand in a form** behind a key, and is read back. -/
inductive Fits : Form → List Char → Prop
  | plain {cs} : PlainText cs → Fits .plain cs
  | quoted {cs} : (∀ c ∈ cs, isPrintable c = true) → Fits .quoted cs

/-- The form in which a text of printable characters is written. -/
def Form.for (text : String) : Form :=
  if isAmbiguous text || needsQuotes text.toList then .quoted else .plain

section Forms

variable {text : String} {form : Form} {cs : List Char}

theorem Fits.isPrintable_write (h : Fits form cs) : ∀ c ∈ form.write cs, isPrintable c = true := by
  cases h with
  | plain hplain => exact hplain.isPrintable
  | quoted hprintable =>
    have hquote : isPrintable '\x27' = true := by decide
    intro c hc
    simp only [Form.write, List.mem_append, List.mem_cons, List.not_mem_nil, or_false] at hc
    rcases hc with (rfl | hc) | rfl
    · exact hquote
    · exact quoteLines_isPrintable hprintable c hc
    · exact hquote

/-- **A text of printable characters is written** in a form that it fits. -/
theorem fits_for (h : ∀ c ∈ text.toList, isPrintable c = true) :
    Fits (.for text) text.toList := by
  rw [Form.for]
  by_cases hquotes : (isAmbiguous text || needsQuotes text.toList) = true
  · rw [if_pos hquotes]
    exact .quoted h
  · rw [if_neg hquotes]
    rw [Bool.not_eq_true, Bool.or_eq_false_iff] at hquotes
    refine .plain (plainText_of_needsQuotes h ?_ hquotes.2)
    -- an empty text is taken for nothing
    intro hempty
    have hnull : isAmbiguous text = true := by
      rw [isAmbiguous, isNull, decide_eq_true (String.toList_eq_nil_iff.mp hempty)]
      rfl
    rw [hnull] at hquotes
    cases hquotes.1

theorem toList_scalarLine (h : ∀ c ∈ text.toList, isPrintable c = true) :
    (scalarLine text).toList = (Form.for text).write text.toList ++ ['\n'] := by
  rw [scalarLine, style_of_isPrintable h, String.toList_ofList, Form.for]
  by_cases hquotes : (isAmbiguous text || needsQuotes text.toList) = true
  · rw [if_pos hquotes, if_pos hquotes]
    simp [Form.write]
  · rw [if_neg hquotes, if_neg hquotes]
    rfl

end Forms

end Yaml

end FramedDuplex
