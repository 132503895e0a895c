import FramedDuplex.Yaml.Lexer
import FramedDuplex.Proofs.Yaml.Scalar
/-!
# Lines with a name and a text

A mapping is written line by line: a name, a colon, a blank, and a text in a form that it
fits (`Line`). The lexer takes such a line in three steps. What it took for a scalar turns
out to be a key when the colon comes, and in the first line the block opens with that. From
the beginning of a line it comes to the beginning of the next (`Lexer.run_line`), so that
lines are read one after the other (`tokens?_lines`).

Behind a plain text the lexer stands at the next line already, behind a quoted one still
before the break. The two are alike in what `Lexer.seek` makes of them, and so in how
reading goes on.
-/

namespace FramedDuplex

namespace Yaml

/-- **A line of a mapping**: a name of letters, digits and underscores, and a text. -/
structure Line where
  name : String
  form : Form
  text : String
  nonempty : name.toList ≠ []
  word : ∀ c ∈ name.toList, isWordPart c = true
  short : name.toList.length ≤ keyLimit
  fits : Fits form text.toList

namespace Line

/-- The characters of a line, with the break that ends it. -/
def chars (l : Line) : List Char :=
  l.name.toList ++ ':' :: ' ' :: (l.form.write l.text.toList ++ ['\n'])

/-- The tokens of a line. -/
def tokens (l : Line) : List Token :=
  [.key, .scalar .plain l.name, .value, .scalar l.form l.text]

/-- A name is a plain text. -/
theorem plainText_name (l : Line) : PlainText l.name.toList :=
  plainText_of_isWordPart l.nonempty l.word

/-- A line has a character for each step of the lexer. -/
theorem three_le_length (l : Line) : 3 ≤ l.chars.length := by
  simp only [chars, List.length_append, List.length_cons, List.length_nil]
  omega

end Line

/-! ## Going to the next thing -/

section Seek

variable {c : Char} {rest : List Char} {inBrackets allowed : Bool} {p : Place}

/-- A printable character that is no blank and begins no comment is the next thing. -/
theorem Spot.seek_of_isPrintable (hc : isPrintable c = true) (hspace : c ≠ ' ') (hhash : c ≠ '#') :
    (Spot.mk p (c :: rest)).seek inBrackets allowed = (⟨p, c :: rest⟩, allowed) := by
  have htab : c ≠ '\t' := ne_of_isPrintable hc (by decide)
  have horder : c ≠ '\ufeff' := ne_of_isPrintable hc (by decide)
  simp [Spot.seek, Spot.seekFrom, isBreak_of_isPrintable hc, hspace, hhash, htab, horder]

theorem Spot.seek_space :
    (Spot.mk p (' ' :: rest)).seek inBrackets allowed =
      (Spot.mk (p.past ' ') rest).seek inBrackets allowed := by
  simp [Spot.seek, Spot.seekFrom, isBreak]

/-- Outside brackets a line break lets a key begin. -/
theorem Spot.seek_newline :
    (Spot.mk p ('\n' :: rest)).seek false allowed =
      (Spot.mk (p.past '\n') rest).seek false true := by
  simp [Spot.seek, Spot.seekFrom, isBreak]

end Seek

namespace Lexer

variable {l m : Lexer} {c : Char} {rest tail : List Char} {fuel : Nat} {p : Place}
  {tokens : List Token} {columns : List Nat}

/-- **Going to the next thing changes nothing but the spot**, where only the outermost block
is open, no bracket is, and what may be a key is not too far behind. -/
theorem seek_eq {allowed : Bool}
    (hspot : l.spot.seek false l.keyAllowed = (⟨p, rest⟩, allowed)) (houter : l.outer = [])
    (hfresh : ∀ k ∈ l.candidate, k.isStale p = false)
    (hcolumns : l.columns = [] ∨ l.columns = [0]) :
    l.seek = some { l with spot := ⟨p, rest⟩, keyAllowed := allowed } := by
  obtain ⟨spot, scope, tokens, columns, candidate, outer, keyAllowed⟩ := l
  subst houter
  have hspot' : spot.seek (!List.isEmpty ([] : List (Option KeySpot))) keyAllowed =
      (⟨p, rest⟩, allowed) := hspot
  have hkeep : candidate.filter (fun k => !k.isStale p) = candidate := by
    cases candidate with
    | none => rfl
    | some k => simp [hfresh k rfl]
  have hstale : candidate.any (fun k => k.isStale p && k.required) = false := by
    cases candidate with
    | none => rfl
    | some k => simp [hfresh k rfl]
  rw [Lexer.seek]
  simp only [inBrackets, hspot']
  rw [expireKeys]
  simp only [List.any_cons, List.any_nil, hstale, Bool.or_false, Bool.false_eq_true, if_false, hkeep,
    List.map_nil, Option.map_some, closeBlocks, inBrackets, List.isEmpty_nil, Bool.not_true]
  rcases hcolumns with rfl | rfl <;> rfl

/-- A line break in front lets a key begin and does nothing else. -/
theorem seek_newline (hspot : l.spot = ⟨p, '\n' :: tail⟩) (houter : l.outer = []) :
    l.seek = { l with spot := ⟨p.past '\n', tail⟩, keyAllowed := true : Lexer }.seek := by
  have hinside : l.inBrackets = false := by rw [inBrackets, houter]; rfl
  rw [Lexer.seek, Lexer.seek]
  simp only [inBrackets] at hinside ⊢
  rw [hspot, hinside, Spot.seek_newline]

/-- How reading goes on depends on the next thing only. -/
theorem run_congr (h : l.seek = m.seek) : run fuel l = run fuel m := by
  cases fuel with
  | zero => rfl
  | succ fuel => rw [run, run, h]

/-- **One step**: the token that begins at the next thing is read. -/
theorem run_succ {next : Lexer} (hseek : l.seek = some m) (hrest : m.spot.rest = c :: rest)
    (htoken : m.token? c rest = some next) : run (fuel + 1) l = run fuel next := by
  rw [run, hseek]
  simp only [hrest, htoken]

/-- A scalar begins where no sign does. -/
theorem token?_eq_word? (houter : l.outer = []) (hmark : l.spot.atMark = false)
    (hsign : c ∈ marks → c = '\x27' ∨ (c = '-' ∨ c = '?' ∨ c = ':') ∧ endsWord rest = false) :
    l.token? c rest = l.word? := by
  have hinside : l.inBrackets = false := by rw [inBrackets, houter]; rfl
  have hno {d : Char} (hd : d ∈ marks) (hquote : d ≠ '\x27')
      (hothers : d ≠ '-' ∧ d ≠ '?' ∧ d ≠ ':') : c ≠ d := by
    rintro rfl
    obtain ⟨hdash, hquestion, hcolon⟩ := hothers
    rcases hsign hd with h | ⟨h | h | h, -⟩
    · exact hquote h
    · exact hdash h
    · exact hquestion h
    · exact hcolon h
  have hgoesOn {d : Char} (hd : d ∈ marks) (hquote : d ≠ '\x27') :
      ¬(c = d ∧ endsWord rest = true) := by
    rintro ⟨rfl, hends⟩
    rcases hsign hd with h | ⟨-, h⟩
    · exact hquote h
    · rw [h] at hends
      cases hends
  rw [Spot.atMark, Bool.or_eq_false_iff] at hmark
  have hpercent : c ≠ '%' := hno (by decide) (by decide) (by decide)
  have hopen : c ≠ '[' := hno (by decide) (by decide) (by decide)
  have hopen' : c ≠ '\x7b' := hno (by decide) (by decide) (by decide)
  have hclose : c ≠ ']' := hno (by decide) (by decide) (by decide)
  have hclose' : c ≠ '\x7d' := hno (by decide) (by decide) (by decide)
  have hcomma : c ≠ ',' := hno (by decide) (by decide) (by decide)
  have hstar : c ≠ '*' := hno (by decide) (by decide) (by decide)
  have hand : c ≠ '&' := hno (by decide) (by decide) (by decide)
  have htag : c ≠ '!' := hno (by decide) (by decide) (by decide)
  have hbar : c ≠ '|' := hno (by decide) (by decide) (by decide)
  have hangle : c ≠ '>' := hno (by decide) (by decide) (by decide)
  have hitem : ¬(c = '-' ∧ endsWord rest = true) := hgoesOn (by decide) (by decide)
  have hkey : ¬(c = '?' ∧ endsWord rest = true) := hgoesOn (by decide) (by decide)
  have hvalue : ¬(c = ':' ∧ endsWord rest = true) := hgoesOn (by decide) (by decide)
  simp only [token?, hpercent, hmark, hopen, hopen', hclose, hclose', hcomma, hitem, hinside, hkey,
    hvalue, hstar, hand, htag, hbar, hangle, false_and, Bool.false_eq_true, false_or, if_false]

/-- A plain text is read as a scalar, up to where the reader of plain scalars ends. -/
theorem word?_of_plain {cs : List Char} {s : Scalar} (h : PlainText cs) (houter : l.outer = [])
    (hrest : l.spot.rest = cs ++ tail) (hkey : l.markKey = some m)
    (hread : plain false l.least cs.reverse .nothing (l.spot.place.pastAll cs) tail = some s) :
    l.word? = some (m.scalar .plain s) := by
  have hinside : l.inBrackets = false := by rw [inBrackets, houter]; rfl
  have hstarts : startsPlain false (cs ++ tail) = true := startsPlain_append h.starts
  have hwhole : plain false l.least [] .nothing l.spot.place (cs ++ tail) = some s := by
    rw [plain_append h.line rfl rfl, Gap.join, List.append_nil]
    exact hread
  obtain ⟨c, rest, hcs⟩ := exists_cons_of_startsPlain hstarts
  rw [hcs] at hrest hstarts hwhole
  have hquote : c ≠ '\x27' := ne_of_startsPlain hstarts (by decide) (by decide)
  have hquotes : c ≠ '\x22' := ne_of_startsPlain hstarts (by decide) (by decide)
  simp [word?, hkey, hrest, hinside, hquote, hquotes, hstarts, hwhole]

/-- A text in single quotes is read as a scalar. -/
theorem word?_of_quoted {cs : List Char} (h : ∀ c ∈ cs, isPrintable c = true)
    (hrest : l.spot.rest = Form.quoted.write cs ++ '\n' :: tail) (hkey : l.markKey = some m) :
    l.word? = some (m.scalar .quoted
      ⟨cs, ⟨l.spot.place.pastAll (Form.quoted.write cs), '\n' :: tail⟩, false⟩) := by
  have hfirst : 0 < (l.spot.place.past '\x27').column := by
    rw [past_of_isPrintable (by decide)]
    exact Nat.succ_pos _
  have hread : singleQuoted [] .nothing (l.spot.place.past '\x27')
      (quoteLines false cs ++ '\x27' :: '\n' :: tail) = _ := singleQuoted_quoteLines h rfl hfirst
  simp only [Form.write, List.cons_append, List.append_assoc, List.nil_append] at hrest
  simp [word?, hkey, hrest, hread, Form.write, Gap.join, Place.pastAll]

/-! ## The key -/

/-- A lexer at the beginning of a line, outside brackets. -/
def atLine (tokens : List Token) (columns : List Nat) (p : Place) (rest : List Char) : Lexer :=
  ⟨⟨p, rest⟩, .start, tokens, columns, none, [], true⟩

/-- A lexer behind a word at the beginning of a line, which may be a key. -/
def behindWord (word : String) (start : Place) (tokens : List Token) (columns : List Nat)
    (p : Place) (rest : List Char) : Lexer :=
  ⟨⟨p, rest⟩, .start, .scalar .plain word :: tokens, columns,
    some ⟨start, tokens.length, columns.head? = some 0⟩, [], false⟩

/-- A lexer behind the colon of a key in the outermost block. -/
def behindColon (tokens : List Token) (p : Place) (rest : List Char) : Lexer :=
  ⟨⟨p, rest⟩, .start, tokens, [0], none, [], false⟩

/-- The tokens in front of a key. With the first key the outermost block opens. -/
def opened (tokens : List Token) (columns : List Nat) : List Token :=
  if columns = [] then .blockMapping :: tokens else tokens

/-- A mark between documents is made of one sign. -/
theorem startsWithMark_of_ne {sign : Char} (h : c ≠ sign) : startsWithMark sign (c :: rest) = false := by
  rw [startsWithMark.eq_def]
  split
  · next heq =>
    obtain ⟨rfl, -⟩ := List.cons.inj heq
    simp only [h, decide_false, Bool.false_and]
  · rfl

/-- **The name of a line** is read up to its colon, as a word that may be a key. -/
theorem run_name (line : Line) (hp : p.column = 0) (hcolumns : columns = [] ∨ columns = [0]) :
    run (fuel + 1) (atLine tokens columns p (line.name.toList ++ ':' :: ' ' :: tail)) =
      run fuel (behindWord line.name p tokens columns (p.pastAll line.name.toList)
        (':' :: ' ' :: tail)) := by
  obtain ⟨c, rest, hname⟩ := List.exists_cons_of_ne_nil line.nonempty
  have hword : isWordPart c = true := line.word c (by rw [hname]; exact List.mem_cons_self)
  have hsign : c ∉ marks := not_mem_marks_of_isWordPart hword
  generalize htext : line.name.toList ++ ':' :: ' ' :: tail = text
  have hrest : (atLine tokens columns p text).spot.rest = c :: (rest ++ ':' :: ' ' :: tail) := by
    rw [← htext, hname]
    rfl
  have hseek : (atLine tokens columns p text).seek = some (atLine tokens columns p text) := by
    refine seek_eq ?_ rfl (fun k hk => by cases hk) hcolumns
    rw [← htext, hname]
    exact Spot.seek_of_isPrintable (isPrintable_of_isWordPart hword)
      (ne_of_isWordPart hword (by decide)) (ne_of_isWordPart hword (by decide))
  have hmark : (atLine tokens columns p text).spot.atMark = false := by
    have hdash : c ≠ '-' := ne_of_isWordPart hword (by decide)
    have hdot : c ≠ '.' := ne_of_isWordPart hword (by decide)
    rw [Spot.atMark, Spot.isMark, Spot.isMark, hrest, startsWithMark_of_ne hdash,
      startsWithMark_of_ne hdot, Bool.and_false]
    rfl
  -- the word has to be a key if it stands in the column of the entries of the block
  have hkey : (atLine tokens columns p text).markKey = some { atLine tokens columns p text with
      candidate := some ⟨p, tokens.length, columns.head? = some 0⟩ } := by
    simp [markKey, atLine, dropKey, inBrackets, hp]
  refine run_succ hseek hrest ?_
  rw [token?_eq_word? rfl hmark fun hmem => absurd hmem hsign,
    word?_of_plain line.plainText_name rfl htext.symm hkey plain_colon]
  simp [scalar, add, allowKey, atLine, behindWord]

/-- **The colon behind a name** makes a key of it. -/
theorem run_colon (line : Line) (hp : p.column = 0) (hcolumns : columns = [] ∨ columns = [0]) :
    run (fuel + 1) (behindWord line.name p tokens columns (p.pastAll line.name.toList)
        (':' :: ' ' :: tail)) =
      run fuel (behindColon (.value :: .scalar .plain line.name :: .key :: opened tokens columns)
        ((p.pastAll line.name.toList).past ':') (' ' :: tail)) := by
  have hprintable : ∀ c ∈ line.name.toList, isPrintable c = true := line.plainText_name.isPrintable
  have hfresh : KeySpot.isStale ⟨p, tokens.length, columns.head? = some 0⟩
      (p.pastAll line.name.toList) = false := by
    have := line.short
    simp only [KeySpot.isStale, pastAll_of_isPrintable hprintable, Bool.or_eq_false_iff,
      decide_eq_false_iff_not]
    omega
  generalize p.pastAll line.name.toList = p' at hfresh ⊢
  have hseek : (behindWord line.name p tokens columns p' (':' :: ' ' :: tail)).seek =
      some (behindWord line.name p tokens columns p' (':' :: ' ' :: tail)) := by
    refine seek_eq ?_ rfl (fun k hk => ?_) hcolumns
    · exact Spot.seek_of_isPrintable (by decide) (by decide) (by decide)
    · cases hk
      exact hfresh
  have hdash : startsWithMark '-' (':' :: ' ' :: tail) = false := startsWithMark_of_ne (by decide)
  have hdot : startsWithMark '.' (':' :: ' ' :: tail) = false := startsWithMark_of_ne (by decide)
  have hends : endsWord (' ' :: tail) = true := rfl
  refine run_succ hseek rfl ?_
  simp only [token?, behindWord, Spot.isMark, hdash, hdot, hends]
  -- the sign of the key comes behind one token, and the block that it opens behind two
  have hone : tokens.length + 1 - tokens.length = 1 := by omega
  have htwo : tokens.length + 1 + 1 - tokens.length = 2 := by omega
  rcases hcolumns with rfl | rfl
  · simp [value?, insert, openBlock, inBrackets, least, hp, sign, add, allowKey, behindColon, opened,
      Spot.skip, Place.pastAll, hone, htwo]
  · simp [value?, insert, openBlock, inBrackets, least, hp, sign, add, allowKey, behindColon, opened,
      Spot.skip, Place.pastAll, hone]

/-! ## The text -/

/-- Behind a colon and a blank the lexer stops at what begins a text. -/
theorem seek_behindColon (hc : isPrintable c = true) (hspace : c ≠ ' ') (hhash : c ≠ '#') :
    (behindColon tokens p (' ' :: c :: rest)).seek =
      some (behindColon tokens (p.past ' ') (c :: rest)) := by
  refine seek_eq ?_ rfl (fun k hk => by cases hk) (.inr rfl)
  rw [behindColon, Spot.seek_space]
  exact Spot.seek_of_isPrintable hc hspace hhash

/-- Behind a colon no key begins in the same line. -/
theorem markKey_behindColon :
    (behindColon tokens p rest).markKey = some (behindColon tokens p rest) := rfl

/-- Inside a line no document begins or ends. -/
theorem atMark_past_space : (Spot.mk (p.past ' ') rest).atMark = false := by
  refine atMark_of_column ?_
  rw [past_of_isPrintable (by decide)]
  exact Nat.succ_pos _

theorem run_plain {cs : List Char} (h : PlainText cs)
    (htail : ∀ c ∈ tail.head?, isWordPart c = true) :
    run (fuel + 1) (behindColon tokens p (' ' :: (cs ++ '\n' :: tail))) =
      run fuel (atLine (.scalar .plain (String.ofList cs) :: tokens) [0]
        (((p.past ' ').pastAll cs).past '\n') tail) := by
  have hstarts := h.starts
  obtain ⟨c, rest, rfl⟩ := exists_cons_of_startsPlain hstarts
  obtain ⟨hblank, -, hsign⟩ := startsPlain_cons_iff.mp hstarts
  have hc := h.isPrintable c List.mem_cons_self
  have hspace : c ≠ ' ' := by
    rw [isBlank_of_isPrintable hc, decide_eq_false_iff_not] at hblank
    exact hblank
  have hhash : c ≠ '#' := ne_of_startsPlain hstarts (by decide) (by decide)
  have hnext : ∀ d ∈ tail.head?, isBlank d = false ∧ isBreak d = false := by
    intro d hd
    have hword := htail d hd
    have hprintable := isPrintable_of_isWordPart hword
    have hspace : d ≠ ' ' := ne_of_isWordPart hword (by decide)
    rw [isBlank_of_isPrintable hprintable, decide_eq_false hspace]
    exact ⟨rfl, isBreak_of_isPrintable hprintable⟩
  have hword : (behindColon tokens (p.past ' ') (c :: rest ++ '\n' :: tail)).word? = _ :=
    word?_of_plain h rfl rfl markKey_behindColon (plain_newline hnext Nat.one_pos)
  refine run_succ (seek_behindColon hc hspace hhash) rfl ?_
  rw [token?_eq_word? rfl atMark_past_space]
  · rw [List.reverse_reverse] at hword
    exact hword
  · intro hmem
    obtain ⟨hsigns, hends⟩ := hsign hmem
    exact .inr ⟨hsigns, endsWord_append hends⟩

theorem run_quoted {cs : List Char} (h : ∀ c ∈ cs, isPrintable c = true) :
    run (fuel + 1) (behindColon tokens p (' ' :: (Form.quoted.write cs ++ '\n' :: tail))) =
      run fuel (atLine (.scalar .quoted (String.ofList cs) :: tokens) [0]
        (((p.past ' ').pastAll (Form.quoted.write cs)).past '\n') tail) := by
  have hword : (behindColon tokens (p.past ' ')
      (Form.quoted.write cs ++ '\n' :: tail)).word? = _ :=
    word?_of_quoted h rfl markKey_behindColon
  have hstep : run (fuel + 1) (behindColon tokens p (' ' :: (Form.quoted.write cs ++ '\n' :: tail))) =
      run fuel ((behindColon tokens (p.past ' ') (Form.quoted.write cs ++ '\n' :: tail)).scalar .quoted
        ⟨cs, ⟨(p.past ' ').pastAll (Form.quoted.write cs), '\n' :: tail⟩, false⟩) := by
    refine run_succ (seek_behindColon (by decide) (by decide) (by decide)) rfl ?_
    rw [token?_eq_word? rfl atMark_past_space fun _ => .inl rfl]
    exact hword
  rw [hstep]
  -- the break is still to be read, and going to the next thing passes it
  exact run_congr (seek_newline rfl rfl)

/-- **The text of a line** is read in its form, and the lexer goes on at the next line. -/
theorem run_text (line : Line) (htail : ∀ c ∈ tail.head?, isWordPart c = true) :
    run (fuel + 1)
        (behindColon tokens p (' ' :: (line.form.write line.text.toList ++ '\n' :: tail))) =
      run fuel (atLine (.scalar line.form line.text :: tokens) [0]
        (((p.past ' ').pastAll (line.form.write line.text.toList)).past '\n') tail) := by
  have hback : line.text = String.ofList line.text.toList := String.ofList_toList.symm
  have hfits := line.fits
  generalize line.form = form, line.text.toList = cs at hfits hback ⊢
  rw [hback]
  cases hfits with
  | plain hplain => exact run_plain hplain htail
  | quoted hprintable => exact run_quoted hprintable

/-! ## Lines -/

/-- Behind a line the next one begins. -/
theorem column_pastAll_chars (line : Line) : (p.pastAll line.chars).column = 0 := by
  have hchars : line.chars =
      (line.name.toList ++ ':' :: ' ' :: line.form.write line.text.toList) ++ ['\n'] := by
    simp [Line.chars]
  rw [hchars, Place.pastAll, List.foldl_append]
  rfl

/-- **A line is read** in three steps, from its beginning to the beginning of the next. -/
theorem run_line (line : Line) (hp : p.column = 0) (hcolumns : columns = [] ∨ columns = [0])
    (htail : ∀ c ∈ tail.head?, isWordPart c = true) :
    run (fuel + 3) (atLine tokens columns p (line.chars ++ tail)) =
      run fuel (atLine (line.tokens.reverse ++ opened tokens columns) [0] (p.pastAll line.chars)
        tail) := by
  have hchars : line.chars ++ tail =
      line.name.toList ++ ':' :: ' ' :: (line.form.write line.text.toList ++ '\n' :: tail) := by
    simp [Line.chars]
  have hplace : p.pastAll line.chars =
      ((((p.pastAll line.name.toList).past ':').past ' ').pastAll
        (line.form.write line.text.toList)).past '\n' := by
    simp [Line.chars, Place.pastAll]
  rw [hchars, hplace, run_name line hp hcolumns, run_colon line hp hcolumns, run_text line htail]
  rfl

/-- A line begins with its name. -/
theorem isWordPart_head (lines : List Line) :
    ∀ c ∈ (lines.flatMap Line.chars).head?, isWordPart c = true := by
  cases lines with
  | nil => simp
  | cons line lines =>
    obtain ⟨c, rest, hname⟩ := List.exists_cons_of_ne_nil line.nonempty
    have hword := line.word c (by rw [hname]; exact List.mem_cons_self)
    intro d hd
    simp only [List.flatMap_cons, Line.chars, hname, List.cons_append, List.head?_cons,
      Option.mem_def, Option.some.injEq] at hd
    exact hd ▸ hword

/-- At the end of a text the outermost block is closed. -/
theorem run_end :
    run (fuel + 1) (atLine tokens [0] p []) = some (tokens.reverse ++ [.blockEnd]) := by
  have hseek : (atLine tokens [0] p []).seek = some (atLine tokens [0] p []) :=
    seek_eq rfl rfl (fun k hk => by cases hk) (.inr rfl)
  rw [run, hseek]
  simp [atLine, finish, closeBlocks, inBrackets, dropKey]

/-- **Lines are read one after the other.** -/
theorem run_lines (lines : List Line) (hp : p.column = 0) (hfuel : 3 * lines.length < fuel) :
    run fuel (atLine tokens [0] p (lines.flatMap Line.chars)) =
      some (tokens.reverse ++ lines.flatMap Line.tokens ++ [.blockEnd]) := by
  induction lines generalizing fuel tokens p with
  | nil =>
    obtain ⟨fuel, rfl⟩ : ∃ k, fuel = k + 1 := ⟨fuel - 1, by simp at hfuel; omega⟩
    simp [run_end]
  | cons line lines ih =>
    rw [List.length_cons] at hfuel
    obtain ⟨fuel, rfl⟩ : ∃ k, fuel = k + 3 := ⟨fuel - 3, by omega⟩
    rw [List.flatMap_cons, run_line line hp (.inr rfl) (isWordPart_head lines),
      ih (column_pastAll_chars line) (by omega)]
    simp [opened]

end Lexer

/-- **The tokens of lines** are those of each, in a block of their own. -/
theorem tokens?_lines (line : Line) (lines : List Line) :
    tokens? ((line :: lines).flatMap Line.chars) =
      some (.blockMapping :: (line :: lines).flatMap Line.tokens ++ [.blockEnd]) := by
  have hlength : 3 * lines.length ≤ (lines.flatMap Line.chars).length := by
    induction lines with
    | nil => simp
    | cons line lines ih =>
      have := line.three_le_length
      rw [List.flatMap_cons, List.length_append, List.length_cons]
      omega
  have hline := line.three_le_length
  obtain ⟨fuel, hfuel⟩ : ∃ k, ((line :: lines).flatMap Line.chars).length + 1 = k + 3 := by
    refine ⟨((line :: lines).flatMap Line.chars).length - 2, ?_⟩
    rw [List.flatMap_cons, List.length_append]
    omega
  have henough : 3 * lines.length < fuel := by
    rw [List.flatMap_cons, List.length_append] at hfuel
    omega
  have hstart : Lexer.start ((line :: lines).flatMap Line.chars) =
      Lexer.atLine [] [] .start (line.chars ++ lines.flatMap Line.chars) := rfl
  rw [tokens?, hfuel, hstart, Lexer.run_line line rfl (.inl rfl) (Lexer.isWordPart_head lines),
    Lexer.run_lines lines (Lexer.column_pastAll_chars line) henough]
  simp [Lexer.opened]

end Yaml

end FramedDuplex
