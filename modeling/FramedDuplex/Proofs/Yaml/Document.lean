import FramedDuplex.Yaml.Document
import FramedDuplex.Proofs.Yaml.Lines
/-!
# Documents of lines

A text of lines is a document: a mapping with an entry for each line, in their order
(`read_lines`). Its scalars have no tags and no anchors, so that the nodes which are read
stand for themselves, and the entries under their names are the texts of the lines in the
forms in which they are written (`entries?_lines`).
-/

namespace FramedDuplex

namespace Yaml

namespace Line

/-- The nodes that are read from a line: its name and its text. -/
def nodes (l : Line) : Node × Node := (.scalar none .plain l.name, .scalar none l.form l.text)

/-- The entry that a line is read as. -/
def entry (l : Line) : String × Node := (l.name, .scalar none l.form l.text)

/-- What a line is made of: printable characters, and the break that ends it. -/
theorem isPrintable_or_newline (l : Line) : ∀ c ∈ l.chars, isPrintable c = true ∨ c = '\n' := by
  intro c hc
  simp only [chars, List.mem_append, List.mem_cons, List.not_mem_nil, or_false] at hc
  rcases hc with hname | rfl | rfl | htext | rfl
  · exact .inl (l.plainText_name.isPrintable c hname)
  · exact .inl (by decide)
  · exact .inl (by decide)
  · exact .inl (l.fits.isPrintable_write c htext)
  · exact .inr rfl

end Line

/-! ## Characters of lines -/

section Characters

variable {cs : List Char}

theorem isLegal_of_lines (h : ∀ c ∈ cs, isPrintable c = true ∨ c = '\n') : cs.all isLegal = true := by
  rw [List.all_eq_true]
  intro c hc
  rcases h c hc with hprintable | rfl
  · exact isLegal_of_isPrintable hprintable
  · decide

/-- Where line feeds are the only line breaks, line breaks are uniform. -/
theorem unify_of_lines (h : ∀ c ∈ cs, isPrintable c = true ∨ c = '\n') : unify cs = cs := by
  induction cs with
  | nil => rfl
  | cons c cs ih =>
    obtain ⟨hc, hcs⟩ := List.forall_mem_cons.mp h
    have hne {d : Char} (hd : isPrintable d = false) (hnewline : d ≠ '\n') : c ≠ d := by
      rcases hc with hc | rfl
      · exact ne_of_isPrintable hc hd
      · exact hnewline.symm
    have hreturn : c ≠ '\r' := hne (by decide) (by decide)
    have hnext : c ≠ '\u0085' := hne (by decide) (by decide)
    have hplain : unify (c :: cs) = (if c = '\r' ∨ c = '\u0085' then '\n' else c) :: unify cs := by
      rw [unify]
      intro rest heq
      exact absurd heq hreturn
    rw [hplain, ih hcs, if_neg (not_or.mpr ⟨hreturn, hnext⟩)]

end Characters

/-! ## Nodes of lines -/

namespace Node

variable {fuel : Nat}

/-- A scalar without a tag is read as it is. -/
theorem node_scalar {inBlock atColumn : Bool} {form : Form} {text : String} {ts : List Token} :
    node (fuel + 1) inBlock atColumn (.scalar form text :: ts) =
      some (.scalar none form text, ts) := by
  simp [node, Properties.read, Properties.scalar, Properties.attach]

/-- **The tokens of lines are read entry by entry**, up to the end of their block. -/
theorem entries_lines (lines : List Line) (hfuel : lines.length < fuel) :
    entries fuel (lines.flatMap Line.tokens ++ [.blockEnd]) = some (lines.map Line.nodes, []) := by
  induction lines generalizing fuel with
  | nil =>
    obtain ⟨fuel, rfl⟩ : ∃ k, fuel = k + 1 := ⟨fuel - 1, by simp at hfuel; omega⟩
    simp [entries]
  | cons line lines ih =>
    rw [List.length_cons] at hfuel
    obtain ⟨fuel, rfl⟩ : ∃ k, fuel = k + 2 := ⟨fuel - 2, by omega⟩
    have henough : lines.length < fuel + 1 := by omega
    have hrest := ih henough
    simp only [List.flatMap_cons, Line.tokens, List.cons_append, List.nil_append, entries, orMissing,
      behindColon, node_scalar, List.contains_eq_mem, List.mem_cons, reduceCtorEq, List.not_mem_nil,
      or_false, decide_false, Bool.false_eq_true, if_false, hrest, Option.map_some, List.map_cons,
      Line.nodes]

end Node

/-- **A text of lines is read** as a mapping with an entry for each. -/
theorem read_lines (line : Line) (lines : List Line) :
    read (String.ofList ((line :: lines).flatMap Line.chars)) =
      some (.mapping none ((line :: lines).map Line.nodes)) := by
  have hchars : ∀ c ∈ (line :: lines).flatMap Line.chars, isPrintable c = true ∨ c = '\n' := by
    intro c hc
    obtain ⟨l, -, hl⟩ := List.mem_flatMap.mp hc
    exact l.isPrintable_or_newline c hl
  have hlength : (line :: lines).length ≤ ((line :: lines).flatMap Line.tokens).length := by
    generalize line :: lines = lines
    induction lines with
    | nil => simp
    | cons line lines ih =>
      simp only [List.flatMap_cons, List.length_append, List.length_cons, Line.tokens] at ih ⊢
      omega
  rw [read, String.toList_ofList, if_pos (isLegal_of_lines hchars), unify_of_lines hchars,
    tokens?_lines, Option.bind_some]
  generalize line :: lines = lines at hlength ⊢
  obtain ⟨fuel, hfuel, henough⟩ : ∃ fuel, Node.stepBound
      (.blockMapping :: (lines.flatMap Line.tokens ++ [.blockEnd])) = fuel + 1 ∧
        lines.length < fuel := by
    refine ⟨_, rfl, ?_⟩
    rw [List.length_cons, List.length_append]
    omega
  have hread : Node.read? (.blockMapping :: (lines.flatMap Line.tokens ++ [.blockEnd])) =
      some (.mapping none (lines.map Line.nodes), []) := by
    rw [Node.read?, hfuel]
    simp [Node.node, Node.Properties.read, Node.Properties.attach, Node.entries_lines lines henough]
  rw [List.cons_append, Node.ofTokens?.eq_def]
  simp [hread, Node.alone?]

/-- **The entries of a text of lines** are those of each. -/
theorem entries?_lines (line : Line) (lines : List Line) :
    (read (String.ofList ((line :: lines).flatMap Line.chars))).bind Node.entries? =
      some ((line :: lines).map Line.entry) := by
  rw [read_lines, Option.bind_some]
  generalize line :: lines = lines
  have hpairs {read : Node × Node → Option (String × Node)}
      (hread : ∀ line : Line, read line.nodes = some line.entry) :
      (lines.map Line.nodes).mapM read = some (lines.map Line.entry) := by
    induction lines with
    | nil => rfl
    | cons line lines ih =>
      rw [List.map_cons, List.mapM_cons, hread, ih]
      rfl
  exact hpairs fun _ => rfl

end Yaml

end FramedDuplex
