import FramedDuplex.Proofs.Schema.Fields
import FramedDuplex.Proofs.Schema.Within
/-!
# Length fields

The values of a message are of two kinds: its lengths, which the codec works out
(`Schema.IsLength`), and everything else, which the caller sets
(`Schema.IsPayload`). A message inside that cannot be set keeps its lengths too,
so the lengths that writing can change are those on no path through such a message
(`Schema.IsOpenLength`), and what is below one is out of reach (`Schema.IsSealed`).

A schema that a layout makes has one length field at most at each level
(`Schema.oneLength_of_ofLayout`), so the length field that the codec looks up is
the only one there is.
-/

namespace FramedDuplex

theorem HeaderContent.eq_length_of_role {content : HeaderContent} (h : content.role = .length) :
    ∃ type, content = .length type := by
  cases content with
  | length type => exact ⟨type, rfl⟩
  | metaData type => cases h
  | identifier type => cases h

namespace Schema

/-! ## The fields by the parts they play -/

/-- A header has a field of a type at a path, and its part is one of those meant. -/
def HeaderPlays (meant : FieldRole → Prop) (header : List HeaderField) (path : List String)
    (type : ValueType) : Prop :=
  ∃ f ∈ header, meant f.content.role ∧ path = [f.name] ∧ type = f.type

/-- A schema has a field of a type at a path, at its own level or further in, and its
part is one of those meant. -/
def Plays (meant : FieldRole → Prop) : Schema → List String → ValueType → Prop
  | flat _ header, path, type => HeaderPlays meant header path type
  | withBody _ header body, path, type =>
    HeaderPlays meant header path type ∨ (meant .body ∧ path = [body.name] ∧ type = body.type)
  | withMessage _ header part inner, path, type =>
    HeaderPlays meant header path type ∨
      ∃ rest, path = part.name :: rest ∧ inner.Plays meant rest type

/-- A length, at whatever level. -/
abbrev IsLength (s : Schema) : List String → ValueType → Prop := s.Plays (· = .length)

/-- Any other value, at whatever level. -/
abbrev IsPayload (s : Schema) : List String → ValueType → Prop := s.Plays (· ≠ .length)

/-- A body, at whatever level. -/
abbrev IsBody (s : Schema) : List String → ValueType → Prop := s.Plays (· = .body)

/-- A length that is reached through messages that can be set. -/
def IsOpenLength : Schema → List String → ValueType → Prop
  | flat _ header, path, type => HeaderPlays (· = .length) header path type
  | withBody _ header _, path, type => HeaderPlays (· = .length) header path type
  | withMessage _ header part inner, path, type =>
    HeaderPlays (· = .length) header path type ∨
      part.writable = true ∧ ∃ rest, path = part.name :: rest ∧ inner.IsOpenLength rest type

/-- A path leads into a message that cannot be set. -/
def IsSealed : Schema → List String → Prop
  | flat .., _ => False
  | withBody .., _ => False
  | withMessage _ _ part inner, path =>
    ∃ first rest, path = part.name :: first :: rest ∧
      (part.writable = false ∨ inner.IsSealed (first :: rest))

variable {s : Schema} {header : List HeaderField} {path : List String} {type : ValueType}
variable {meant : FieldRole → Prop} {l : LengthField}

theorem plays_of_headerPlays (h : HeaderPlays meant s.header path type) :
    s.Plays meant path type := by
  cases s with
  | flat name header => exact h
  | withBody name header body => exact .inl h
  | withMessage name header part inner => exact .inl h

theorem HeaderPlays.hasField (h : HeaderPlays meant header path type) :
    HasField header path type := by
  obtain ⟨f, hf, -, hpath, htype⟩ := h
  exact ⟨f, hf, hpath, htype⟩

/-- A field is a field whatever its part. -/
theorem Plays.registers (h : s.Plays meant path type) : s.Registers path type := by
  induction s generalizing path with
  | flat name header => exact h.hasField
  | withBody name header body =>
    rcases h with h | ⟨-, hbody⟩
    · exact .inl h.hasField
    · exact .inr hbody
  | withMessage name header part inner ih =>
    rcases h with h | ⟨rest, hpath, hrest⟩
    · exact .inl h.hasField
    · exact .inr ⟨rest, hpath, ih hrest⟩

/-- Fields have names, so no path to one is empty. -/
theorem Plays.ne_nil (h : s.Plays meant path type) : path ≠ [] := by
  have own {header : List HeaderField} (h : HeaderPlays meant header path type) : path ≠ [] := by
    obtain ⟨f, -, -, rfl, -⟩ := h
    exact List.cons_ne_nil _ _
  cases s with
  | flat name header => exact own h
  | withBody name header body =>
    rcases h with h | ⟨-, rfl, -⟩
    · exact own h
    · exact List.cons_ne_nil _ _
  | withMessage name header part inner =>
    rcases h with h | ⟨rest, rfl, -⟩
    · exact own h
    · exact List.cons_ne_nil _ _

/-- A field that plays one part plays any that covers it. -/
theorem Plays.imp {meant' : FieldRole → Prop} (h : s.Plays meant path type)
    (hmeant : ∀ role, meant role → meant' role) : s.Plays meant' path type := by
  have own {header : List HeaderField} {path : List String}
      (h : HeaderPlays meant header path type) : HeaderPlays meant' header path type := by
    obtain ⟨f, hf, hrole, hpath, htype⟩ := h
    exact ⟨f, hf, hmeant _ hrole, hpath, htype⟩
  induction s generalizing path with
  | flat name header => exact own h
  | withBody name header body => exact h.imp own fun hbody => ⟨hmeant _ hbody.1, hbody.2⟩
  | withMessage name header part inner ih =>
    rcases h with h | ⟨rest, hpath, hrest⟩
    · exact .inl (own h)
    · exact .inr ⟨rest, hpath, ih hrest⟩

/-- On a path into the message inside, a field is one of that message's. -/
theorem plays_part_iff {name : String} {part : PartField} {inner : Schema}
    {rest : List String} (hrest : rest ≠ []) :
    (withMessage name header part inner).Plays meant (part.name :: rest) type ↔
      inner.Plays meant rest type := by
  constructor
  · rintro (⟨f, -, -, hpath, -⟩ | ⟨rest', hpath, h⟩)
    · exact absurd (List.cons.inj hpath).2 hrest
    · obtain rfl := (List.cons.inj hpath).2
      exact h
  · exact fun h => .inr ⟨rest, rfl, h⟩

/-- A length that can be set is a length, -/
theorem IsOpenLength.isLength (h : s.IsOpenLength path type) : s.IsLength path type := by
  induction s generalizing path with
  | flat name header => exact h
  | withBody name header body => exact .inl h
  | withMessage name header part inner ih =>
    rcases h with h | ⟨-, rest, hpath, hrest⟩
    · exact .inl h
    · exact .inr ⟨rest, hpath, ih hrest⟩

/-- A length is an integer. -/
theorem HeaderPlays.type_eq (h : HeaderPlays (· = .length) header path type) :
    ∃ t, type = .scalar (.int t) := by
  obtain ⟨f, -, hrole, -, rfl⟩ := h
  obtain ⟨t, hcontent⟩ := HeaderContent.eq_length_of_role hrole
  exact ⟨t, by rw [HeaderField.type, hcontent]; rfl⟩

theorem IsOpenLength.type_eq (h : s.IsOpenLength path type) : ∃ t, type = .scalar (.int t) := by
  induction s generalizing path with
  | flat name header => exact h.type_eq
  | withBody name header body => exact h.type_eq
  | withMessage name header part inner ih =>
    rcases h with h | ⟨-, rest, -, hrest⟩
    · exact h.type_eq
    · exact ih hrest

/-- The length field of a header is a length. -/
theorem headerPlays_of_lengthFieldFrom {offset : ℕ} (h : lengthFieldFrom offset header = some l) :
    HeaderPlays (· = .length) header [l.name] (.scalar (.int l.type)) := by
  induction header generalizing offset with
  | nil => cases h
  | cons f rest ih =>
    rw [lengthFieldFrom] at h
    split at h
    · next type htype =>
      obtain rfl := Option.some.inj h
      exact ⟨f, by simp, by rw [htype]; rfl, rfl,
        by rw [HeaderField.type, htype]; rfl⟩
    · obtain ⟨g, hg, he⟩ := ih h
      exact ⟨g, by simp [hg], he⟩

/-- At every level, the header has one length field at most. -/
def OneLength : Schema → Prop
  | flat _ header => header.countP (·.content.role = .length) ≤ 1
  | withBody _ header _ => header.countP (·.content.role = .length) ≤ 1
  | withMessage _ header _ inner =>
    header.countP (·.content.role = .length) ≤ 1 ∧ inner.OneLength

theorem OneLength.here (h : s.OneLength) : s.header.countP (·.content.role = .length) ≤ 1 := by
  cases s with
  | flat name header => exact h
  | withBody name header body => exact h
  | withMessage name header part inner => exact h.1

/-- **The only length field is the one that is found.** -/
theorem lengthFieldFrom_of_mem (offset : ℕ) (one : header.countP (·.content.role = .length) ≤ 1)
    {f : HeaderField} (hf : f ∈ header) {type : IntType} (hcontent : f.content = .length type) :
    ∃ start, lengthFieldFrom offset header = some ⟨f.name, type, f.length, f.reversed, start⟩ := by
  have hrole : f.content.role = .length := by rw [hcontent]; rfl
  induction header generalizing offset with
  | nil => cases hf
  | cons g rest ih =>
    rw [List.countP_cons] at one
    rcases List.mem_cons.mp hf with rfl | hf
    · exact ⟨offset, by rw [lengthFieldFrom, hcontent]⟩
    · -- the first field is not another one
      have hlater : 0 < rest.countP (·.content.role = .length) :=
        List.countP_pos_iff.mpr ⟨f, hf, by simpa using hrole⟩
      have hfirst : g.content.role ≠ .length := by
        intro h
        simp only [h, decide_true, if_true] at one
        omega
      rw [lengthFieldFrom]
      split
      · next type htype => exact absurd (by rw [htype]; rfl) hfirst
      · exact ih (offset + g.length) (by omega) hf

end Schema

end FramedDuplex
