import FramedDuplex.Message
import Mathlib.Data.List.Nodup
/-!
# The fields of a message type

A message of a schema is a value for each field the schema registers, at every
level, and nothing else (`Schema.Covers`). The paths under which it is found
are those of `Schema.Registers`. Where each field is registered once, the names of
the fields are distinct within one level (`Schema.NamesDistinct`).
-/

namespace FramedDuplex

/-- **Setting a field to what it is changes nothing.** -/
theorem Message.set_get [OwnTypes] (m : Message) (field : String) (type : ValueType) :
    m.set field type (m.get field type) = m := by
  ext path t
  by_cases h : path = [field] ∧ type = t
  · obtain ⟨rfl, rfl⟩ := h
    simp [set, get]
  · simp [set, h]

namespace Schema

/-- A header has a field of a type at a path. -/
def HasField (header : List HeaderField) (path : List String) (type : ValueType) : Prop :=
  ∃ f ∈ header, path = [f.name] ∧ type = f.type

/-- A schema has a field of a type at a path, at its own level or further in. -/
def Registers : Schema → List String → ValueType → Prop
  | flat _ header, path, type => HasField header path type
  | withBody _ header body, path, type =>
    HasField header path type ∨ (path = [body.name] ∧ type = body.type)
  | withMessage _ header part inner, path, type =>
    HasField header path type ∨ ∃ rest, path = part.name :: rest ∧ inner.Registers rest type

/-- At every level, no two fields have one name. -/
def NamesDistinct : Schema → Prop
  | flat _ header => (header.map (·.name)).Nodup
  | withBody _ header body => (header.map (·.name) ++ [body.name]).Nodup
  | withMessage _ header part inner =>
    (header.map (·.name) ++ [part.name]).Nodup ∧ inner.NamesDistinct

/-- A message has values for the fields of a schema and for nothing else. -/
def Covers [OwnTypes] (s : Schema) (m : Message) : Prop :=
  ∀ path type, ¬ s.Registers path type → m.slot path type = type.blank

variable {header : List HeaderField} {path : List String} {type : ValueType} {name : String}

/-- What follows a header is named unlike its fields. -/
theorem ne_of_nodup_concat (h : (header.map (·.name) ++ [name]).Nodup) {f : HeaderField}
    (hf : f ∈ header) : f.name ≠ name := by
  have disjoint := (List.nodup_append.mp h).2.2
  exact disjoint f.name (List.mem_map_of_mem hf) name (by simp)

/-- A header field is reached by its name alone. -/
theorem eq_singleton_of_hasField (h : HasField header path type) :
    ∃ f ∈ header, path = [f.name] := by
  obtain ⟨f, hf, hpath, -⟩ := h
  exact ⟨f, hf, hpath⟩

/-- What follows a header is none of its fields. -/
theorem not_hasField_of_nodup_concat (h : (header.map (·.name) ++ [name]).Nodup)
    (rest : List String) : ¬ HasField header (name :: rest) type := by
  rintro ⟨f, hf, hpath, -⟩
  exact ne_of_nodup_concat h hf (List.cons.inj hpath).1.symm

/-- A schema registers the fields of its header. -/
theorem registers_of_hasField {s : Schema} (h : HasField s.header path type) :
    s.Registers path type := by
  cases s with
  | flat name header => exact h
  | withBody name header body => exact .inl h
  | withMessage name header part inner => exact .inl h

/-! ## Messages with nothing beside the fields of a schema -/

variable [OwnTypes]

/-- A message that was never set has nothing beside them. -/
theorem covers_blank (s : Schema) : s.Covers .blank := fun _ _ _ => rfl

/-- Setting a registered field adds nothing beside them. -/
theorem Covers.set {s : Schema} {m : Message} (h : s.Covers m) (hin : s.Registers [name] type)
    (v : type.Carrier) : s.Covers (m.set name type v) := by
  intro path t hout
  have hne : ¬ (path = [name] ∧ type = t) := by
    rintro ⟨rfl, rfl⟩
    exact hout hin
  rw [← h path t hout]
  simp [Message.set, hne]

/-- Nor does putting in a message of the inner schema. -/
theorem Covers.setPart {part : PartField} {inner : Schema} {m within : Message}
    (h : (withMessage name header part inner).Covers m) (hwithin : inner.Covers within) :
    (withMessage name header part inner).Covers (m.setPart part.name within) := by
  intro path t hout
  cases path with
  | nil => exact h [] t hout
  | cons first rest =>
    by_cases hfirst : first = part.name
    · subst hfirst
      simp only [Message.setPart, if_true]
      exact hwithin rest t fun hin => hout (.inr ⟨rest, rfl, hin⟩)
    · rw [← h _ t hout]
      simp [Message.setPart, hfirst]

/-! ## Messages that were read -/

/-- What was read is what was written where a schema registers a field, and blank
elsewhere. -/
structure Renders (s : Schema) (read written : Message) : Prop where
  inside : ∀ path type, s.Registers path type → read.slot path type = written.slot path type
  outside : ∀ path type, ¬ s.Registers path type → read.slot path type = type.blank

/-- **What was read is what was written** if nothing else was written. -/
theorem Renders.eq {s : Schema} {read written : Message} (h : s.Renders read written)
    (covers : s.Covers written) : read = written := by
  ext path type
  by_cases hpath : s.Registers path type
  · exact h.inside path type hpath
  · rw [h.outside path type hpath, covers path type hpath]

/-- It does not matter what was written elsewhere. -/
theorem Renders.congr {s : Schema} {read written other : Message} (h : s.Renders read written)
    (heq : ∀ path type, s.Registers path type → other.slot path type = written.slot path type) :
    s.Renders read other :=
  ⟨fun path type hin => (h.inside path type hin).trans (heq path type hin).symm, h.outside⟩

/-- So a body may be another one, -/
theorem Renders.set {owner : String} {read written : Message}
    (h : (flat owner header).Renders read written) (hout : ¬ HasField header [name] type)
    (v : type.Carrier) : (flat owner header).Renders read (written.set name type v) := by
  refine h.congr fun path t hin => ?_
  have hne : ¬ (path = [name] ∧ type = t) := by
    rintro ⟨rfl, rfl⟩
    exact hout hin
  simp [Message.set, hne]

/-- and so may an inner message. -/
theorem Renders.setPart {owner : String} {read written : Message}
    (h : (flat owner header).Renders read written)
    (distinct : (header.map (·.name) ++ [name]).Nodup) (within : Message) :
    (flat owner header).Renders read (written.setPart name within) := by
  refine h.congr fun path t hin => ?_
  obtain ⟨f, hf, rfl⟩ := eq_singleton_of_hasField hin
  simp [Message.setPart, ne_of_nodup_concat distinct hf]

/-- A body is read beside the header. -/
theorem Renders.withBody {owner : String} {body : BodyField} {read written : Message}
    (h : (flat owner header).Renders read written)
    (distinct : (header.map (·.name) ++ [body.name]).Nodup) :
    (withBody owner header body).Renders
      (read.set body.name body.type (written.get body.name body.type)) written where
  inside := by
    rintro path type (hfield | ⟨rfl, rfl⟩)
    · have hne : ¬ (path = [body.name] ∧ body.type = type) := by
        rintro ⟨rfl, rfl⟩
        exact not_hasField_of_nodup_concat distinct [] hfield
      rw [← h.inside path type hfield]
      simp [Message.set, hne]
    · exact Message.get_set read body.name body.type _
  outside := by
    intro path type hpath
    have hne : ¬ (path = [body.name] ∧ body.type = type) := by
      rintro ⟨rfl, rfl⟩
      exact hpath (.inr ⟨rfl, rfl⟩)
    rw [← h.outside path type fun hfield => hpath (.inl hfield)]
    simp [Message.set, hne]

/-- So is an inner message. -/
theorem Renders.withMessage {owner : String} {part : PartField} {inner : Schema}
    {read written within : Message} (h : (flat owner header).Renders read written)
    (distinct : (header.map (·.name) ++ [part.name]).Nodup)
    (hwithin : inner.Renders within (written.part part.name)) :
    (withMessage owner header part inner).Renders (read.setPart part.name within) written where
  inside := by
    rintro path type (hfield | ⟨rest, rfl, hrest⟩)
    · obtain ⟨f, hf, rfl⟩ := eq_singleton_of_hasField hfield
      have hne := ne_of_nodup_concat distinct hf
      rw [← h.inside _ type hfield]
      simp [Message.setPart, hne]
    · simp only [Message.setPart, if_true]
      exact hwithin.inside rest type hrest
  outside := by
    intro path type hpath
    cases path with
    | nil => exact h.outside [] type fun hfield => hpath (.inl hfield)
    | cons first rest =>
      by_cases hfirst : first = part.name
      · subst hfirst
        simp only [Message.setPart, if_true]
        exact hwithin.outside rest type fun hrest => hpath (.inr ⟨rest, rfl, hrest⟩)
      · rw [← h.outside _ type fun hfield => hpath (.inl hfield)]
        simp [Message.setPart, hfirst]

end Schema

end FramedDuplex
