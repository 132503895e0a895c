import FramedDuplex.Codec.Basic
import FramedDuplex.Proofs.Schema.Sound
/-!
# The fields at every depth

A message type has its own fields and those of the messages inside it
(`Layout.Has`), and a schema has the fields that its layout declares, at every
depth (`Schema.has_iff_of_ofLayout`).

What the fields ask of the converters is gathered from them once, when the schema
is made. That it is all there can be said field by field: nothing is lacking
exactly if no field at any depth lacks a converter (`Codec.lack?_eq_none_iff`), and
reading can set every message exactly if none is declared read-only
(`Schema.undecodable?_eq_none_iff`).
-/

namespace FramedDuplex

/-- A field of a layout, or of a message at any depth inside it. -/
inductive Layout.Has : Layout → Schema.Descriptor → Prop where
  | own {l : Layout} {d : Schema.Descriptor} : d ∈ l.declared → Has l d
  | inside {l inner : Layout} {f : Declaration Layout} {d : Schema.Descriptor} :
      f ∈ l.fields → f.kind = .composed inner → Has inner d → Has l d

/-- A registry lacks a converter for the values of a type in a field of `length`
bytes: there is none, and the type needs one or does not fit there. -/
def Registry.Lacks [OwnTypes] (r : Registry) (type : ValueType) (length : ℕ) : Prop :=
  r.contains type = false ∧
    (type.needsConverter = true ∨ ∃ kind, type = .scalar kind ∧ length < kind.width)

namespace Schema

/-- A field of a schema, or of a message at any depth inside it. -/
def Has : Schema → Descriptor → Prop
  | flat name header, d => d ∈ (flat name header).descriptors
  | withBody name header body, d => d ∈ (withBody name header body).descriptors
  | withMessage name header part inner, d =>
    d ∈ (withMessage name header part inner).descriptors ∨ inner.Has d

/-- The types of the values at every depth, with the lengths of their fields. -/
def demands : Schema → List (ValueType × ℕ)
  | flat _ header => header.map fun f => (f.type, f.length)
  | withBody _ header body => (header.map fun f => (f.type, f.length)) ++ [(body.type, 0)]
  | withMessage _ header _ inner => (header.map fun f => (f.type, f.length)) ++ inner.demands

variable {l : Layout} {s inner : Schema} {d : Descriptor} {type : ValueType} {n : ℕ}
variable {header : List HeaderField} {owner : String}

/-! ## A schema has what its layout declares -/

/-- Each declaration is made into one, and each that was made comes from one. -/
theorem mem_of_made {ds : List (Declaration Layout)} {made : List (Declaration Schema)}
    (h : List.Forall₂ Made ds made) :
    (∀ f ∈ ds, ∃ e ∈ made, Made f e) ∧ ∀ e ∈ made, ∃ f ∈ ds, Made f e := by
  induction h with
  | nil => simp
  | cons hfirst _ ih =>
    obtain ⟨hforth, hback⟩ := ih
    refine ⟨List.forall_mem_cons.mpr ⟨⟨_, List.mem_cons_self, hfirst⟩, fun f hf => ?_⟩,
      List.forall_mem_cons.mpr ⟨⟨_, List.mem_cons_self, hfirst⟩, fun e he => ?_⟩⟩
    · obtain ⟨e, he, hfe⟩ := hforth f hf
      exact ⟨e, List.mem_cons_of_mem _ he, hfe⟩
    · obtain ⟨f, hf, hfe⟩ := hback e he
      exact ⟨f, List.mem_cons_of_mem _ hf, hfe⟩

/-- A declared message is what follows the header. -/
theorem withMessage_of_composed (h : ofLayout l = .ok s) {f : Declaration Layout}
    (hf : f ∈ l.fields) {within : Layout} (hkind : f.kind = .composed within) :
    ∃ header part inner, s = .withMessage l.name header part inner ∧
      ofLayout within = .ok inner := by
  obtain ⟨made, hmade, hassemble⟩ := ofLayout_eq_ok_iff.mp h
  obtain ⟨hroles, -, header, -, hclose⟩ := assemble_ok hassemble
  obtain ⟨e, he, hfe⟩ := (mem_of_made hmade).1 f hf
  obtain ⟨hpart⟩ := hfe
  obtain rfl : _ = FieldKind.composed within := hkind
  cases hpart with
  | @composed _ inner hinner =>
    rw [find?_not_isFixed hroles he rfl, close] at hclose
    split_ifs at hclose with hend
    exact ⟨header, _, inner, (Except.ok.inj hclose).symm, hinner⟩

/-- What follows the header, if it is a message, was declared. -/
theorem composed_of_withMessage {part : PartField}
    (h : ofLayout l = .ok (.withMessage owner header part inner)) :
    ∃ f ∈ l.fields, ∃ within, f.kind = .composed within ∧ ofLayout within = .ok inner := by
  obtain ⟨made, hmade, hassemble⟩ := ofLayout_eq_ok_iff.mp h
  obtain ⟨-, -, laid, -, hclose⟩ := assemble_ok hassemble
  cases hfind : made.find? (!·.isFixed) with
  | none =>
    rw [hfind, close] at hclose
    cases hclose
  | some e =>
    obtain ⟨f, hf, hfe⟩ := (mem_of_made hmade).2 e (List.mem_of_find?_eq_some hfind)
    obtain ⟨hpart⟩ := hfe
    rw [hfind, close] at hclose
    split_ifs at hclose with hend
    cases hpart with
    | composed hwithin =>
      cases hclose
      exact ⟨_, hf, _, rfl, hwithin⟩
    | _ => cases hclose

/-- A field of a schema is one of those at every depth. -/
theorem has_of_mem (h : d ∈ s.descriptors) : s.Has d := by
  cases s with
  | flat name header => exact h
  | withBody name header body => exact h
  | withMessage name header part inner => exact .inl h

/-- **A schema has the declared fields at every depth.** -/
theorem has_iff_of_ofLayout (h : ofLayout l = .ok s) : l.Has d ↔ s.Has d := by
  induction l using Layout.induction generalizing s with
  | step l ih =>
    have hown : d ∈ l.declared ↔ d ∈ s.descriptors := (descriptors_perm_of_ofLayout h).mem_iff.symm
    constructor
    · rintro (hd | ⟨hf, hkind, hd⟩)
      · exact has_of_mem (hown.mp hd)
      · obtain ⟨header, part, inner, rfl, hinner⟩ := withMessage_of_composed h hf hkind
        exact .inr ((ih _ hf _ hkind hinner).mp hd)
    · intro hd
      cases s with
      | flat name header => exact .own (hown.mpr hd)
      | withBody name header body => exact .own (hown.mpr hd)
      | withMessage name header part inner =>
        rcases hd with hd | hd
        · exact .own (hown.mpr hd)
        · obtain ⟨f, hf, within, hkind, hwithin⟩ := composed_of_withMessage h
          exact .inside hf hkind ((ih f hf within hkind hwithin).mpr hd)

/-! ## What the fields demand -/

/-- The values of a header are those of its fields. -/
theorem mem_demands_header : (type, n) ∈ header.map (fun f => (f.type, f.length)) ↔
    ∃ d ∈ describeFrom 0 header, d.content = .value type ∧ d.length = n := by
  rw [List.mem_map]
  constructor
  · rintro ⟨f, hf, he⟩
    obtain ⟨rfl, rfl⟩ := Prod.mk.inj he
    obtain ⟨d, hd, -, hlength, hcontent⟩ := exists_mem_describeFrom hf 0
    exact ⟨d, hd, hcontent, hlength⟩
  · rintro ⟨d, hd, hcontent, rfl⟩
    obtain ⟨-, -, -, -, f, hf, -, hlength, -, hvalue, -⟩ := of_mem_describeFrom hd
    obtain rfl : f.type = type := FieldContent.value.inj (hvalue.symm.trans hcontent)
    exact ⟨f, hf, by rw [hlength]⟩

/-- **Every value at every depth is in demand**, and nothing else is. -/
theorem mem_demands_iff : (type, n) ∈ s.demands ↔
    ∃ d, s.Has d ∧ d.content = .value type ∧ d.length = n := by
  induction s with
  | flat name header =>
    rw [demands, mem_demands_header]
    simp only [Has, descriptors, Schema.header, List.append_nil]
  | withBody name header body =>
    rw [demands, List.mem_append, mem_demands_header]
    simp only [Has, descriptors, Schema.header, List.mem_append, List.mem_singleton, or_and_right,
      exists_or, exists_eq_left, Prod.mk.injEq, FieldContent.value.injEq]
    rw [eq_comm (a := type), eq_comm (a := n)]
  | withMessage name header part inner ih =>
    rw [demands, List.mem_append, mem_demands_header, ih]
    simp only [Has, descriptors, Schema.header, List.mem_append, List.mem_singleton, or_and_right,
      exists_or, exists_eq_left, reduceCtorEq, false_and, or_false]

/-- Gathering types keeps those that need a converter. -/
theorem mem_foldl_addCustom {types gathered : List ValueType} :
    type ∈ types.foldl addCustom gathered ↔
      type ∈ gathered ∨ type.needsConverter = true ∧ type ∈ types := by
  induction types generalizing gathered with
  | nil => simp
  | cons first rest ih =>
    rw [List.foldl_cons, ih, List.mem_cons, addCustom]
    split_ifs with hfirst
    · rw [List.mem_append, List.mem_singleton]
      constructor
      · rintro ((h | rfl) | h)
        · exact .inl h
        · exact .inr ⟨hfirst.1, .inl rfl⟩
        · exact .inr ⟨h.1, .inr h.2⟩
      · rintro (h | ⟨hneeds, rfl | h⟩)
        · exact .inl (.inl h)
        · exact .inl (.inr rfl)
        · exact .inr ⟨hneeds, h⟩
    · constructor
      · rintro (h | h)
        · exact .inl h
        · exact .inr ⟨h.1, .inr h.2⟩
      · rintro (h | ⟨hneeds, rfl | h⟩)
        · exact .inl h
        · -- a type that needs a converter and is not gathered now has been before
          by_contra hnot
          exact hfirst ⟨hneeds, fun hin => hnot (.inl hin)⟩
        · exact .inr ⟨hneeds, h⟩

/-- **The gathered types are the ones in demand** that need a converter. -/
theorem mem_customTypes_iff : type ∈ s.customTypes ↔
    type.needsConverter = true ∧ ∃ n, (type, n) ∈ s.demands := by
  have hheader (header : List HeaderField) : type ∈ header.map (·.type) ↔
      ∃ n, (type, n) ∈ header.map fun f => (f.type, f.length) := by
    simp [Prod.ext_iff]
  induction s with
  | flat name header =>
    simp only [customTypes, demands, mem_foldl_addCustom, hheader, List.not_mem_nil, false_or]
  | withBody name header body =>
    simp only [customTypes, demands, mem_foldl_addCustom, List.mem_append, hheader,
      List.mem_singleton, Prod.mk.injEq, List.not_mem_nil, false_or, exists_or, exists_and_left,
      exists_eq, and_true]
  | withMessage name header part inner ih =>
    simp only [customTypes, demands, mem_foldl_addCustom, List.mem_append, hheader, ih, exists_or,
      ← and_or_left]
    rw [or_comm]

/-- A scalar in too narrow a field is a narrow field. -/
theorem exists_narrow?_iff (owner field : String) (type : ValueType) (n : ℕ) (kind : Scalar) :
    (∃ f, narrow? owner field type n = some f ∧ f.kind = kind) ↔
      type = .scalar kind ∧ n < kind.width := by
  cases type with
  | scalar other =>
    rw [narrow?]
    split_ifs with hnarrow
    · constructor
      · rintro ⟨f, hf, rfl⟩
        obtain rfl := Option.some.inj hf
        exact ⟨rfl, hnarrow⟩
      · rintro ⟨he, -⟩
        exact ⟨_, rfl, ValueType.scalar.inj he⟩
    · simp only [false_and, exists_false, false_iff]
      rintro ⟨he, hlt⟩
      exact hnarrow (ValueType.scalar.inj he ▸ hlt)
  | _ => simp [narrow?]

/-- **The narrow fields are the scalars in demand** that do not fit. -/
theorem exists_narrowFields_iff {kind : Scalar} : (∃ f ∈ s.narrowFields, f.kind = kind) ↔
    ∃ n, (.scalar kind, n) ∈ s.demands ∧ n < kind.width := by
  have hheader (owner : String) (header : List HeaderField) :
      (∃ f ∈ narrowIn owner header, f.kind = kind) ↔
        ∃ n, (.scalar kind, n) ∈ (header.map fun f => (f.type, f.length)) ∧ n < kind.width := by
    simp only [narrowIn, List.mem_filterMap, List.mem_map, Prod.mk.injEq]
    constructor
    · rintro ⟨f, ⟨g, hg, hf⟩, hkind⟩
      obtain ⟨htype, hlt⟩ := (exists_narrow?_iff _ _ _ _ _).mp ⟨f, hf, hkind⟩
      exact ⟨g.length, ⟨g, hg, htype, rfl⟩, hlt⟩
    · rintro ⟨n, ⟨g, hg, htype, rfl⟩, hlt⟩
      obtain ⟨f, hf, hkind⟩ := (exists_narrow?_iff _ _ _ _ _).mpr ⟨htype, hlt⟩
      exact ⟨f, ⟨g, hg, hf⟩, hkind⟩
  induction s with
  | flat name header => rw [narrowFields, demands, hheader]
  | withBody name header body =>
    have hbody := exists_narrow?_iff name body.name body.type 0 kind
    simp only [narrowFields, demands, List.mem_append, Option.mem_toList, or_and_right, exists_or,
      hheader, List.mem_singleton, Prod.mk.injEq]
    rw [hbody]
    refine or_congr_right ⟨?_, ?_⟩
    · rintro ⟨htype, hlt⟩
      exact ⟨0, ⟨htype.symm, rfl⟩, hlt⟩
    · rintro ⟨n, ⟨htype, rfl⟩, hlt⟩
      exact ⟨htype.symm, hlt⟩
  | withMessage name header part inner ih =>
    simp only [narrowFields, demands, List.mem_append, or_and_right, exists_or, hheader, ih]

/-- No header field is a message. -/
theorem role_ne_of_mem_describeFrom (h : d ∈ describeFrom 0 header) : d.role ≠ .composed := by
  intro hrole
  obtain ⟨hfixed, -⟩ := of_mem_describeFrom h
  simp [Descriptor.isVariable, hrole] at hfixed

/-- **Reading can set every message** exactly if none is declared read-only. -/
theorem undecodable?_eq_none_iff : s.undecodable? = none ↔
    ∀ d, s.Has d → d.role = .composed → d.writable = true := by
  induction s with
  | flat name header =>
    refine ⟨fun _ d hd hrole => ?_, fun _ => rfl⟩
    rw [Has, descriptors, List.append_nil] at hd
    exact absurd hrole (role_ne_of_mem_describeFrom hd)
  | withBody name header body =>
    refine ⟨fun _ d hd hrole => ?_, fun _ => rfl⟩
    rw [Has, descriptors, List.mem_append, List.mem_singleton] at hd
    rcases hd with hd | rfl
    · exact absurd hrole (role_ne_of_mem_describeFrom hd)
    · cases hrole
  | withMessage name header part inner ih =>
    rw [undecodable?]
    by_cases hset : part.writable = true
    · rw [if_pos hset, ih]
      refine ⟨fun h d hd hrole => ?_, fun h d hd => h d (.inr hd)⟩
      rcases hd with hd | hd
      · rw [descriptors, List.mem_append, List.mem_singleton] at hd
        rcases hd with hd | rfl
        · exact absurd hrole (role_ne_of_mem_describeFrom hd)
        · exact hset
      · exact h d hd hrole
    · rw [if_neg hset]
      simp only [reduceCtorEq, false_iff]
      intro h
      exact hset (h _ (.inl (List.mem_append_right _ List.mem_cons_self)) rfl)

end Schema

namespace Codec

variable [OwnTypes] {c : Codec} {s : Schema}

/-- No field at any depth lacks a converter. -/
def Equips (c : Codec) (s : Schema) : Prop :=
  ∀ d, s.Has d → ∀ type, d.content = .value type → ¬ c.registry.Lacks type d.length

/-- What is gathered from the fields is all there exactly if each type and each
narrow field has its converter. -/
theorem lack?_eq_none_iff_gathered : c.lack? s = none ↔
    (∀ type ∈ s.customTypes, c.registry.contains type = true) ∧
      ∀ f ∈ s.narrowFields, c.registry.contains (.scalar f.kind) = true := by
  rw [lack?]
  cases hcustom : s.customTypes.find? fun type => !c.registry.contains type with
  | some type =>
    simp only [reduceCtorEq, false_iff, not_and]
    intro hall
    have hmissing := List.find?_some hcustom
    rw [hall type (List.mem_of_find?_eq_some hcustom)] at hmissing
    cases hmissing
  | none =>
    have hall : ∀ type ∈ s.customTypes, c.registry.contains type = true := by
      simpa using hcustom
    simp only [Option.map_eq_none_iff, List.find?_eq_none, Bool.not_eq_true', Bool.not_eq_false]
    exact ⟨fun h => ⟨hall, h⟩, fun h => h.2⟩

/-- **Nothing is lacking** exactly if no field at any depth lacks a converter. -/
theorem lack?_eq_none_iff : c.lack? s = none ↔ c.Equips s := by
  rw [lack?_eq_none_iff_gathered]
  constructor
  · rintro ⟨hcustom, hnarrow⟩ d hd type hcontent ⟨hmissing, hneeds | ⟨kind, rfl, hlt⟩⟩
    · have hin : (type, d.length) ∈ s.demands := Schema.mem_demands_iff.mpr ⟨d, hd, hcontent, rfl⟩
      rw [hcustom type (Schema.mem_customTypes_iff.mpr ⟨hneeds, _, hin⟩)] at hmissing
      cases hmissing
    · have hin : (.scalar kind, d.length) ∈ s.demands :=
        Schema.mem_demands_iff.mpr ⟨d, hd, hcontent, rfl⟩
      obtain ⟨f, hf, rfl⟩ := Schema.exists_narrowFields_iff.mpr ⟨_, hin, hlt⟩
      rw [hnarrow f hf] at hmissing
      cases hmissing
  · intro h
    refine ⟨fun type htype => ?_, fun f hf => ?_⟩
    · obtain ⟨hneeds, n, hin⟩ := Schema.mem_customTypes_iff.mp htype
      obtain ⟨d, hd, hcontent, -⟩ := Schema.mem_demands_iff.mp hin
      by_contra hmissing
      exact h d hd type hcontent ⟨by simpa using hmissing, .inl hneeds⟩
    · obtain ⟨n, hin, hlt⟩ := Schema.exists_narrowFields_iff.mp ⟨f, hf, rfl⟩
      obtain ⟨d, hd, hcontent, rfl⟩ := Schema.mem_demands_iff.mp hin
      by_contra hmissing
      exact h d hd _ hcontent ⟨by simpa using hmissing, .inr ⟨_, rfl, hlt⟩⟩

end Codec

end FramedDuplex
