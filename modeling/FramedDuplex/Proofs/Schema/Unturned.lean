import FramedDuplex.Proofs.Schema.Made
/-!
# Layouts without byte orders

Which way round the bytes of a field stand is left to the field. A layout with
all its own bytes in order (`Layout.unturned`) makes a schema exactly if the layout
does, and the same one but for the byte orders (`Schema.ofLayout_unturned`); what is
at fault with one is at fault with the other. So two layouts that differ in byte
orders only make schemas that differ in byte orders only, which ask the same of the
converters and have the same key.
-/

namespace FramedDuplex

/-- A declared field with its bytes in order. -/
def Declaration.unturned {Inner : Type} (d : Declaration Inner) : Declaration Inner :=
  { d with reversed := false }

/-- A layout with the bytes of its own fields in order. The messages inside it stay as
they are. -/
def Layout.unturned : Layout → Layout
  | mk name fields => mk name (fields.map (·.unturned))

/-- A header field with its bytes in order. -/
def HeaderField.unturned (f : HeaderField) : HeaderField := { f with reversed := false }

namespace Schema

/-- A schema with the bytes of its own fields in order. -/
def unturned : Schema → Schema
  | flat name header => flat name (header.map (·.unturned))
  | withBody name header body =>
    withBody name (header.map (·.unturned)) { body with reversed := false }
  | withMessage name header part inner =>
    withMessage name (header.map (·.unturned)) { part with reversed := false } inner

variable {Inner : Type} {owner : String} {next : ℕ} {header : List HeaderField}

/-! ## What byte orders leave alone -/

@[simp] theorem sizeOf_unturned (header : List HeaderField) :
    sizeOf (header.map (·.unturned)) = sizeOf header := by
  induction header with
  | nil => rfl
  | cons f rest ih => rw [List.map_cons, sizeOf, sizeOf, ih]; rfl

@[simp] theorem header_unturned (s : Schema) : s.unturned.header = s.header.map (·.unturned) := by
  cases s <;> rfl

theorem identifierOf_unturned (header : List HeaderField) :
    identifierOf (header.map (·.unturned)) = identifierOf header := by
  induction header with
  | nil => rfl
  | cons f rest ih => rw [List.map_cons, identifierOf, identifierOf, ih]; rfl

theorem identifier?_unturned (s : Schema) : s.unturned.identifier? = s.identifier? := by
  rw [identifier?, header_unturned, identifierOf_unturned, identifier?]

theorem lengthFieldFrom_unturned (offset : ℕ) (header : List HeaderField) :
    lengthFieldFrom offset (header.map (·.unturned)) =
      (lengthFieldFrom offset header).map fun l => { l with reversed := false } := by
  induction header generalizing offset with
  | nil => rfl
  | cons f rest ih =>
    have hlength : f.unturned.length = f.length := rfl
    have hcontent : f.unturned.content = f.content := rfl
    rw [List.map_cons, lengthFieldFrom, lengthFieldFrom, hlength, hcontent, ih]
    cases f.content <;> rfl

/-- The types of a header are its own, whichever way round its bytes stand. -/
theorem map_type_unturned (header : List HeaderField) :
    (header.map (·.unturned)).map (·.type) = header.map (·.type) := by
  rw [List.map_map]
  rfl

theorem customTypes_unturned (s : Schema) : s.unturned.customTypes = s.customTypes := by
  cases s <;> simp only [unturned, customTypes, map_type_unturned]

theorem narrowIn_unturned (owner : String) (header : List HeaderField) :
    narrowIn owner (header.map (·.unturned)) = narrowIn owner header := by
  rw [narrowIn, List.filterMap_map]
  rfl

theorem narrowFields_unturned (s : Schema) : s.unturned.narrowFields = s.narrowFields := by
  cases s <;> simp only [unturned, narrowFields, narrowIn_unturned]

theorem undecodable?_unturned (s : Schema) : s.unturned.undecodable? = s.undecodable? := by
  cases s <;> rfl

/-! ## Putting fields together -/

theorem headerField?_unturned (d : Declaration Inner) :
    d.unturned.headerField? = d.headerField?.map (·.unturned) := by
  obtain ⟨name, offset, kind, reversed, writable⟩ := d
  cases kind <;> rfl

@[simp] theorem isFixed_unturned (d : Declaration Inner) : d.unturned.isFixed = d.isFixed := by
  rw [Declaration.isFixed, headerField?_unturned, Option.isSome_map, Declaration.isFixed]

theorem countRole_unturned (role : FieldRole) (fields : List (Declaration Inner)) :
    countRole role (fields.map (·.unturned)) = countRole role fields := by
  rw [countRole, List.countP_map]
  rfl

theorem rolesFault?_unturned (owner : String) (fields : List (Declaration Inner)) :
    rolesFault? owner (fields.map (·.unturned)) = rolesFault? owner fields := by
  simp only [rolesFault?, countRole_unturned, List.isEmpty_map]

theorem fault?_unturned (owner : String) (d : Declaration Inner) :
    d.unturned.fault? owner = d.fault? owner := by
  have hlength : d.unturned.headerField?.any (·.length == 0) =
      d.headerField?.any (·.length == 0) := by
    rw [headerField?_unturned]
    cases d.headerField? <;> rfl
  rw [Declaration.fault?, hlength, Declaration.fault?]
  rfl

theorem findSome?_fault?_unturned (owner : String) (fields : List (Declaration Inner)) :
    (fields.map (·.unturned)).findSome? (·.fault? owner) =
      fields.findSome? (·.fault? owner) := by
  rw [List.findSome?_map]
  congr 1
  funext d
  exact fault?_unturned owner d

/-- **Sorting by offset does not look at byte orders.** -/
theorem byOffset_unturned (fields : List (Declaration Inner)) :
    byOffset (fields.map (·.unturned)) = (byOffset fields).map (·.unturned) := by
  have hfilter : (fields.map (·.unturned)).filter (·.isFixed) =
      (fields.filter (·.isFixed)).map (·.unturned) := by
    rw [List.filter_map]
    congr 2
    funext d
    exact isFixed_unturned d
  rw [byOffset, hfilter, byOffset]
  exact (List.map_mergeSort (f := Declaration.unturned) fun _ _ _ _ => rfl).symm

/-- **Nor does laying fields down.** -/
theorem lay_unturned (owner : String) (next : ℕ) (fields : List (Declaration Inner)) :
    lay owner next (fields.map (·.unturned)) =
      (lay owner next fields).map (·.map (·.unturned)) := by
  induction fields generalizing next with
  | nil => rfl
  | cons d rest ih =>
    rw [List.map_cons, lay, lay, headerField?_unturned]
    cases d.headerField? with
    | none => exact ih next
    | some f =>
      have hname : d.unturned.name = d.name := rfl
      have hoffset : d.unturned.offset = d.offset := rfl
      have hlength : f.unturned.length = f.length := rfl
      simp only [Option.map_some, hname, hoffset, hlength, ih]
      by_cases hoverlap : d.offset < next
      · simp only [if_pos hoverlap, Except.map]
      · by_cases hgap : next < d.offset
        · simp only [if_neg hoverlap, if_pos hgap, Except.map]
        · simp only [if_neg hoverlap, if_neg hgap]
          cases lay owner (next + f.length) rest <;> rfl

theorem close_unturned (owner : String) (header : List HeaderField)
    (d? : Option (Declaration Schema)) :
    close owner (header.map (·.unturned)) (d?.map (·.unturned)) =
      (close owner header d?).map (·.unturned) := by
  cases d? with
  | none => rfl
  | some d =>
    obtain ⟨name, offset, kind, reversed, writable⟩ := d
    rw [Option.map_some, close, close, sizeOf_unturned]
    by_cases hend : offset = sizeOf header
    · simp only [Declaration.unturned, hend, ne_eq, not_true_eq_false, if_false]
      cases kind <;> rfl
    · simp only [Declaration.unturned, hend, ne_eq, not_false_eq_true, if_true, Except.map]

/-- **Putting fields together does not look at byte orders.** -/
theorem assemble_unturned (owner : String) (fields : List (Declaration Schema)) :
    assemble owner (fields.map (·.unturned)) = (assemble owner fields).map (·.unturned) := by
  have hfind : (fields.map (·.unturned)).find? (!·.isFixed) =
      (fields.find? (!·.isFixed)).map (·.unturned) := by
    rw [List.find?_map]
    congr 2
    funext d
    exact congrArg not (isFixed_unturned d)
  rw [assemble, assemble, rolesFault?_unturned, findSome?_fault?_unturned, byOffset_unturned,
    lay_unturned, hfind]
  cases (rolesFault? owner fields).or (fields.findSome? (·.fault? owner)) with
  | some fault => rfl
  | none =>
    cases lay owner 0 (byOffset fields) with
    | error fault => rfl
    | ok header => exact close_unturned owner header _

/-! ## From a layout to its schema -/

theorem ofDeclaration_unturned (d : Declaration Layout) :
    ofDeclaration d.unturned = (ofDeclaration d).map (·.unturned) := by
  obtain ⟨name, offset, kind, reversed, writable⟩ := d
  rw [Declaration.unturned, ofDeclaration, ofDeclaration]
  cases ofKind kind <;> rfl

theorem ofDeclarations_unturned (ds : List (Declaration Layout)) :
    ofDeclarations (ds.map (·.unturned)) = (ofDeclarations ds).map (·.map (·.unturned)) := by
  induction ds with
  | nil =>
    rw [List.map_nil, ofDeclarations]
    rfl
  | cons d rest ih =>
    rw [List.map_cons, ofDeclarations, ofDeclarations, ofDeclaration_unturned, ih]
    cases ofDeclaration d with
    | error fault => rfl
    | ok made => cases ofDeclarations rest <;> rfl

/-- **A layout with its bytes in order** makes the same schema with its bytes in
order, or is refused for the same fault. -/
theorem ofLayout_unturned (l : Layout) : ofLayout l.unturned = (ofLayout l).map (·.unturned) := by
  obtain ⟨owner, fields⟩ := l
  rw [Layout.unturned, ofLayout, ofLayout, ofDeclarations_unturned]
  cases ofDeclarations fields with
  | error fault => rfl
  | ok made => exact assemble_unturned owner made

/-- **Two schemas that differ in byte orders only**, field by field. -/
inductive Twins : Schema → Schema → Prop where
  | flat (name : String) {fs gs : List HeaderField} :
      fs.map (·.unturned) = gs.map (·.unturned) → Twins (flat name fs) (flat name gs)
  | withBody (name field : String) (type : ValueType) (reversed reversed' : Bool)
      {fs gs : List HeaderField} : fs.map (·.unturned) = gs.map (·.unturned) →
        Twins (withBody name fs ⟨field, type, reversed⟩) (withBody name gs ⟨field, type, reversed'⟩)
  | withMessage (name field : String) (writable reversed reversed' : Bool) (inner : Schema)
      {fs gs : List HeaderField} : fs.map (·.unturned) = gs.map (·.unturned) →
        Twins (withMessage name fs ⟨field, reversed, writable⟩ inner)
          (withMessage name gs ⟨field, reversed', writable⟩ inner)

theorem twins_of_unturned {s t : Schema} (same : s.unturned = t.unturned) : Twins s t := by
  cases s with
  | flat name header =>
    cases t with
    | flat name' header' =>
      obtain ⟨rfl, hheader⟩ := flat.inj same
      exact .flat name hheader
    | _ => cases same
  | withBody name header body =>
    cases t with
    | withBody name' header' body' =>
      obtain ⟨rfl, hheader, hbody⟩ := withBody.inj same
      obtain ⟨field, type, reversed⟩ := body
      obtain ⟨field', type', reversed'⟩ := body'
      obtain ⟨rfl, rfl, -⟩ := BodyField.mk.inj hbody
      exact .withBody name field type reversed reversed' hheader
    | _ => cases same
  | withMessage name header part inner =>
    cases t with
    | withMessage name' header' part' inner' =>
      obtain ⟨rfl, hheader, hpart, rfl⟩ := withMessage.inj same
      obtain ⟨field, reversed, writable⟩ := part
      obtain ⟨field', reversed', writable'⟩ := part'
      obtain ⟨rfl, -, rfl⟩ := PartField.mk.inj hpart
      exact .withMessage name field writable reversed reversed' inner hheader
    | _ => cases same

/-- **Layouts that differ in byte orders only** make schemas that differ in byte orders
only. -/
theorem exists_unturned_of_ofLayout {l other : Layout} {s : Schema}
    (same : l.unturned = other.unturned) (made : ofLayout l = .ok s) :
    ∃ t, ofLayout other = .ok t ∧ s.unturned = t.unturned := by
  have hmade : (ofLayout other).map (·.unturned) = .ok s.unturned := by
    rw [← ofLayout_unturned, ← same, ofLayout_unturned, made]
    rfl
  cases hother : ofLayout other with
  | error fault =>
    rw [hother] at hmade
    cases hmade
  | ok t =>
    rw [hother] at hmade
    exact ⟨t, rfl, (Except.ok.inj hmade).symm⟩

end Schema

end FramedDuplex
