import FramedDuplex.Proofs.Schema.Framed
import FramedDuplex.Proofs.Schema.Tiling
import Mathlib.Data.List.Forall2
/-!
# How a layout makes its schema

A layout makes a schema in two steps: each message inside it makes its own
(`Schema.Made`), and then the fields are put together (`Schema.assemble`).
`Schema.ofLayout_eq_ok_iff` is the one equation to be used of the four functions
that do this, and `Layout.induction` the induction that goes with it.

What a declaration says of its field is its descriptor (`Declaration.descriptor`).
It does not change when the message inside is made, so the fields of a layout can
be spoken of before anything is made of it (`Layout.declared`).
-/

namespace FramedDuplex

/-! ## What is declared -/

namespace FieldKind

variable {Inner : Type}

/-- What a declared field holds, if a message inside has a name. -/
def content (named : Inner → String) : FieldKind Inner → Schema.FieldContent
  | metaData type _ => .value type
  | identifier type _ => .value type
  | length type _ => .value (.scalar (.int type))
  | body type => .value type
  | composed inner => .message (named inner)

/-- The declared length; a field that follows the header declares none. -/
def extent : FieldKind Inner → ℕ
  | metaData _ n => n
  | identifier _ n => n
  | length _ n => n
  | body _ => 0
  | composed _ => 0

end FieldKind

/-- What a declaration says of its field. -/
def Declaration.descriptor {Inner : Type} (named : Inner → String) (d : Declaration Inner) :
    Schema.Descriptor :=
  ⟨d.name, d.offset, d.kind.extent, d.role, d.kind.content named, d.reversed, d.writable⟩

/-- The bytes of a declared field in the header. -/
def Declaration.span {Inner : Type} (d : Declaration Inner) : Span := ⟨d.offset, d.kind.extent⟩

namespace Layout

/-- The name of the message type. -/
def name : Layout → String
  | mk name _ => name

/-- The declared fields. -/
def fields : Layout → List (Declaration Layout)
  | mk _ fields => fields

/-- What is declared, field by field, in the order of declaration. -/
def declared (l : Layout) : List Schema.Descriptor := l.fields.map (·.descriptor name)

/-- **Induction on layouts**: what holds of a layout if it holds of every message
inside it holds of all layouts. -/
theorem induction {P : Layout → Prop}
    (step : ∀ l : Layout, (∀ d ∈ l.fields, ∀ inner, d.kind = .composed inner → P inner) → P l) :
    ∀ l, P l
  | mk owner fields => by
    refine step _ fun d hd inner hinner => ?_
    have hlt : sizeOf d < sizeOf fields := List.sizeOf_lt_of_mem hd
    obtain ⟨name, offset, kind, reversed, writable⟩ := d
    obtain rfl : kind = .composed inner := hinner
    exact induction step inner
termination_by l => sizeOf l
decreasing_by
  simp only [Declaration.mk.sizeOf_spec, FieldKind.composed.sizeOf_spec] at hlt
  simp only [mk.sizeOf_spec]
  omega

end Layout

namespace Schema

/-! ## What is made -/

/-- A declared part, and the same part with the schema of its message. -/
inductive PartMade : FieldKind Layout → FieldKind Schema → Prop where
  | metaData (type : ValueType) (length : ℕ) : PartMade (.metaData type length) (.metaData type length)
  | identifier (type : ValueType) (length : ℕ) :
      PartMade (.identifier type length) (.identifier type length)
  | length (type : IntType) (length : ℕ) : PartMade (.length type length) (.length type length)
  | body (type : ValueType) : PartMade (.body type) (.body type)
  | composed {l : Layout} {s : Schema} : ofLayout l = .ok s → PartMade (.composed l) (.composed s)

/-- A declaration, and the same with the schema of its message. -/
inductive Made : Declaration Layout → Declaration Schema → Prop where
  | mk {name : String} {offset : ℕ} {kind : FieldKind Layout} {kind' : FieldKind Schema}
      {reversed writable : Bool} : PartMade kind kind' →
        Made ⟨name, offset, kind, reversed, writable⟩ ⟨name, offset, kind', reversed, writable⟩

variable {l : Layout} {s : Schema} {owner : String}

theorem ofKind_eq_ok_iff {kind : FieldKind Layout} {kind' : FieldKind Schema} :
    ofKind kind = .ok kind' ↔ PartMade kind kind' := by
  constructor
  · intro h
    cases kind with
    | composed l =>
      rw [ofKind] at h
      split at h
      · cases h
      · next s hs =>
        obtain rfl := Except.ok.inj h
        exact .composed hs
    | _ =>
      rw [ofKind] at h
      obtain rfl := Except.ok.inj h
      constructor
  · intro h
    cases h with
    | composed hs => rw [ofKind, hs]
    | _ => rw [ofKind]

theorem ofDeclaration_eq_ok_iff {d : Declaration Layout} {e : Declaration Schema} :
    ofDeclaration d = .ok e ↔ Made d e := by
  obtain ⟨name, offset, kind, reversed, writable⟩ := d
  rw [ofDeclaration]
  constructor
  · intro h
    split at h
    · cases h
    · next kind' hkind =>
      obtain rfl := Except.ok.inj h
      exact .mk (ofKind_eq_ok_iff.mp hkind)
  · rintro ⟨hkind⟩
    rw [ofKind_eq_ok_iff.mpr hkind]

theorem ofDeclarations_eq_ok_iff {ds : List (Declaration Layout)}
    {made : List (Declaration Schema)} :
    ofDeclarations ds = .ok made ↔ List.Forall₂ Made ds made := by
  induction ds generalizing made with
  | nil =>
    rw [ofDeclarations, Except.ok.injEq, List.forall₂_nil_left_iff, eq_comm]
  | cons d rest ih =>
    rw [ofDeclarations, List.forall₂_cons_left_iff]
    constructor
    · intro h
      split at h
      · cases h
      · next e he =>
        split at h
        · cases h
        · next others hothers =>
          obtain rfl := Except.ok.inj h
          exact ⟨e, others, ofDeclaration_eq_ok_iff.mp he, ih.mp hothers, rfl⟩
    · rintro ⟨e, others, he, hothers, rfl⟩
      rw [ofDeclaration_eq_ok_iff.mpr he]
      simp only [ih.mpr hothers]

/-- **What a layout makes**: its messages make their schemas, and its fields are
put together. -/
theorem ofLayout_eq_ok_iff :
    ofLayout l = .ok s ↔ ∃ made, List.Forall₂ Made l.fields made ∧ assemble l.name made = .ok s := by
  obtain ⟨owner, fields⟩ := l
  rw [ofLayout]
  constructor
  · intro h
    split at h
    · cases h
    · next made hmade => exact ⟨made, ofDeclarations_eq_ok_iff.mp hmade, h⟩
  · rintro ⟨made, hmade, hassemble⟩
    have hdeclared : ofDeclarations fields = .ok made := ofDeclarations_eq_ok_iff.mpr hmade
    rw [hdeclared]
    exact hassemble

/-- Declarations can be made exactly if each message in them can. -/
theorem exists_made_iff {ds : List (Declaration Layout)} :
    (∃ made, List.Forall₂ Made ds made) ↔
      ∀ d ∈ ds, ∀ inner, d.kind = .composed inner → ∃ s, ofLayout inner = .ok s := by
  induction ds with
  | nil => simp
  | cons d rest ih =>
    rw [List.forall_mem_cons, ← ih]
    constructor
    · rintro ⟨made, hmade⟩
      obtain ⟨e, others, he, hothers, rfl⟩ := List.forall₂_cons_left_iff.mp hmade
      refine ⟨fun inner hinner => ?_, others, hothers⟩
      obtain ⟨hkind⟩ := he
      obtain rfl : _ = FieldKind.composed inner := hinner
      cases hkind with
      | composed hs => exact ⟨_, hs⟩
    · rintro ⟨hd, others, hothers⟩
      obtain ⟨e, he⟩ : ∃ e, Made d e := by
        obtain ⟨name, offset, kind, reversed, writable⟩ := d
        cases kind with
        | metaData type length => exact ⟨_, .mk (.metaData type length)⟩
        | identifier type length => exact ⟨_, .mk (.identifier type length)⟩
        | length type length => exact ⟨_, .mk (.length type length)⟩
        | body type => exact ⟨_, .mk (.body type)⟩
        | composed inner =>
          obtain ⟨s, hs⟩ := hd inner rfl
          exact ⟨_, .mk (.composed hs)⟩
      exact ⟨e :: others, .cons he hothers⟩

/-! ## Names and descriptors -/

/-- Closing a header gives the schema its name. -/
theorem name_of_close {header : List HeaderField} {d? : Option (Declaration Schema)}
    (h : close owner header d? = .ok s) : s.name = owner := by
  cases d? with
  | none =>
    obtain rfl := Except.ok.inj h
    rfl
  | some d =>
    obtain ⟨name, offset, kind, reversed, writable⟩ := d
    rw [close] at h
    split at h
    · cases h
    · cases kind <;>
      · obtain rfl := Except.ok.inj h
        rfl

/-- A schema has the name of its layout. -/
theorem name_of_ofLayout (h : ofLayout l = .ok s) : s.name = l.name := by
  obtain ⟨made, -, hassemble⟩ := ofLayout_eq_ok_iff.mp h
  obtain ⟨-, -, header, -, hclose⟩ := assemble_ok hassemble
  exact name_of_close hclose

/-- **Making its message changes nothing of what a declaration says.** -/
theorem Made.descriptor {d : Declaration Layout} {e : Declaration Schema} (h : Made d e) :
    e.descriptor name = d.descriptor Layout.name := by
  obtain ⟨hkind⟩ := h
  cases hkind with
  | composed hs =>
    simp [Declaration.descriptor, Declaration.role, FieldKind.content, FieldKind.extent,
      FieldKind.role, name_of_ofLayout hs]
  | _ => rfl

theorem map_descriptor_of_made {ds : List (Declaration Layout)} {made : List (Declaration Schema)}
    (h : List.Forall₂ Made ds made) :
    made.map (·.descriptor name) = ds.map (·.descriptor Layout.name) := by
  induction h with
  | nil => rfl
  | cons hd _ ih => rw [List.map_cons, List.map_cons, hd.descriptor, ih]

end Schema

end FramedDuplex
