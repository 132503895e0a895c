import FramedDuplex.Proofs.Codec.Prepared
import FramedDuplex.Proofs.Codec.RoundTrip
import FramedDuplex.Proofs.Schema.Sound
import Mathlib.Data.List.Perm.Basic
/-!
# The order of declaration

The fields of a message type can be declared in any order, and so can those of the
messages inside it (`Layout.Reorders`). Of two such layouts either makes a schema if
the other does, and then it is the same schema, so nothing that is done with it can
differ (`Layout.interchangeable_of_reorders`). Where neither makes one, the fault
that is reported may still depend on the order: faults of single fields are looked
for in the order of declaration.

While the checks are being made the order does matter: the first of two identifiers
or lengths would be taken, the first body would follow the header, and fields at one
offset would stay in the order of declaration. `Schema.assemble_of_perm` is the proof
that the checks leave no layout for which one of these has a choice.
-/

namespace FramedDuplex

namespace Schema

section

variable {Inner : Type} {owner : String} {fields fields' : List (Declaration Inner)}

/-! ## What is checked in any order -/

theorem rolesFault?_of_perm (h : fields.Perm fields') :
    rolesFault? owner fields = rolesFault? owner fields' := by
  have hcount (role : FieldRole) : countRole role fields = countRole role fields' := h.countP_eq _
  have hempty : fields.isEmpty = fields'.isEmpty := h.isEmpty_eq
  simp only [rolesFault?, hcount, hempty]

/-- The fields of the header stand at different offsets once they could be laid down. -/
theorem pairwise_lt_byOffset {header : List HeaderField}
    (hfaults : ∀ d ∈ fields, d.fault? owner = none)
    (h : lay owner 0 (byOffset fields) = .ok header) :
    (byOffset fields).Pairwise (·.offset < ·.offset) := by
  have fixed : ∀ d ∈ byOffset fields, d.isFixed = true := fun d hd => (isFixed_of_mem_byOffset hd).2
  have sound : ∀ d ∈ byOffset fields, d.fault? owner = none :=
    fun d hd => hfaults d (isFixed_of_mem_byOffset hd).1
  have settable : ∀ d ∈ byOffset fields, d.writable = true := fun d hd =>
    (fault?_eq_none_iff.mp (sound d hd)).1 (isFixed_iff.mp (fixed d hd)).2
  have described : describeFrom 0 header = (byOffset fields).map (·.descriptor fun _ => "") :=
    describeFrom_of_lay fixed settable h
  have long : ∀ f ∈ header, 0 < f.length := by
    intro f hf
    rw [← filterMap_of_lay h] at hf
    obtain ⟨d, hd, hdf⟩ := List.mem_filterMap.mp hf
    exact length_pos_of_fault? (sound d hd) hdf
  have hpairwise : (describeFrom 0 header).Pairwise (·.offset < ·.offset) :=
    pairwise_describeFrom long
  rw [described, List.pairwise_map] at hpairwise
  exact hpairwise

/-- **Fields that could be laid down are put in one order**, however they were declared. -/
theorem byOffset_of_perm {header : List HeaderField} (h : fields.Perm fields')
    (hfaults : ∀ d ∈ fields, d.fault? owner = none)
    (hlay : lay owner 0 (byOffset fields) = .ok header) : byOffset fields' = byOffset fields := by
  have strict := pairwise_lt_byOffset hfaults hlay
  have perm : (byOffset fields').Perm (byOffset fields) :=
    (byOffset_perm fields').trans ((h.symm.filter _).trans (byOffset_perm fields).symm)
  refine perm.eq_of_pairwise ?_ (pairwise_byOffset fields') (pairwise_byOffset fields)
  -- no two of them stand at one offset, so the sort had no choice
  have apart : ((byOffset fields).map (·.offset)).Nodup :=
    List.pairwise_map.mpr (strict.imp fun hlt => Nat.ne_of_lt hlt)
  intro d e hd he hle hge
  exact List.inj_on_of_nodup_map apart (perm.mem_iff.mp hd) he (Nat.le_antisymm hle hge)

end

section

variable {owner : String} {fields fields' : List (Declaration Schema)} {s : Schema}

/-- There is one field to follow the header, whichever was declared first. -/
theorem find?_not_isFixed_of_perm (h : fields.Perm fields')
    (hroles : rolesFault? owner fields = none) :
    fields'.find? (!·.isFixed) = fields.find? (!·.isFixed) := by
  have hroles' : rolesFault? owner fields' = none := (rolesFault?_of_perm h).symm.trans hroles
  cases hfind : fields.find? (!·.isFixed) with
  | none =>
    rw [List.find?_eq_none] at hfind ⊢
    exact fun d hd => hfind d (h.mem_iff.mpr hd)
  | some d =>
    have hd : d ∈ fields := List.mem_of_find?_eq_some hfind
    have hvariable : d.isFixed = false := by simpa using List.find?_some hfind
    exact find?_not_isFixed hroles' (h.mem_iff.mp hd) hvariable

/-- **The order in which fields are put together does not matter** where they can be. -/
theorem assemble_of_perm (h : fields.Perm fields') (hs : assemble owner fields = .ok s) :
    assemble owner fields' = .ok s := by
  obtain ⟨hroles, hfaults, header, hlay, hclose⟩ := assemble_ok hs
  have hroles' : rolesFault? owner fields' = none := (rolesFault?_of_perm h).symm.trans hroles
  have hfaults' : fields'.findSome? (·.fault? owner) = none :=
    List.findSome?_eq_none_iff.mpr fun d hd => hfaults d (h.mem_iff.mpr hd)
  rw [assemble, hroles', hfaults', byOffset_of_perm h hfaults hlay,
    find?_not_isFixed_of_perm h hroles]
  simp only [Option.or_none, hlay, hclose]

/-- A layout makes its schema from its fields in any order. -/
theorem ofLayout_of_perm {name : String} {fields fields' : List (Declaration Layout)}
    (h : fields.Perm fields') (hs : ofLayout (.mk name fields) = .ok s) :
    ofLayout (.mk name fields') = .ok s := by
  obtain ⟨made, hmade, hassemble⟩ := ofLayout_eq_ok_iff.mp hs
  obtain ⟨made', hmade', hperm⟩ := List.perm_comp_forall₂ h.symm hmade
  exact ofLayout_eq_ok_iff.mpr ⟨made', hmade', assemble_of_perm hperm.symm hassemble⟩

/-- What is made of a list of declarations depends on one of them only by what is made
of that one. -/
theorem forall₂_made_congr {before after : List (Declaration Layout)} {d e : Declaration Layout}
    {made : List (Declaration Schema)} (h : ∀ m, Made d m → Made e m)
    (hmade : List.Forall₂ Made (before ++ d :: after) made) :
    List.Forall₂ Made (before ++ e :: after) made := by
  induction before generalizing made with
  | nil =>
    obtain ⟨m, rest, hm, hrest, rfl⟩ := List.forall₂_cons_left_iff.mp hmade
    exact .cons (h m hm) hrest
  | cons b before ih =>
    obtain ⟨m, rest, hm, hrest, rfl⟩ := List.forall₂_cons_left_iff.mp hmade
    exact .cons hm (ih hrest)

/-- A message inside can be declared in another way that makes the same schema. -/
theorem ofLayout_of_inside {name part : String} {offset : ℕ} {reversed writable : Bool}
    {before after : List (Declaration Layout)} {inner inner' : Layout}
    (h : ∀ t, ofLayout inner = .ok t → ofLayout inner' = .ok t)
    (hs : ofLayout
      (.mk name (before ++ ⟨part, offset, .composed inner, reversed, writable⟩ :: after)) = .ok s) :
    ofLayout (.mk name (before ++ ⟨part, offset, .composed inner', reversed, writable⟩ :: after)) =
      .ok s := by
  obtain ⟨made, hmade, hassemble⟩ := ofLayout_eq_ok_iff.mp hs
  refine ofLayout_eq_ok_iff.mpr ⟨made, forall₂_made_congr ?_ hmade, hassemble⟩
  rintro _ ⟨hpart⟩
  cases hpart with
  | composed hinner => exact .mk (.composed (h _ hinner))

end

end Schema

namespace Layout

variable [OwnTypes]

/-- **The same declarations in another order**, in the message or in a message inside it. -/
inductive Reorders : Layout → Layout → Prop where
  /-- The fields of the message itself. -/
  | perm (name : String) {fields fields' : List (Declaration Layout)} :
      fields.Perm fields' → Reorders (mk name fields) (mk name fields')
  /-- Those of the message that one of its fields holds. -/
  | inside (name part : String) (offset : ℕ) (reversed writable : Bool)
      (before after : List (Declaration Layout)) {inner inner' : Layout} :
      Reorders inner inner' →
        Reorders (mk name (before ++ ⟨part, offset, .composed inner, reversed, writable⟩ :: after))
          (mk name (before ++ ⟨part, offset, .composed inner', reversed, writable⟩ :: after))
  | trans {l m n : Layout} : Reorders l m → Reorders m n → Reorders l n

/-- **Two layouts of which either can stand for the other.** -/
structure Interchangeable (l other : Layout) : Prop where
  /-- Either makes a schema if the other does, and both make the same one: the same fields
  in the same order of the wire, the same key, and the same demands. -/
  makes : ∀ s, Schema.ofLayout l = .ok s ↔ Schema.ofLayout other = .ok s
  /-- Then every codec is prepared for one as for the other, or lacks the same. -/
  prepared : (∃ s, Schema.ofLayout l = .ok s) → ∀ c : Codec,
    c.prepare l = c.prepare other ∧ c.prepareDecoder l = c.prepareDecoder other

omit [OwnTypes] in
theorem makes_of_reorders {l other : Layout} (h : l.Reorders other) (s : Schema) :
    Schema.ofLayout l = .ok s ↔ Schema.ofLayout other = .ok s := by
  induction h generalizing s with
  | perm name hperm =>
    exact ⟨Schema.ofLayout_of_perm hperm, Schema.ofLayout_of_perm hperm.symm⟩
  | inside name part offset reversed writable before after _ ih =>
    exact ⟨Schema.ofLayout_of_inside fun t => (ih t).mp,
      Schema.ofLayout_of_inside fun t => (ih t).mpr⟩
  | trans _ _ ihl ihr => exact (ihl s).trans (ihr s)

/-- **The order of declaration does not matter.** -/
theorem interchangeable_of_reorders {l other : Layout} (h : l.Reorders other) :
    l.Interchangeable other where
  makes := makes_of_reorders h
  prepared := by
    rintro ⟨s, hs⟩ c
    have hother : Schema.ofLayout other = .ok s := (makes_of_reorders h s).mp hs
    have hprepare : c.prepare l = c.prepare other := by
      rw [Codec.prepare, Codec.prepare, hs, hother]
    refine ⟨hprepare, ?_⟩
    rw [Codec.prepareDecoder, Codec.prepareDecoder, hprepare]

end Layout

-- which of two faults is reported is a matter of order
example :
    Schema.ofLayout (.mk "Pair" [⟨"left", 0, .metaData .bytes 0, false, true⟩,
        ⟨"right", 0, .metaData .bytes 0, false, true⟩]) = .error (.zeroLength "Pair" "left") ∧
      Schema.ofLayout (.mk "Pair" [⟨"right", 0, .metaData .bytes 0, false, true⟩,
        ⟨"left", 0, .metaData .bytes 0, false, true⟩]) = .error (.zeroLength "Pair" "right") :=
  ⟨rfl, rfl⟩

/-- The envelope declared from its end, and so is the letter. -/
def scatteredLayout : Layout :=
  .mk "Envelope"
    [⟨"size", 20, .length ⟨.w8, false⟩ 2, false, true⟩,
      ⟨"from", 4, .metaData .uuid 16, false, true⟩,
      ⟨"seq", 0, .identifier (.scalar (.int ⟨.w32, false⟩)) 4, false, true⟩,
      ⟨"letter", 22, .composed
        (.mk "Letter"
          [⟨"content", 8, .body .bytes, true, true⟩,
            ⟨"to", 0, .metaData .text 6, true, true⟩,
            ⟨"size", 6, .length ⟨.w16, true⟩ 2, true, true⟩]), true, true⟩]

theorem prepare_scattered :
    Codec.envelopeLayout.Reorders scatteredLayout ∧
      Codec.standard.prepare scatteredLayout = .ok Codec.envelopeSchema := by
  have within : Codec.envelopeLayout.Reorders _ :=
    .inside "Envelope" "letter" 22 true true [] _ (.perm "Letter" (List.reverse_perm _).symm)
  have reorders : Codec.envelopeLayout.Reorders scatteredLayout :=
    within.trans (.perm "Envelope" (List.reverse_perm _).symm)
  have prepared := (Codec.prepareDecoder_eq_ok_iff.mp Codec.prepareDecoder_envelope).1
  have made := (Codec.prepareDecoder_ok Codec.prepareDecoder_envelope).1
  have same := (Layout.interchangeable_of_reorders reorders).prepared ⟨_, made⟩ Codec.standard
  exact ⟨reorders, same.1.symm.trans prepared⟩

end FramedDuplex
