import FramedDuplex.Schema.Build
import Mathlib.Data.List.Basic
/-!
# A length field stands where something follows the header

Reading a frame, the header alone tells how long the frame is. That is so
because a schema has a length field exactly if it has a body or a message, at
every level (`Schema.Framed`), and every schema that a layout makes is of that
kind (`Schema.framed_of_ofLayout`).
-/

namespace FramedDuplex

namespace Schema

/-- At every level, a length field stands in the header exactly if something
follows the header. -/
def Framed : Schema → Prop
  | flat _ header => lengthFieldFrom 0 header = none
  | withBody _ header _ => (lengthFieldFrom 0 header).isSome
  | withMessage _ header _ inner => (lengthFieldFrom 0 header).isSome ∧ inner.Framed

/-- A length field is found exactly if a field has that part. -/
theorem isSome_lengthFieldFrom {header : List HeaderField} {offset : ℕ} :
    (lengthFieldFrom offset header).isSome ↔ ∃ f ∈ header, f.content.role = .length := by
  induction header generalizing offset with
  | nil => simp [lengthFieldFrom]
  | cons f rest ih =>
    rw [lengthFieldFrom]
    cases hf : f.content with
    | length type => simp [hf, HeaderContent.role]
    | metaData type => simpa [hf, HeaderContent.role] using ih
    | identifier type => simpa [hf, HeaderContent.role] using ih

variable {Inner : Type} {owner : String} {fields : List (Declaration Inner)}

/-- A declaration that makes a header field gives it its own part. -/
theorem role_of_headerField? {d : Declaration Inner} {f : HeaderField}
    (h : d.headerField? = some f) : f.content.role = d.role := by
  obtain ⟨name, offset, kind, reversed, writable⟩ := d
  cases kind <;> simp only [Declaration.headerField?, Option.some.injEq, reduceCtorEq] at h
  all_goals
    subst h
    rfl

/-- The fields that follow the header are bodies and messages. -/
theorem isFixed_iff {d : Declaration Inner} :
    d.isFixed = true ↔ d.role ≠ .body ∧ d.role ≠ .composed := by
  obtain ⟨name, offset, kind, reversed, writable⟩ := d
  cases kind <;>
    simp [Declaration.isFixed, Declaration.headerField?, Declaration.role, FieldKind.role]

/-- **Laying fields down keeps their order and changes none of them.** -/
theorem filterMap_of_lay {next : ℕ} {header : List HeaderField}
    (h : lay owner next fields = .ok header) : fields.filterMap (·.headerField?) = header := by
  induction fields generalizing next header with
  | nil =>
    simp only [lay, Except.ok.injEq] at h
    simp [h]
  | cons d rest ih =>
    rw [lay] at h
    cases hd : d.headerField? with
    | none =>
      rw [hd] at h
      rw [List.filterMap_cons_none hd]
      exact ih h
    | some f =>
      simp only [hd] at h
      split at h
      · cases h
      · split at h
        · cases h
        · cases htail : lay owner (next + f.length) rest with
          | error fault => simp [htail, Except.map] at h
          | ok tail =>
            simp only [htail, Except.map, Except.ok.injEq] at h
            rw [List.filterMap_cons_some hd, ih htail, h]

/-- **What a layout that makes a schema satisfies**: no fault in its parts, none
in a field, a header laid down without gap or overlap, and a sound end. -/
theorem assemble_ok {fields : List (Declaration Schema)} {s : Schema}
    (h : assemble owner fields = .ok s) :
    rolesFault? owner fields = none ∧ (∀ d ∈ fields, d.fault? owner = none) ∧
      ∃ header, lay owner 0 (byOffset fields) = .ok header ∧
        close owner header (fields.find? (!·.isFixed)) = .ok s := by
  rw [assemble] at h
  split at h
  · cases h
  · next hfault =>
    obtain ⟨hroles, hown⟩ := Option.or_eq_none_iff.mp hfault
    refine ⟨hroles, fun d hd => List.findSome?_eq_none_iff.mp hown d hd, ?_⟩
    split at h
    · cases h
    · next header hlay => exact ⟨header, hlay, h⟩

/-- Parts that are played without fault: as many lengths as bodies and messages
together. -/
theorem countRole_of_rolesFault? (h : rolesFault? owner fields = none) :
    countRole .length fields = countRole .body fields + countRole .composed fields := by
  simp only [rolesFault?] at h
  split_ifs at h with _ _ _ _ _ _ hcount
  exact not_not.mp hcount

theorem countRole_pos_iff {role : FieldRole} :
    0 < countRole role fields ↔ ∃ d ∈ fields, d.role = role := by
  simp [countRole, List.countP_pos_iff]

/-- **The header has a length field exactly if a length was declared.** -/
theorem isSome_lengthField_of_lay {header : List HeaderField}
    (h : lay owner 0 (byOffset fields) = .ok header) :
    (lengthFieldFrom 0 header).isSome ↔ 0 < countRole .length fields := by
  rw [isSome_lengthFieldFrom, countRole_pos_iff, ← filterMap_of_lay h]
  have hmem : ∀ d, d ∈ byOffset fields ↔ d ∈ fields ∧ d.isFixed = true := by
    intro d
    rw [byOffset, List.mem_mergeSort, List.mem_filter]
  constructor
  · rintro ⟨f, hf, hrole⟩
    obtain ⟨d, hd, hdf⟩ := List.mem_filterMap.mp hf
    exact ⟨d, ((hmem d).mp hd).1, (role_of_headerField? hdf).symm.trans hrole⟩
  · rintro ⟨d, hd, hrole⟩
    have hfixed : d.isFixed = true := isFixed_iff.mpr (by simp [hrole])
    obtain ⟨f, hf⟩ := Option.isSome_iff_exists.mp hfixed
    exact ⟨f, List.mem_filterMap.mpr ⟨d, (hmem d).mpr ⟨hd, hfixed⟩, hf⟩,
      (role_of_headerField? hf).trans hrole⟩

/-- A layout whose inner messages have framed schemas makes a framed schema. -/
theorem framed_of_assemble {fields : List (Declaration Schema)} {s : Schema}
    (h : assemble owner fields = .ok s)
    (inside : ∀ d ∈ fields, ∀ inner, d.kind = .composed inner → inner.Framed) : s.Framed := by
  obtain ⟨hroles, -, header, hlay, hclose⟩ := assemble_ok h
  have hcount := countRole_of_rolesFault? hroles
  have hlength := isSome_lengthField_of_lay hlay
  cases hfind : fields.find? (!·.isFixed) with
  | none =>
    -- nothing follows the header: neither a body nor a message was declared, so no length
    have fixed : ∀ d ∈ fields, d.isFixed = true := by simpa using hfind
    have noTail : ∀ role, role = .body ∨ role = .composed → ¬ 0 < countRole role fields := by
      intro role hrole hpos
      obtain ⟨d, hd, rfl⟩ := countRole_pos_iff.mp hpos
      have := isFixed_iff.mp (fixed d hd)
      rcases hrole with hbody | hcomposed
      · exact this.1 hbody
      · exact this.2 hcomposed
    have hbody := noTail .body (.inl rfl)
    have hcomposed := noTail .composed (.inr rfl)
    obtain rfl : flat owner header = s := by
      simpa [hfind, close] using hclose
    have : ¬ (lengthFieldFrom 0 header).isSome := by
      rw [hlength]
      omega
    simpa [Framed] using this
  | some d =>
    -- something does: it is a body or a message, and a length was declared for it
    have hd : d ∈ fields := List.mem_of_find?_eq_some hfind
    have hvariable : ¬ d.isFixed = true := by simpa using List.find?_some hfind
    have hsome : (lengthFieldFrom 0 header).isSome := by
      rw [hlength]
      have htail : 0 < countRole d.role fields := countRole_pos_iff.mpr ⟨d, hd, rfl⟩
      rw [isFixed_iff] at hvariable
      by_cases hbody : d.role = .body
      · rw [hbody] at htail
        omega
      · have hcomposed : d.role = .composed := by
          by_contra hne
          exact hvariable ⟨hbody, hne⟩
        rw [hcomposed] at htail
        omega
    rw [hfind, close] at hclose
    split at hclose
    · cases hclose
    · obtain ⟨name, offset, kind, reversed, writable⟩ := d
      -- only the kinds that can follow a header are left
      cases kind with
      | body type =>
        obtain rfl := Except.ok.inj hclose
        exact hsome
      | composed inner =>
        obtain rfl := Except.ok.inj hclose
        exact ⟨hsome, inside _ hd inner rfl⟩
      | metaData type length => exact absurd rfl hvariable
      | identifier type length => exact absurd rfl hvariable
      | length type length => exact absurd rfl hvariable

/-! ## All the way down

The induction follows the four functions that make a schema of a layout. -/

mutual

/-- **Every schema that a layout makes is framed.** -/
theorem framed_of_ofLayout : ∀ (l : Layout) (s : Schema), ofLayout l = .ok s → s.Framed
  | .mk name fields, s, h => by
    rw [ofLayout] at h
    split at h
    · cases h
    · next declared hdeclared =>
      exact framed_of_assemble h (framed_of_ofDeclarations fields declared hdeclared)

theorem framed_of_ofDeclarations : ∀ (ds : List (Declaration Layout))
    (made : List (Declaration Schema)), ofDeclarations ds = .ok made →
      ∀ d ∈ made, ∀ inner, d.kind = .composed inner → inner.Framed
  | [], made, h => by
    rw [ofDeclarations] at h
    obtain rfl := Except.ok.inj h
    simp
  | d :: rest, made, h => by
    rw [ofDeclarations] at h
    split at h
    · cases h
    · next first hfirst =>
      split at h
      · cases h
      · next tail htail =>
        obtain rfl := Except.ok.inj h
        intro e he inner hinner
        rcases List.mem_cons.mp he with rfl | he
        · exact framed_of_ofDeclaration d e hfirst inner hinner
        · exact framed_of_ofDeclarations rest tail htail e he inner hinner

theorem framed_of_ofDeclaration : ∀ (d : Declaration Layout) (made : Declaration Schema),
    ofDeclaration d = .ok made → ∀ inner, made.kind = .composed inner → inner.Framed
  | ⟨name, offset, kind, reversed, writable⟩, made, h => by
    rw [ofDeclaration] at h
    split at h
    · cases h
    · next part hpart =>
      obtain rfl := Except.ok.inj h
      exact framed_of_ofKind kind part hpart

theorem framed_of_ofKind : ∀ (k : FieldKind Layout) (made : FieldKind Schema),
    ofKind k = .ok made → ∀ inner, made = .composed inner → inner.Framed
  | .metaData type length, made, h => by
    rw [ofKind] at h
    obtain rfl := Except.ok.inj h
    simp
  | .identifier type length, made, h => by
    rw [ofKind] at h
    obtain rfl := Except.ok.inj h
    simp
  | .length type length, made, h => by
    rw [ofKind] at h
    obtain rfl := Except.ok.inj h
    simp
  | .body type, made, h => by
    rw [ofKind] at h
    obtain rfl := Except.ok.inj h
    simp
  | .composed l, made, h => by
    rw [ofKind] at h
    split at h
    · cases h
    · next s hs =>
      obtain rfl := Except.ok.inj h
      intro inner hinner
      obtain rfl := FieldKind.composed.inj hinner
      exact framed_of_ofLayout l s hs

end

end Schema

end FramedDuplex
