import FramedDuplex.Proofs.Schema.Header
import FramedDuplex.Proofs.Schema.Made
/-!
# Checking a layout is exact

What a sound layout is can be said of the declared fields in any order
(`Layout.Sound`): no part is played twice, the fields of the header tile some
number of bytes, and a body or a message begins where they end. Checking a layout
sorts the fields and lays them down one by one, and it comes out well exactly for
the sound layouts (`Layout.checked`). The schema then has the declared fields and
no others, in the order of the wire, and its header is as long as their lengths
together.
-/

namespace FramedDuplex

namespace Schema

/-! ## Fields that fit together -/

/-- How many fields play a part. -/
def playing (role : FieldRole) (ds : List Descriptor) : ℕ := ds.countP (·.role = role)

/-- **Fields fit together**, whatever is inside their messages. -/
structure Fits (ds : List Descriptor) : Prop where
  /-- There is a field. -/
  declared : ds ≠ []
  /-- Only plain data may be declared more than once. -/
  once : ∀ role, role ≠ .metaData → playing role ds ≤ 1
  /-- A body and a message are not declared together. -/
  apart : ¬ (0 < playing .body ds ∧ 0 < playing .composed ds)
  /-- A length is declared exactly if one of them is. -/
  measured : 0 < playing .length ds ↔ 0 < playing .body ds ∨ 0 < playing .composed ds
  /-- Reading can set every field, a message excepted. -/
  settable : ∀ d ∈ ds, d.role ≠ .composed → d.writable = true
  /-- Every field of the header has a byte. -/
  long : ∀ d ∈ ds, d.isVariable = false → 0 < d.length
  /-- The header fields tile the header, and what follows it begins at its end. -/
  tiled : ∃ size, Tiles size (ds.map (·.span)) ∧ ∀ d ∈ ds, d.isVariable = true → d.offset = size

end Schema

/-- **A sound layout**: its fields fit together, and so do those of every message
inside it. -/
inductive Layout.Sound : Layout → Prop where
  | intro {l : Layout} : Schema.Fits l.declared →
      (∀ d ∈ l.fields, ∀ inner, d.kind = .composed inner → Sound inner) → Sound l

namespace Schema

variable {Inner : Type} {named : Inner → String} {owner : String}
variable {fields : List (Declaration Inner)} {d : Declaration Inner} {header : List HeaderField}
variable {next stop : ℕ}

/-! ## One declaration -/

/-- A field that does not stand in the header is a body or a message. -/
theorem isVariable_descriptor (d : Declaration Inner) :
    (d.descriptor named).isVariable = !d.isFixed := by
  obtain ⟨name, offset, kind, reversed, writable⟩ := d
  cases kind <;> rfl

/-- What does not stand in the header has no byte of it. -/
theorem extent_of_not_isFixed (h : d.isFixed = false) : d.kind.extent = 0 := by
  obtain ⟨name, offset, kind, reversed, writable⟩ := d
  cases kind with
  | body type => rfl
  | composed inner => rfl
  | _ => cases h

/-- The header field that a declaration makes is what it declares. -/
theorem descriptor_of_headerField? {f : HeaderField} (h : d.headerField? = some f) :
    d.descriptor named = ⟨f.name, d.offset, f.length, f.content.role, .value f.type, f.reversed,
      d.writable⟩ := by
  obtain ⟨name, offset, kind, reversed, writable⟩ := d
  cases kind <;> simp only [Declaration.headerField?, Option.some.injEq, reduceCtorEq] at h
  all_goals
    subst h
    rfl

theorem extent_of_headerField? {f : HeaderField} (h : d.headerField? = some f) :
    d.kind.extent = f.length := by
  have same : d.descriptor (fun _ => "") = _ := descriptor_of_headerField? h
  exact congrArg Descriptor.length same

/-- **A declaration is without fault** if reading can set it, a message excepted,
and a header field has a byte. -/
theorem fault?_eq_none_iff : d.fault? owner = none ↔
    (d.role ≠ .composed → d.writable = true) ∧ (d.isFixed = true → 0 < d.kind.extent) := by
  have hlength : d.headerField?.any (·.length == 0) = true ↔
      d.isFixed = true ∧ d.kind.extent = 0 := by
    cases hf : d.headerField? with
    | none => simp [Declaration.isFixed, hf]
    | some f => simp [Declaration.isFixed, hf, extent_of_headerField? hf]
  rw [Declaration.fault?]
  by_cases hset : d.role ≠ .composed ∧ ¬ d.writable = true
  · rw [if_pos hset]
    simp only [reduceCtorEq, false_iff]
    exact fun h => hset.2 (h.1 hset.1)
  · rw [if_neg hset]
    by_cases hzero : d.headerField?.any (·.length == 0) = true
    · rw [if_pos hzero]
      rw [hlength] at hzero
      simp only [reduceCtorEq, false_iff]
      intro h
      have := h.2 hzero.1
      omega
    · rw [if_neg hzero]
      rw [hlength] at hzero
      simp only [true_iff]
      refine ⟨fun hrole => by_contra fun hnot => hset ⟨hrole, hnot⟩, fun hfixed => ?_⟩
      by_contra hnone
      exact hzero ⟨hfixed, by omega⟩

/-! ## The parts -/

theorem playing_descriptor (role : FieldRole) (fields : List (Declaration Inner)) :
    playing role (fields.map (·.descriptor named)) = countRole role fields := by
  rw [playing, countRole, List.countP_map]
  rfl

/-- Bodies and messages are what does not stand in the header. -/
theorem countP_not_isFixed (fields : List (Declaration Inner)) :
    fields.countP (!·.isFixed) = countRole .body fields + countRole .composed fields := by
  induction fields with
  | nil => rfl
  | cons d rest ih =>
    simp only [countRole] at ih ⊢
    rw [List.countP_cons, List.countP_cons, List.countP_cons, ih]
    obtain ⟨name, offset, kind, reversed, writable⟩ := d
    cases kind <;>
      simp [Declaration.isFixed, Declaration.headerField?, Declaration.role, FieldKind.role] <;> omega

/-- **The parts are played without fault** exactly if none but plain data is
declared twice, and a length goes with a body or a message, of which there is
one at most. -/
theorem rolesFault?_eq_none_iff : rolesFault? owner fields = none ↔
    fields ≠ [] ∧ (∀ role, role ≠ .metaData → countRole role fields ≤ 1) ∧
      ¬ (0 < countRole .body fields ∧ 0 < countRole .composed fields) ∧
      (0 < countRole .length fields ↔
        0 < countRole .body fields ∨ 0 < countRole .composed fields) := by
  have hroles : (∀ role, role ≠ .metaData → countRole role fields ≤ 1) ↔
      countRole .identifier fields ≤ 1 ∧ countRole .length fields ≤ 1 ∧
        countRole .body fields ≤ 1 ∧ countRole .composed fields ≤ 1 := by
    constructor
    · intro h
      exact ⟨h _ (by decide), h _ (by decide), h _ (by decide), h _ (by decide)⟩
    · rintro ⟨hidentifier, hlength, hbody, hcomposed⟩ role hrole
      cases role <;> first | assumption | exact absurd rfl hrole
  rw [hroles]
  constructor
  · intro h
    rw [rolesFault?] at h
    split_ifs at h with hempty hidentifier hlength hbody hcomposed hboth hcount
    refine ⟨by simpa using hempty, ⟨by omega, by omega, by omega, by omega⟩, by omega, by omega⟩
  · rintro ⟨hempty, ⟨hidentifier, hlength, hbody, hcomposed⟩, hboth, hcount⟩
    rw [rolesFault?, if_neg (by simpa using hempty), if_neg (by omega), if_neg (by omega),
      if_neg (by omega), if_neg (by omega), if_neg (by omega), if_neg (by omega)]

/-! ## Laying fields down -/

/-- **Fields that were laid down** are described as they were declared. -/
theorem describeFrom_of_lay (fixed : ∀ d ∈ fields, d.isFixed = true)
    (settable : ∀ d ∈ fields, d.writable = true) (h : lay owner next fields = .ok header) :
    describeFrom next header = fields.map (·.descriptor named) := by
  induction fields generalizing next header with
  | nil =>
    obtain rfl := Except.ok.inj h
    rfl
  | cons d rest ih =>
    obtain ⟨f, hf⟩ := Option.isSome_iff_exists.mp (fixed d (by simp))
    simp only [lay, hf] at h
    split_ifs at h with hoverlap hgap
    cases htail : lay owner (next + f.length) rest with
    | error fault => simp [htail, Except.map] at h
    | ok tail =>
      simp only [htail, Except.map, Except.ok.injEq] at h
      subst h
      have hoffset : d.offset = next := by omega
      rw [describeFrom, List.map_cons, descriptor_of_headerField? hf, hoffset,
        settable d (by simp),
        ih (fun e he => fixed e (by simp [he])) (fun e he => settable e (by simp [he])) htail]

/-- **Fields that abut can be laid down.** -/
theorem exists_lay_of_abut (fixed : ∀ d ∈ fields, d.isFixed = true)
    (h : Abut next (fields.map (·.span)) stop) : ∃ header, lay owner next fields = .ok header := by
  induction fields generalizing next with
  | nil => exact ⟨[], rfl⟩
  | cons d rest ih =>
    obtain ⟨f, hf⟩ := Option.isSome_iff_exists.mp (fixed d (by simp))
    obtain ⟨hoffset, hrest⟩ := h
    have hlength : d.span.length = f.length := extent_of_headerField? hf
    rw [hlength] at hrest
    obtain ⟨tail, htail⟩ := ih (fun e he => fixed e (by simp [he])) hrest
    have hnext : d.offset = next := hoffset
    refine ⟨f :: tail, ?_⟩
    rw [lay]
    simp only [hf, hnext, Nat.lt_irrefl, if_false, htail, Except.map]

theorem byOffset_perm (fields : List (Declaration Inner)) :
    (byOffset fields).Perm (fields.filter (·.isFixed)) :=
  List.mergeSort_perm _ _

theorem pairwise_byOffset (fields : List (Declaration Inner)) :
    (byOffset fields).Pairwise (·.offset ≤ ·.offset) := by
  have ordered : (byOffset fields).Pairwise fun d e => decide (d.offset ≤ e.offset) = true :=
    List.pairwise_mergeSort (fun a b c hab hbc => by simp only [decide_eq_true_eq] at *; omega)
      (fun a b => by simp only [Bool.or_eq_true, decide_eq_true_eq]; omega)
      (fields.filter (·.isFixed))
  simpa only [decide_eq_true_eq] using ordered

theorem isFixed_of_mem_byOffset (h : d ∈ byOffset fields) : d ∈ fields ∧ d.isFixed = true :=
  List.mem_filter.mp ((byOffset_perm fields).mem_iff.mp h)

/-- The fields of the header tile what all fields tile. -/
theorem tiles_byOffset_iff {size : ℕ} :
    Tiles size ((byOffset fields).map (·.span)) ↔ Tiles size (fields.map (·.span)) := by
  have same : ∀ i, ((byOffset fields).map (·.span)).countP (·.holds i) =
      (fields.map (·.span)).countP (·.holds i) := by
    intro i
    rw [((byOffset_perm fields).map _).countP_eq]
    exact countP_holds_filter (fun d _ hd => extent_of_not_isFixed hd) i
  simp only [Tiles, same]

/-! ## Putting fields together -/

section

variable {s : Schema} {fields : List (Declaration Schema)}

/-- What follows the header is the one field that does not stand in it. -/
theorem filter_not_isFixed (h : rolesFault? owner fields = none) :
    fields.filter (!·.isFixed) = (fields.find? (!·.isFixed)).toList := by
  obtain ⟨-, hroles, hapart, -⟩ := rolesFault?_eq_none_iff.mp h
  have hbody := hroles .body (by decide)
  have hcomposed := hroles .composed (by decide)
  have hcount : (fields.filter (!·.isFixed)).length ≤ 1 := by
    rw [← List.countP_eq_length_filter, countP_not_isFixed]
    omega
  rw [← List.head?_filter]
  -- a list with one member at most is its head
  cases htail : fields.filter (!·.isFixed) with
  | nil => rfl
  | cons d rest =>
    rw [htail, List.length_cons] at hcount
    rw [List.length_eq_zero_iff.mp (by omega : rest.length = 0)]
    rfl

/-- **The descriptors of a schema are the declared ones**: those of the header in
the order of their offsets, and then what follows it. -/
theorem descriptors_of_assemble (h : assemble owner fields = .ok s) :
    s.descriptors = (byOffset fields ++ fields.filter (!·.isFixed)).map (·.descriptor name) := by
  obtain ⟨hroles, hfaults, header, hlay, hclose⟩ := assemble_ok h
  have settable : ∀ d ∈ fields, d.role ≠ .composed → d.writable = true :=
    fun d hd => (fault?_eq_none_iff.mp (hfaults d hd)).1
  have hheader : describeFrom 0 s.header = (byOffset fields).map (·.descriptor name) := by
    rw [header_of_close hclose]
    refine describeFrom_of_lay (fun d hd => (isFixed_of_mem_byOffset hd).2) (fun d hd => ?_) hlay
    obtain ⟨hmem, hfixed⟩ := isFixed_of_mem_byOffset hd
    exact settable d hmem (isFixed_iff.mp hfixed).2
  rw [List.map_append, filter_not_isFixed hroles, Schema.descriptors.eq_def, hheader]
  congr 1
  -- the tail of the schema is what was declared to follow the header
  cases hfind : fields.find? (!·.isFixed) with
  | none =>
    rw [hfind] at hclose
    obtain rfl := Except.ok.inj hclose
    rfl
  | some d =>
    have hmem : d ∈ fields := List.mem_of_find?_eq_some hfind
    have hvariable : ¬ d.isFixed = true := by simpa using List.find?_some hfind
    rw [hfind, close] at hclose
    split at hclose
    · cases hclose
    · next hend =>
      obtain ⟨part, offset, kind, reversed, writable⟩ := d
      have hoffset : offset = sizeOf header := not_not.mp hend
      cases kind with
      | body type =>
        obtain rfl : writable = true := settable _ hmem (by simp [Declaration.role, FieldKind.role])
        obtain rfl := Except.ok.inj hclose
        simp [hoffset, Declaration.descriptor, Declaration.role, FieldKind.role, FieldKind.extent,
          FieldKind.content, fixedSize, Schema.header]
      | composed inner =>
        obtain rfl := Except.ok.inj hclose
        simp [hoffset, Declaration.descriptor, Declaration.role, FieldKind.role, FieldKind.extent,
          FieldKind.content, fixedSize, Schema.header]
      | metaData type length => exact absurd rfl hvariable
      | identifier type length => exact absurd rfl hvariable
      | length type length => exact absurd rfl hvariable

/-- Every field that does not stand in the header is the one that follows it. -/
theorem find?_not_isFixed (h : rolesFault? owner fields = none) {d : Declaration Schema}
    (hd : d ∈ fields) (hvariable : d.isFixed = false) : fields.find? (!·.isFixed) = some d := by
  have hmem : d ∈ fields.filter (!·.isFixed) := List.mem_filter.mpr ⟨hd, by simp [hvariable]⟩
  rw [filter_not_isFixed h] at hmem
  exact Option.mem_toList.mp hmem

/-- What follows a header that was closed begins at its end. -/
theorem offset_of_close {header : List HeaderField} {d : Declaration Schema}
    (h : close owner header (some d) = .ok s) : d.offset = sizeOf header := by
  rw [close] at h
  split_ifs at h with hend
  exact not_not.mp hend

/-- A header is closed by anything that begins at its end. -/
theorem exists_close {header : List HeaderField} {d? : Option (Declaration Schema)}
    (h : ∀ d, d? = some d → d.offset = sizeOf header) : ∃ s, close owner header d? = .ok s := by
  cases d? with
  | none => exact ⟨_, rfl⟩
  | some d =>
    have hoffset := h d rfl
    obtain ⟨name, offset, kind, reversed, writable⟩ := d
    rw [close, if_neg (not_not.mpr hoffset)]
    cases kind <;> exact ⟨_, rfl⟩

/-- The header of declared fields abuts up to its size, as the fields themselves
do in the order of their offsets. -/
theorem abut_of_lay {header : List HeaderField} (settable : ∀ d ∈ fields, d.isFixed = true →
    d.writable = true) (h : lay owner 0 (byOffset fields) = .ok header) :
    Abut 0 ((byOffset fields).map (·.span)) (sizeOf header) := by
  have described : describeFrom 0 header = (byOffset fields).map (·.descriptor name) :=
    describeFrom_of_lay (fun d hd => (isFixed_of_mem_byOffset hd).2)
      (fun d hd => settable d (isFixed_of_mem_byOffset hd).1 (isFixed_of_mem_byOffset hd).2) h
  have habut := abut_describeFrom 0 header
  rw [described, List.map_map, Nat.zero_add] at habut
  exact habut

/-- **Fields can be put together exactly if they fit.** -/
theorem exists_assemble_iff :
    (∃ s, assemble owner fields = .ok s) ↔ Fits (fields.map (·.descriptor name)) := by
  -- what each field declares, read off its descriptor
  have own : (∀ d ∈ fields, d.fault? owner = none) ↔
      (∀ d ∈ fields.map (·.descriptor name), d.role ≠ .composed → d.writable = true) ∧
        ∀ d ∈ fields.map (·.descriptor name), d.isVariable = false → 0 < d.length := by
    simp only [List.forall_mem_map, isVariable_descriptor, Bool.not_eq_false', fault?_eq_none_iff]
    exact forall₂_and
  have roles : rolesFault? owner fields = none ↔ fields ≠ [] ∧
      (∀ role, role ≠ .metaData → playing role (fields.map (·.descriptor name)) ≤ 1) ∧
      ¬ (0 < playing .body (fields.map (·.descriptor name)) ∧
        0 < playing .composed (fields.map (·.descriptor name))) ∧
      (0 < playing .length (fields.map (·.descriptor name)) ↔
        0 < playing .body (fields.map (·.descriptor name)) ∨
          0 < playing .composed (fields.map (·.descriptor name))) := by
    simp only [playing_descriptor]
    exact rolesFault?_eq_none_iff
  have spans : (fields.map (·.descriptor name)).map (·.span) = fields.map (·.span) := by
    rw [List.map_map]
    rfl
  have fixed : ∀ d ∈ fields, d.fault? owner = none → d.isFixed = true → d.writable = true :=
    fun d _ hd hfixed => (fault?_eq_none_iff.mp hd).1 (isFixed_iff.mp hfixed).2
  constructor
  · rintro ⟨s, h⟩
    obtain ⟨hroles, hfaults, header, hlay, hclose⟩ := assemble_ok h
    obtain ⟨hempty, honce, hapart, hmeasured⟩ := roles.mp hroles
    obtain ⟨hset, hlong⟩ := own.mp hfaults
    refine ⟨by simpa using hempty, honce, hapart, hmeasured, hset, hlong, sizeOf header, ?_, ?_⟩
    · rw [spans, ← tiles_byOffset_iff]
      exact (abut_of_lay (fun d hd => fixed d hd (hfaults d hd)) hlay).tiles
    · simp only [List.forall_mem_map, isVariable_descriptor, Bool.not_eq_true']
      intro d hd hvariable
      rw [find?_not_isFixed hroles hd hvariable] at hclose
      exact offset_of_close hclose
  · rintro ⟨hempty, honce, hapart, hmeasured, hset, hlong, size, htiles, hend⟩
    have hroles := roles.mpr ⟨by simpa using hempty, honce, hapart, hmeasured⟩
    have hfaults := own.mpr ⟨hset, hlong⟩
    rw [spans, ← tiles_byOffset_iff] at htiles
    -- in the order of their offsets the fields of the header abut, so they can be laid down
    have habut : Abut 0 ((byOffset fields).map (·.span)) size := by
      refine abut_of_tiles ((pairwise_byOffset fields).map _ fun _ _ h => h) ?_ htiles
      simp only [List.forall_mem_map]
      intro d hd
      obtain ⟨hmem, hfixed⟩ := isFixed_of_mem_byOffset hd
      exact (fault?_eq_none_iff.mp (hfaults d hmem)).2 hfixed
    obtain ⟨header, hlay⟩ : ∃ header, lay owner 0 (byOffset fields) = .ok header :=
      exists_lay_of_abut (fun d hd => (isFixed_of_mem_byOffset hd).2) habut
    have hsize : size = sizeOf header :=
      htiles.unique (abut_of_lay (fun d hd => fixed d hd (hfaults d hd)) hlay).tiles
    obtain ⟨s, hclose⟩ : ∃ s, close owner header (fields.find? (!·.isFixed)) = .ok s := by
      refine exists_close fun d hd => ?_
      have hvariable : d.isFixed = false := by simpa using List.find?_some hd
      rw [← hsize]
      exact hend _ (List.mem_map_of_mem (List.mem_of_find?_eq_some hd))
        (by rw [isVariable_descriptor, hvariable]; rfl)
    have hown : fields.findSome? (·.fault? owner) = none :=
      List.findSome?_eq_none_iff.mpr hfaults
    refine ⟨s, ?_⟩
    rw [assemble, hroles, hown]
    simp only [Option.or_none, hlay, hclose]

end

/-! ## From the declarations to the wire -/

variable {l : Layout} {s : Schema}

/-- **A layout makes a schema exactly if it is sound.** -/
theorem exists_ofLayout_iff (l : Layout) : (∃ s, ofLayout l = .ok s) ↔ l.Sound := by
  induction l using Layout.induction with
  | step l ih =>
    constructor
    · rintro ⟨s, h⟩
      obtain ⟨made, hmade, hassemble⟩ := ofLayout_eq_ok_iff.mp h
      have hfits := exists_assemble_iff.mp ⟨s, hassemble⟩
      rw [map_descriptor_of_made hmade] at hfits
      exact .intro hfits fun d hd inner hinner =>
        (ih d hd inner hinner).mp (exists_made_iff.mp ⟨made, hmade⟩ d hd inner hinner)
    · rintro ⟨hfits, hinside⟩
      obtain ⟨made, hmade⟩ := exists_made_iff.mpr fun d hd inner hinner =>
        (ih d hd inner hinner).mpr (hinside d hd inner hinner)
      rw [Layout.declared, ← map_descriptor_of_made hmade] at hfits
      obtain ⟨s, hs⟩ := exists_assemble_iff.mpr hfits
      exact ⟨s, ofLayout_eq_ok_iff.mpr ⟨made, hmade, hs⟩⟩

/-- **A schema has the declared fields**, and no others. -/
theorem descriptors_perm_of_ofLayout (h : ofLayout l = .ok s) :
    s.descriptors.Perm l.declared := by
  obtain ⟨made, hmade, hassemble⟩ := ofLayout_eq_ok_iff.mp h
  rw [descriptors_of_assemble hassemble, Layout.declared, ← map_descriptor_of_made hmade]
  refine List.Perm.map _ ?_
  exact ((byOffset_perm made).append_right _).trans (List.filter_append_perm _ _)

/-- The header fields of a schema that a layout makes have a byte each. -/
theorem length_pos_of_ofLayout (h : ofLayout l = .ok s) {f : HeaderField} (hf : f ∈ s.header) :
    0 < f.length := by
  obtain ⟨made, -, hassemble⟩ := ofLayout_eq_ok_iff.mp h
  obtain ⟨-, hfaults, header, hlay, hclose⟩ := assemble_ok hassemble
  rw [header_of_close hclose, ← filterMap_of_lay hlay] at hf
  obtain ⟨d, hd, hdf⟩ := List.mem_filterMap.mp hf
  exact length_pos_of_fault? (hfaults d (isFixed_of_mem_byOffset hd).1) hdf

/-- The descriptors of a schema are those of its header and, behind them, at most
one of what follows it. -/
theorem descriptors_cases (s : Schema) : s.descriptors = describeFrom 0 s.header ∨
    ∃ d, s.descriptors = describeFrom 0 s.header ++ [d] ∧ d.isVariable = true ∧
      d.offset = s.fixedSize ∧ d.length = 0 := by
  cases s with
  | flat name header => exact .inl (List.append_nil _)
  | withBody name header body => exact .inr ⟨_, rfl, rfl, rfl, rfl⟩
  | withMessage name header part inner => exact .inr ⟨_, rfl, rfl, rfl, rfl⟩

/-- **The fields of a schema abut** from the first byte to the end of the header. -/
theorem abut_descriptors (s : Schema) : Abut 0 (s.descriptors.map (·.span)) s.fixedSize := by
  have hheader := abut_describeFrom 0 s.header
  rw [Nat.zero_add] at hheader
  rcases descriptors_cases s with he | ⟨d, he, -, hoffset, hlength⟩
  · rwa [he]
  · rw [he, List.map_append]
    exact hheader.append ⟨hoffset, by simp [Descriptor.span, hlength, Abut, fixedSize]⟩

/-- No field reaches out of the header, and what follows it begins at its end. -/
theorem stop_le_of_mem_descriptors {d : Descriptor} (hd : d ∈ s.descriptors) :
    d.offset + d.length ≤ s.fixedSize ∧ (d.isVariable = true → d.offset = s.fixedSize) := by
  have header (hd : d ∈ describeFrom 0 s.header) :
      d.offset + d.length ≤ s.fixedSize ∧ (d.isVariable = true → d.offset = s.fixedSize) := by
    obtain ⟨hfixed, -, -, hend, -⟩ := of_mem_describeFrom hd
    rw [Nat.zero_add] at hend
    exact ⟨hend, fun hvariable => by simp [hfixed] at hvariable⟩
  rcases descriptors_cases s with he | ⟨e, he, -, hoffset, hlength⟩
  · exact header (he ▸ hd)
  · rw [he, List.mem_append, List.mem_singleton] at hd
    rcases hd with hd | rfl
    · exact header hd
    · exact ⟨by omega, fun _ => hoffset⟩

/-- **A schema realises a layout**: it has the declared fields, in the order of
the wire, and they fill its header. -/
structure Realises (s : Schema) (l : Layout) : Prop where
  /-- The fields are the declared ones, each as often as it was declared. -/
  fields : s.descriptors.Perm l.declared
  /-- Each begins before those that come later, and nothing comes after what
  follows the header. -/
  ordered : s.descriptors.Pairwise fun d e => d.offset < e.offset ∧ d.isVariable = false
  /-- The header is as long as its fields together, and never empty. -/
  size : s.fixedSize = (l.declared.map (·.length)).sum ∧ 1 ≤ s.fixedSize
  /-- Every byte of the header lies in exactly one field. -/
  tiled : Tiles s.fixedSize (s.descriptors.map (·.span))
  /-- No field reaches out of the header. -/
  inside : ∀ d ∈ s.descriptors, d.offset + d.length ≤ s.fixedSize
  /-- What follows the header begins where it ends. -/
  behind : ∀ d ∈ s.descriptors, d.isVariable = true → d.offset = s.fixedSize

theorem realises_of_ofLayout (h : ofLayout l = .ok s) : s.Realises l where
  fields := descriptors_perm_of_ofLayout h
  ordered := by
    have hheader : (describeFrom 0 s.header).Pairwise
        fun d e => d.offset < e.offset ∧ d.isVariable = false :=
      (pairwise_describeFrom fun f hf => length_pos_of_ofLayout h hf).imp_of_mem
        fun hd _ hlt => ⟨hlt, (of_mem_describeFrom hd).1⟩
    rcases descriptors_cases s with he | ⟨e, he, -, hoffset, -⟩
    · rwa [he]
    · rw [he, List.pairwise_append]
      refine ⟨hheader, List.pairwise_singleton _ _, fun d hd e' he' => ?_⟩
      obtain rfl := List.mem_singleton.mp he'
      obtain ⟨hfixed, -, -, hend, f, hf, -, hlength, -⟩ := of_mem_describeFrom hd
      have hpos := length_pos_of_ofLayout h hf
      rw [Nat.zero_add] at hend
      have : sizeOf s.header = s.fixedSize := rfl
      exact ⟨by omega, hfixed⟩
  size := by
    have hsum := (abut_descriptors s).stop_eq
    rw [Nat.zero_add, List.map_map] at hsum
    refine ⟨hsum.trans ?_, fixedSize_pos_of_ofLayout h⟩
    exact ((descriptors_perm_of_ofLayout h).map _).sum_nat
  tiled := (abut_descriptors s).tiles
  inside := fun _ hd => (stop_le_of_mem_descriptors hd).1
  behind := fun _ hd => (stop_le_of_mem_descriptors hd).2

end Schema

/-- **Checking a layout is exact**: it makes a schema exactly if it is sound, and
the schema realises it. -/
structure Layout.Checked (l : Layout) : Prop where
  makes : (∃ s, Schema.ofLayout l = .ok s) ↔ l.Sound
  realised : ∀ s, Schema.ofLayout l = .ok s → s.Realises l

/-- **Every layout is checked exactly.** -/
theorem Layout.checked (l : Layout) : l.Checked where
  makes := Schema.exists_ofLayout_iff l
  realised := fun _ => Schema.realises_of_ofLayout

end FramedDuplex
