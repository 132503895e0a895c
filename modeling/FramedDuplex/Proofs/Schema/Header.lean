import FramedDuplex.Proofs.Schema.Framed
/-!
# A header is never empty

A layout makes a schema only if it declares a field, gives each header field a
length, and declares a length for whatever follows the header. So the header of
a schema has a byte at least (`Schema.fixedSize_pos_of_ofLayout`), and with it
every frame.
-/

namespace FramedDuplex

namespace Schema

variable {owner : String} {fields : List (Declaration Schema)} {s : Schema}

/-- Closing a header keeps it. -/
theorem header_of_close {header : List HeaderField} {d? : Option (Declaration Schema)}
    (h : close owner header d? = .ok s) : s.header = header := by
  cases d? with
  | none =>
    obtain rfl := Except.ok.inj h
    rfl
  | some d =>
    obtain ⟨name, offset, kind, reversed, writable⟩ := d
    rw [close] at h
    split at h
    · cases h
    · cases kind <;>
      · obtain rfl := Except.ok.inj h
        rfl

/-- A field without a fault of its own that stands in the header has a
length. -/
theorem length_pos_of_fault? {Inner : Type} {d : Declaration Inner} {f : HeaderField}
    (h : d.fault? owner = none) (hf : d.headerField? = some f) : 0 < f.length := by
  rw [Declaration.fault?] at h
  split_ifs at h with hset hzero
  have hlength : f.length ≠ 0 := by simpa [hf] using hzero
  omega

/-- A header with a field that has a length has a size. -/
theorem sizeOf_pos {header : List HeaderField} {f : HeaderField} (hf : f ∈ header)
    (hlength : 0 < f.length) : 0 < sizeOf header := by
  induction header with
  | nil => simp at hf
  | cons g rest ih =>
    rw [sizeOf]
    rcases List.mem_cons.mp hf with rfl | hrest
    · omega
    · have := ih hrest
      omega

/-- **Some declared field stands in the header**: the length of what follows
it, if nothing else does. -/
theorem exists_fixed_of_rolesFault? (h : rolesFault? owner fields = none) :
    ∃ d ∈ fields, d.isFixed = true := by
  have hcount := countRole_of_rolesFault? h
  obtain ⟨first, hfirst⟩ : ∃ d, d ∈ fields := by
    rw [rolesFault?] at h
    split_ifs at h with hempty
    exact List.exists_mem_of_ne_nil fields (by simpa using hempty)
  by_cases hfixed : first.isFixed = true
  · exact ⟨first, hfirst, hfixed⟩
  · have htail : first.role = .body ∨ first.role = .composed := by
      rw [isFixed_iff] at hfixed
      tauto
    have hpos : 0 < countRole first.role fields := countRole_pos_iff.mpr ⟨first, hfirst, rfl⟩
    have hlength : 0 < countRole .length fields := by
      rcases htail with hrole | hrole <;> rw [hrole] at hpos <;> omega
    obtain ⟨d, hd, hrole⟩ := countRole_pos_iff.mp hlength
    exact ⟨d, hd, isFixed_iff.mpr (by simp [hrole])⟩

/-- **Every schema that a layout makes has a byte of header at least.** -/
theorem fixedSize_pos_of_ofLayout {l : Layout} (h : ofLayout l = .ok s) : 0 < s.fixedSize := by
  obtain ⟨owner, declared⟩ := l
  rw [ofLayout] at h
  split at h
  · cases h
  · next fields hfields =>
    obtain ⟨hroles, hfaults, header, hlay, hclose⟩ := assemble_ok h
    obtain ⟨d, hd, hfixed⟩ := exists_fixed_of_rolesFault? hroles
    obtain ⟨f, hf⟩ := Option.isSome_iff_exists.mp hfixed
    have hmem : f ∈ header := by
      rw [← filterMap_of_lay hlay]
      refine List.mem_filterMap.mpr ⟨d, ?_, hf⟩
      rw [byOffset, List.mem_mergeSort, List.mem_filter]
      exact ⟨hd, hfixed⟩
    rw [fixedSize, header_of_close hclose]
    exact sizeOf_pos hmem (length_pos_of_fault? (hfaults d hd) hf)

end Schema

end FramedDuplex
