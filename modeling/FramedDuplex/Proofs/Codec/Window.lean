import FramedDuplex.Codec.Serialize
import FramedDuplex.Codec.Decode
import FramedDuplex.Proofs.Converter.Restorable
import FramedDuplex.Proofs.Schema.Fields
import Mathlib.Data.Nat.Notation
/-!
# The windows of a header

A header is written as one window for each field and read as the same windows,
so what holds of a header is proved window by window. The facts that the round
trip needs: a header has its declared size (`length_of_header`), reading it
gives the fields the values it was written with (`readHeader_header`), and the
length read out of it is the length that was written (`bodyLength_header`).
-/

namespace FramedDuplex

variable [OwnTypes]

namespace Codec

variable {c : Codec} {m : Message} {f : HeaderField} {fields : List HeaderField}
variable {w ws : Bytes}

/-! ## One window -/

/-- **A window holds its value's bytes, filled up and turned.** -/
theorem window_ok (h : c.window m f = .ok w) :
    ∃ bs, c.registry.encode f.type (m.get f.name f.type) = .ok bs ∧ bs.length ≤ f.length ∧
      w = Bytes.orient f.reversed (Bytes.padTo f.length bs) := by
  rw [window] at h
  split at h
  · cases h
  · next bs hbs =>
    split at h
    · cases h
    · next hfits =>
      obtain rfl := Except.ok.inj h
      exact ⟨bs, hbs, by omega, rfl⟩

/-- A window has the declared length. -/
theorem length_of_window (h : c.window m f = .ok w) : w.length = f.length := by
  obtain ⟨bs, -, hfits, rfl⟩ := window_ok h
  rw [Bytes.length_orient, Bytes.length_padTo]
  omega

/-- **A restorable value is read back from its window.** -/
theorem decode_window (h : c.window m f = .ok w)
    (hr : c.registry.Restorable f.length f.type (m.get f.name f.type)) (field : String) :
    c.registry.decode field f.type (Bytes.orient f.reversed w) = .ok (m.get f.name f.type) := by
  obtain ⟨bs, hbs, -, rfl⟩ := window_ok h
  rw [Bytes.orient_orient]
  exact Registry.decode_of_restorable hr hbs field

/-! ## All windows -/

/-- A header that begins with a field begins with that field's window. -/
theorem header_cons_ok (h : c.header m (f :: fields) = .ok ws) :
    ∃ w rest, c.window m f = .ok w ∧ c.header m fields = .ok rest ∧ ws = w ++ rest := by
  rw [header] at h
  split at h
  · cases h
  · next w hw =>
    split at h
    · cases h
    · next rest hrest => exact ⟨w, rest, hw, hrest, (Except.ok.inj h).symm⟩

/-- **A header has its declared size.** -/
theorem length_of_header (h : c.header m fields = .ok ws) : ws.length = Schema.sizeOf fields := by
  induction fields generalizing ws with
  | nil =>
    obtain rfl := Except.ok.inj h
    rfl
  | cons f fields ih =>
    obtain ⟨w, rest, hw, hrest, rfl⟩ := header_cons_ok h
    rw [List.length_append, length_of_window hw, ih hrest]
    rfl

/-- **Reading a written header** gives its fields the values they were written
with, and leaves everything else alone. -/
theorem readHeader_header (h : c.header m fields = .ok ws)
    (hr : ∀ f ∈ fields, c.registry.Restorable f.length f.type (m.get f.name f.type))
    (start : Message) (tail : Bytes) :
    ∃ read, c.readHeader start fields (ws ++ tail) = .ok read ∧
      (∀ path type, Schema.HasField fields path type →
        read.slot path type = m.slot path type) ∧
      (∀ path type, ¬ Schema.HasField fields path type →
        read.slot path type = start.slot path type) := by
  induction fields generalizing ws start with
  | nil =>
    refine ⟨start, rfl, ?_, fun _ _ _ => rfl⟩
    rintro path type ⟨f, hf, -⟩
    simp at hf
  | cons f fields ih =>
    obtain ⟨w, rest, hw, hrest, rfl⟩ := header_cons_ok h
    have hlen := length_of_window hw
    have front : (w ++ rest ++ tail).take f.length = w := by
      rw [List.append_assoc, ← hlen, List.take_left']
      rfl
    have back : (w ++ rest ++ tail).drop f.length = rest ++ tail := by
      rw [List.append_assoc, ← hlen, List.drop_left']
      rfl
    obtain ⟨read, hread, hin, hout⟩ := ih hrest (fun g hg => hr g (by simp [hg]))
      (start.set f.name f.type (m.get f.name f.type))
    refine ⟨read, ?_, fun path type hfield => ?_, fun path type hfield => ?_⟩
    -- the first field is set before the rest is read, so the rest starts from there
    · rw [readHeader, front, back, decode_window hw (hr f (by simp))]
      exact hread
    · -- a later field of the same name and type has the same value
      by_cases hlater : Schema.HasField fields path type
      · exact hin path type hlater
      · obtain ⟨g, hg, rfl, rfl⟩ := hfield
        obtain rfl : g = f := by
          rcases List.mem_cons.mp hg with rfl | hg
          · rfl
          · exact absurd ⟨g, hg, rfl, rfl⟩ hlater
        rw [hout _ _ hlater]
        simp [Message.set, Message.get]
    · have hne : ¬ (path = [f.name] ∧ f.type = type) := by
        rintro ⟨hp, ht⟩
        exact hfield ⟨f, by simp, hp, ht.symm⟩
      have hlater : ¬ Schema.HasField fields path type := by
        rintro ⟨g, hg, e⟩
        exact hfield ⟨g, by simp [hg], e⟩
      rw [hout path type hlater]
      simp [Message.set, hne]

/-! ## The length -/

/-- The length field's window is where the length field is. -/
theorem window_of_lengthFieldFrom {offset : ℕ} {l : Schema.LengthField}
    (h : c.header m fields = .ok ws) (hl : Schema.lengthFieldFrom offset fields = some l) :
    offset ≤ l.offset ∧ ∃ f ∈ fields, f.content = .length l.type ∧ f.name = l.name ∧
      f.length = l.length ∧ f.reversed = l.reversed ∧
      c.window m f = .ok ((ws.drop (l.offset - offset)).take l.length) := by
  induction fields generalizing offset ws with
  | nil => simp [Schema.lengthFieldFrom] at hl
  | cons f fields ih =>
    obtain ⟨w, rest, hw, hrest, rfl⟩ := header_cons_ok h
    have hlen := length_of_window hw
    -- any other field is passed over, in the search and in the bytes alike
    have later (hne : ∀ type, f.content ≠ .length type) :
        Schema.lengthFieldFrom (offset + f.length) fields = some l := by
      rw [Schema.lengthFieldFrom] at hl
      split at hl
      · next type htype => exact absurd htype (hne type)
      · exact hl
    have skip (hl : Schema.lengthFieldFrom (offset + f.length) fields = some l) :
        offset ≤ l.offset ∧ ∃ g ∈ f :: fields, g.content = .length l.type ∧ g.name = l.name ∧
          g.length = l.length ∧ g.reversed = l.reversed ∧
          c.window m g = .ok (((w ++ rest).drop (l.offset - offset)).take l.length) := by
      obtain ⟨hle, g, hg, hcontent, hname, hlength, hreversed, hwindow⟩ := ih hrest hl
      have past : (w ++ rest).drop (l.offset - offset) =
          rest.drop (l.offset - (offset + f.length)) := by
        rw [List.drop_append, List.drop_eq_nil_of_le (by omega), List.nil_append, hlen,
          Nat.sub_sub]
      exact ⟨by omega, g, by simp [hg], hcontent, hname, hlength, hreversed, by rwa [past]⟩
    cases hcontent : f.content with
    | length type =>
      rw [Schema.lengthFieldFrom, hcontent] at hl
      obtain rfl := Option.some.inj hl
      refine ⟨Nat.le_refl _, f, by simp, hcontent, rfl, rfl, rfl, ?_⟩
      rw [Nat.sub_self, List.drop_zero, ← hlen, List.take_left']
      · exact hw
      · rfl
    | metaData type => exact skip (later (by simp [hcontent]))
    | identifier type => exact skip (later (by simp [hcontent]))

/-- Setting the length sets the length field, if there is one, to a value that
says the length. -/
theorem writeLength_ok {n : ℕ} {m' : Message} (h : Schema.writeLength fields n m = .ok m') :
    (Schema.lengthFieldFrom 0 fields = none ∧ m' = m) ∨
      ∃ l v, Schema.lengthFieldFrom 0 fields = some l ∧ l.type.ofLength? n = some v ∧
        m' = m.set l.name (.scalar (.int l.type)) v := by
  rw [Schema.writeLength] at h
  split at h
  · next hnone => exact .inl ⟨hnone, (Except.ok.inj h).symm⟩
  · next l hl =>
    split at h
    · cases h
    · next v hv => exact .inr ⟨l, v, hl, hv, (Except.ok.inj h).symm⟩

/-- **The length that was written is read.** -/
theorem bodyLength_header {n : ℕ} {before : Message}
    (hn : Schema.lengthFieldFrom 0 fields = none → n = 0)
    (hwrite : Schema.writeLength fields n before = .ok m) (h : c.header m fields = .ok ws)
    (hr : ∀ f ∈ fields, c.registry.Restorable f.length f.type (m.get f.name f.type)) :
    c.bodyLength fields ws = .ok n := by
  rcases writeLength_ok hwrite with ⟨hnone, -⟩ | ⟨l, v, hl, hv, rfl⟩
  · simp [bodyLength, hnone, hn hnone]
  · obtain ⟨-, f, hf, hcontent, hname, hlength, hreversed, hwindow⟩ :=
      window_of_lengthFieldFrom h hl
    have read := decode_window hwindow (hr f hf) l.name
    -- the field found by its place and the field found by its part are one
    obtain ⟨name, length, content, reversed⟩ := f
    obtain rfl : content = .length l.type := hcontent
    simp only at hname hlength hreversed
    subst hname hlength hreversed
    simp only [Nat.sub_zero, HeaderField.type, HeaderContent.type, Message.get_set] at read
    simp only [bodyLength, hl]
    rw [read]
    simp only [IntType.toLength?_of_ofLength? hv]

end Codec

end FramedDuplex
