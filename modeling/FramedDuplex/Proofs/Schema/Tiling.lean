import FramedDuplex.Schema.Basic
import Mathlib.Algebra.Ring.Nat
import Mathlib.Data.List.Basic
import Mathlib.Data.Nat.Notation
/-!
# Stretches of bytes

The fields of a header are stretches of bytes. They tile it (`Tiles`) if each of
its bytes lies in exactly one of them and no byte behind it in any, which says
nothing of the order in which the fields are listed. In the order of their
offsets it comes to the same that each begins where the one before it ends
(`Abut`), and that is what a checker can see: `abut_of_tiles` and `Abut.tiles`
are the two directions.

A schema stores no offsets, so its descriptors abut by construction
(`Schema.abut_describeFrom`).
-/

namespace FramedDuplex

/-- A stretch of bytes: where it begins and how many bytes it has. -/
structure Span where
  start : ℕ
  length : ℕ

/-- Whether a byte lies in a stretch. -/
def Span.holds (w : Span) (i : ℕ) : Bool := w.start ≤ i ∧ i < w.start + w.length

/-- **Stretches tile the first `size` bytes**: each of these lies in exactly one
stretch, and no byte behind them lies in any. -/
def Tiles (size : ℕ) (spans : List Span) : Prop :=
  ∀ i, spans.countP (·.holds i) = if i < size then 1 else 0

/-- Each stretch begins where the one before it ends, from `start` up to `stop`. -/
def Abut : ℕ → List Span → ℕ → Prop
  | start, [], stop => start = stop
  | start, w :: rest, stop => w.start = start ∧ Abut (start + w.length) rest stop

variable {start middle stop size i : ℕ} {w : Span} {spans more : List Span}

theorem Span.holds_iff : w.holds i = true ↔ w.start ≤ i ∧ i < w.start + w.length := by
  simp [holds]

/-- An empty stretch has no byte. -/
theorem Span.not_holds_of_length (h : w.length = 0) : w.holds i = false := by
  rw [← Bool.not_eq_true, holds_iff]
  omega

/-! ## In any order -/

/-- **Two tilings by the same stretches are of one size.** -/
theorem Tiles.unique {other : ℕ} (h : Tiles size spans) (h' : Tiles other spans) :
    size = other := by
  have hsize := (h size).symm.trans (h' size)
  have hother := (h other).symm.trans (h' other)
  split_ifs at hsize hother <;> omega

/-- Stretches without bytes make no difference. -/
theorem countP_holds_filter {α : Type} {span : α → Span} {keep : α → Bool} {fields : List α}
    (h : ∀ d ∈ fields, keep d = false → (span d).length = 0) (i : ℕ) :
    ((fields.filter keep).map span).countP (·.holds i) = (fields.map span).countP (·.holds i) := by
  rw [List.countP_map, List.countP_map, List.countP_filter]
  refine List.countP_congr fun d hd => ?_
  cases hkeep : keep d with
  | true => simp
  | false => simp [Span.not_holds_of_length (h d hd hkeep)]

/-! ## In the order of the bytes -/

theorem Abut.append (h : Abut start spans middle) (h' : Abut middle more stop) :
    Abut start (spans ++ more) stop := by
  induction spans generalizing start with
  | nil =>
    obtain rfl : start = middle := h
    exact h'
  | cons w rest ih => exact ⟨h.1, ih h.2⟩

/-- Stretches that abut are as long as what they cover. -/
theorem Abut.stop_eq (h : Abut start spans stop) :
    stop = start + (spans.map (·.length)).sum := by
  induction spans generalizing start with
  | nil =>
    obtain rfl : start = stop := h
    simp
  | cons w rest ih =>
    rw [ih h.2, List.map_cons, List.sum_cons, Nat.add_assoc]

/-- **Of stretches that abut, exactly one has a byte in their range.** -/
theorem Abut.countP (h : Abut start spans stop) (i : ℕ) :
    spans.countP (·.holds i) = if start ≤ i ∧ i < stop then 1 else 0 := by
  induction spans generalizing start with
  | nil =>
    obtain rfl : start = stop := h
    rw [List.countP_nil, if_neg (by omega)]
  | cons w rest ih =>
    obtain ⟨rfl, hrest⟩ := h
    have hstop := hrest.stop_eq
    rw [List.countP_cons, ih hrest]
    -- the byte lies in the first stretch, or behind it, or in front of all
    by_cases hw : w.holds i = true
    · rw [if_pos hw, if_neg (by rw [Span.holds_iff] at hw; omega),
        if_pos (by rw [Span.holds_iff] at hw; omega)]
    · rw [if_neg hw]
      rw [Span.holds_iff] at hw
      by_cases hin : w.start + w.length ≤ i ∧ i < stop
      · rw [if_pos hin, if_pos (by omega)]
      · rw [if_neg hin, if_neg (by omega)]

/-- **Stretches that abut from the first byte on tile.** -/
theorem Abut.tiles (h : Abut 0 spans size) : Tiles size spans := by
  intro i
  rw [h.countP i]
  simp

/-- Stretches in order, none of them empty, that have each byte of a range
once and no other byte, abut. -/
theorem abut_of_countP (ordered : spans.Pairwise (·.start ≤ ·.start))
    (long : ∀ w ∈ spans, 0 < w.length) (hle : start ≤ stop)
    (count : ∀ i, spans.countP (·.holds i) = if start ≤ i ∧ i < stop then 1 else 0) :
    Abut start spans stop := by
  induction spans generalizing start with
  | nil =>
    -- no byte lies in any stretch, so the range has none
    have hstart := count start
    rw [List.countP_nil] at hstart
    split_ifs at hstart
    change start = stop
    omega
  | cons w rest ih =>
    obtain ⟨hfirst, hrest⟩ := List.pairwise_cons.mp ordered
    have hlong : 0 < w.length := long w (by simp)
    -- the first and the last byte of the first stretch lie in the range
    have inside : ∀ i, w.holds i = true → start ≤ i ∧ i < stop := by
      intro i hi
      have hcount := count i
      rw [List.countP_cons, if_pos hi] at hcount
      by_contra hout
      rw [if_neg hout] at hcount
      omega
    obtain ⟨hge, hlt⟩ := inside w.start (Span.holds_iff.mpr (by omega))
    obtain ⟨-, hend⟩ := inside (w.start + w.length - 1) (Span.holds_iff.mpr (by omega))
    -- and the first byte of the range lies in it, for all others begin later
    have hbegin : w.start = start := by
      by_contra hne
      have hnone : ∀ v ∈ w :: rest, v.holds start = false := by
        intro v hv
        rw [← Bool.not_eq_true, Span.holds_iff]
        rcases List.mem_cons.mp hv with rfl | hv
        · omega
        · have := hfirst v hv
          omega
      have hcount := count start
      rw [if_pos (by omega), List.countP_eq_zero.mpr (by simpa using hnone)] at hcount
      omega
    refine ⟨hbegin, ih hrest (fun v hv => long v (by simp [hv])) (by omega) fun i => ?_⟩
    have hcount := count i
    rw [List.countP_cons] at hcount
    by_cases hi : w.holds i = true
    · rw [if_pos hi, if_pos (inside i hi)] at hcount
      rw [Span.holds_iff] at hi
      rw [if_neg (by omega)]
      omega
    · rw [if_neg hi] at hcount
      rw [Span.holds_iff] at hi
      rw [Nat.add_zero] at hcount
      rw [hcount]
      refine if_congr ?_ rfl rfl
      omega

/-- **Stretches in order that tile abut**, if none of them is empty. -/
theorem abut_of_tiles (ordered : spans.Pairwise (·.start ≤ ·.start))
    (long : ∀ w ∈ spans, 0 < w.length) (h : Tiles size spans) : Abut 0 spans size := by
  refine abut_of_countP ordered long (Nat.zero_le _) fun i => ?_
  rw [h i]
  simp

/-! ## The fields of a schema -/

namespace Schema

/-- The bytes of a field in the header; of one after the header there are none. -/
def Descriptor.span (d : Descriptor) : Span := ⟨d.offset, d.length⟩

variable {offset : ℕ} {header : List HeaderField} {d : Descriptor}

/-- The size of a header is the sum of the lengths of its fields. -/
theorem sizeOf_eq_sum (header : List HeaderField) : sizeOf header = (header.map (·.length)).sum := by
  induction header with
  | nil => rfl
  | cons f rest ih => rw [sizeOf, ih, List.map_cons, List.sum_cons]

/-- **The fields of a header abut.** -/
theorem abut_describeFrom (offset : ℕ) (header : List HeaderField) :
    Abut offset ((describeFrom offset header).map (·.span)) (offset + sizeOf header) := by
  induction header generalizing offset with
  | nil => exact rfl
  | cons f rest ih =>
    refine ⟨rfl, ?_⟩
    rw [sizeOf, ← Nat.add_assoc]
    exact ih (offset + f.length)

/-- A header field stands in the header, and reading sets it. -/
theorem of_mem_describeFrom (h : d ∈ describeFrom offset header) :
    d.isVariable = false ∧ d.writable = true ∧ offset ≤ d.offset ∧
      d.offset + d.length ≤ offset + sizeOf header ∧
      ∃ f ∈ header, d.name = f.name ∧ d.length = f.length ∧ d.role = f.content.role ∧
        d.content = .value f.type ∧ d.reversed = f.reversed := by
  induction header generalizing offset with
  | nil => simp [describeFrom] at h
  | cons f rest ih =>
    rw [describeFrom] at h
    rw [sizeOf]
    rcases List.mem_cons.mp h with rfl | h
    · refine ⟨?_, rfl, Nat.le_refl _, by simp only; omega, f, by simp, rfl, rfl, rfl, rfl, rfl⟩
      simp only [Descriptor.isVariable]
      cases f.content <;> simp [HeaderContent.role]
    · obtain ⟨hfixed, hset, hle, hend, g, hg, same⟩ := ih h
      exact ⟨hfixed, hset, by omega, by omega, g, by simp [hg], same⟩

/-- A header field has its descriptor. -/
theorem exists_mem_describeFrom {f : HeaderField} (h : f ∈ header) (offset : ℕ) :
    ∃ d ∈ describeFrom offset header, d.name = f.name ∧ d.length = f.length ∧
      d.content = .value f.type := by
  induction header generalizing offset with
  | nil => simp at h
  | cons g rest ih =>
    rw [describeFrom]
    rcases List.mem_cons.mp h with rfl | h
    · exact ⟨_, List.mem_cons_self, rfl, rfl, rfl⟩
    · obtain ⟨d, hd, he⟩ := ih h (offset + g.length)
      exact ⟨d, by simp [hd], he⟩

/-- Header fields that have a length stand in the order of their offsets. -/
theorem pairwise_describeFrom (long : ∀ f ∈ header, 0 < f.length) :
    (describeFrom offset header).Pairwise (·.offset < ·.offset) := by
  induction header generalizing offset with
  | nil => exact List.Pairwise.nil
  | cons f rest ih =>
    refine List.pairwise_cons.mpr ⟨fun d hd => ?_, ih fun g hg => long g (by simp [hg])⟩
    obtain ⟨-, -, hle, -⟩ := of_mem_describeFrom hd
    have := long f (by simp)
    simp only
    omega

end Schema

end FramedDuplex
