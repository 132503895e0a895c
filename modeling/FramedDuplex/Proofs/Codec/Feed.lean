import FramedDuplex.Proofs.Codec.Front
import FramedDuplex.Proofs.Codec.RoundTrip
import Mathlib.Data.List.Infix
/-!
# Frames off a buffer that grows

Bytes come in pieces of any size, and between the pieces somebody asks for the
next frame (`Feed`). What the answers are, apart from those that say "not yet",
depends on the bytes alone: they are the answers that as many questions get when
all bytes are there (`Codec.InSync.whole`). A frame that cannot be read is gone
with its answer, so the frames behind it are read as if nothing had happened
(`Codec.InSync.apart`). Only a header at fault ends it, for nothing tells how
many bytes to skip.

All of this comes from one fact: once a question has an answer, bytes that come
later do not change it (`Codec.decodeNext_append`).
-/

namespace FramedDuplex

variable [OwnTypes]

/-- What happens to a buffer: bytes come in behind, or the next frame is asked
for. -/
inductive Feed where
  | push (bs : Bytes)
  | ask

/-- All bytes that come in. -/
def Feed.pushed : List Feed → Bytes
  | [] => []
  | .push bs :: rest => bs ++ pushed rest
  | .ask :: rest => pushed rest

namespace Codec

variable {c : Codec} {s : Schema} {l : Layout} {b : Bytes} {n : ℕ}

/-! ## One question -/

/-- The buffer does not hold a frame yet, and stays. -/
def Waits (c : Codec) (s : Schema) (b : Bytes) : Prop :=
  c.decodeNext s b = (.ok none, b)

/-- The header is at fault, and the buffer stays. -/
def Refuses (c : Codec) (s : Schema) (b : Bytes) : Prop :=
  ∃ fault, s.fixedSize ≤ b.length ∧ c.HeaderFault s (b.take s.fixedSize) fault ∧
    c.decodeNext s b = (.error fault, b)

/-- Exactly the bytes that the header announces are taken off, and read for
better or worse. -/
def Takes (c : Codec) (s : Schema) (b : Bytes) : Prop :=
  ∃ n, s.fixedSize + n ≤ b.length ∧ c.Announces s (b.take s.fixedSize) n ∧ c.Admits s n ∧
    c.decodeNext s b =
      ((c.decodeFrame s (b.take (s.fixedSize + n))).map some, b.drop (s.fixedSize + n))

/-- Bytes that are as many as the header among them announces, whatever else is
in them. -/
def IsFrame (c : Codec) (s : Schema) (f : Bytes) : Prop :=
  ∃ n, f.length = s.fixedSize + n ∧ c.Announces s (f.take s.fixedSize) n ∧ c.Admits s n

theorem waits_of_front (h : c.front s b = .short) : c.Waits s b := by
  rw [Waits, decodeNext_eq, h]

theorem refuses_of_front {fault : CodecError} (h : c.front s b = .broken fault) :
    c.Refuses s b := by
  obtain ⟨hlen, hfault⟩ := front_eq_broken_iff.mp h
  refine ⟨fault, hlen, hfault, ?_⟩
  rw [decodeNext_eq, h]

theorem takes_of_front {total : ℕ} (h : c.front s b = .frame total) : c.Takes s b := by
  obtain ⟨-, hlen, hann⟩ := front_eq_frame_iff.mp h
  obtain ⟨n, hn, hadmits, rfl⟩ := announced_eq_ok_iff.mp hann
  refine ⟨n, hlen, hn, hadmits, ?_⟩
  rw [decodeNext_eq, h]

/-- A frame that is taken off makes the buffer shorter. -/
theorem Takes.shorter (h : c.Takes s b) (hpos : 0 < s.fixedSize) :
    (c.decodeNext s b).2.length < b.length := by
  obtain ⟨n, hlen, -, -, he⟩ := h
  rw [he, List.length_drop]
  omega

/-- What was taken off has an answer. -/
theorem map_some_ne_none (result : Except CodecError Decoded) : result.map some ≠ .ok none := by
  cases result <;> simp [Except.map]

/-- **One of three things happens**, and no two of them at once. -/
theorem waits_refuses_takes (hpos : 0 < s.fixedSize) (b : Bytes) :
    (c.Waits s b ∨ c.Refuses s b ∨ c.Takes s b) ∧ ¬ (c.Waits s b ∧ c.Refuses s b) ∧
      ¬ (c.Waits s b ∧ c.Takes s b) ∧ ¬ (c.Refuses s b ∧ c.Takes s b) := by
  refine ⟨?_, ?_, ?_, ?_⟩
  · cases h : c.front s b with
    | short => exact .inl (waits_of_front h)
    | broken fault => exact .inr (.inl (refuses_of_front h))
    | frame total => exact .inr (.inr (takes_of_front h))
  · rintro ⟨hwaits, fault, -, -, hrefuses⟩
    rw [Waits, hrefuses] at hwaits
    simp at hwaits
  · rintro ⟨hwaits, htakes⟩
    have := htakes.shorter hpos
    rw [hwaits] at this
    exact Nat.lt_irrefl _ this
  · rintro ⟨⟨fault, -, -, hrefuses⟩, htakes⟩
    have := htakes.shorter hpos
    rw [hrefuses] at this
    exact Nat.lt_irrefl _ this

/-- **An answer stays when more bytes come**, and they stay behind what is
left. -/
theorem decodeNext_append (h : (c.decodeNext s b).1 ≠ .ok none) (more : Bytes) :
    c.decodeNext s (b ++ more) = ((c.decodeNext s b).1, (c.decodeNext s b).2 ++ more) := by
  have hfront : c.front s b ≠ .short := by
    intro hshort
    rw [waits_of_front hshort] at h
    exact h rfl
  rw [decodeNext_eq, decodeNext_eq, front_append hfront]
  cases hb : c.front s b with
  | short => exact absurd hb hfront
  | broken fault => rfl
  | frame total =>
    obtain ⟨-, hlen, -⟩ := front_eq_frame_iff.mp hb
    simp only [List.take_append_of_le_length hlen, List.drop_append_of_le_length hlen]

/-- A buffer that waits keeps its bytes. -/
theorem waits_of_none (h : (c.decodeNext s b).1 = .ok none) : c.Waits s b := by
  cases hb : c.front s b with
  | short => exact waits_of_front hb
  | broken fault => simp [decodeNext_eq, hb] at h
  | frame total =>
    rw [decodeNext_eq, hb] at h
    exact absurd h (map_some_ne_none _)

/-! ## Many questions -/

/-- The answers to the questions about a buffer, and the buffer that is left. -/
def feed (c : Codec) (s : Schema) (b : Bytes) :
    List Feed → List (Except CodecError (Option Decoded)) × Bytes
  | [] => ([], b)
  | .push bs :: rest => c.feed s (b ++ bs) rest
  | .ask :: rest =>
    let (answer, b) := c.decodeNext s b
    let (answers, b) := c.feed s b rest
    (answer :: answers, b)

/-- What an answer says, unless it says "not yet". -/
def outcome? : Except CodecError (Option Decoded) → Option (Except CodecError Decoded)
  | .ok none => none
  | .ok (some d) => some (.ok d)
  | .error fault => some (.error fault)

/-- What is said in the course of feeding a buffer that is empty at first. -/
def outcomes (c : Codec) (s : Schema) (session : List Feed) : List (Except CodecError Decoded) :=
  (c.feed s [] session).1.filterMap outcome?

/-- What is left in the buffer after that. -/
def remainder (c : Codec) (s : Schema) (session : List Feed) : Bytes :=
  (c.feed s [] session).2

@[simp] theorem outcome?_map_some (result : Except CodecError Decoded) :
    outcome? (result.map some) = some result := by
  cases result <;> rfl

theorem filterMap_outcome? (results : List (Except CodecError Decoded)) :
    (results.map (·.map some)).filterMap outcome? = results := by
  induction results with
  | nil => rfl
  | cons result rest ih => simp [ih]

theorem eq_map_some_of_outcome? {answer : Except CodecError (Option Decoded)}
    {result : Except CodecError Decoded} (h : outcome? answer = some result) :
    answer = result.map some := by
  rcases answer with fault | (_ | d) <;> simp only [outcome?, Option.some.injEq, reduceCtorEq] at h
  all_goals
    subst h
    rfl

theorem outcome?_eq_none_iff {answer : Except CodecError (Option Decoded)} :
    outcome? answer = none ↔ answer = .ok none := by
  rcases answer with fault | (_ | d) <;> simp [outcome?]

theorem feed_append (c : Codec) (s : Schema) (b : Bytes) (p q : List Feed) :
    c.feed s b (p ++ q) =
      ((c.feed s b p).1 ++ (c.feed s (c.feed s b p).2 q).1, (c.feed s (c.feed s b p).2 q).2) := by
  induction p generalizing b with
  | nil => rfl
  | cons step rest ih =>
    cases step with
    | push bs => exact ih (b ++ bs)
    | ask => simp only [List.cons_append, feed, ih]

/-- **The answers depend on the bytes alone.** What is said while bytes come in
is what as many questions are answered when all bytes are there, and leaves the
same bytes over. -/
theorem feed_whole (c : Codec) (s : Schema) (b : Bytes) (session : List Feed) :
    c.feed s (b ++ Feed.pushed session)
        (List.replicate ((c.feed s b session).1.filterMap outcome?).length .ask) =
      (((c.feed s b session).1.filterMap outcome?).map (·.map some), (c.feed s b session).2) := by
  induction session generalizing b with
  | nil => simp [feed, Feed.pushed]
  | cons step rest ih =>
    cases step with
    | push bs =>
      have := ih (b ++ bs)
      rwa [List.append_assoc] at this
    | ask =>
      simp only [feed, Feed.pushed]
      cases hanswer : outcome? (c.decodeNext s b).1 with
      | none =>
        -- "not yet" leaves the buffer as it is, so the question changes nothing
        have hwaits : c.Waits s b := waits_of_none (outcome?_eq_none_iff.mp hanswer)
        rw [List.filterMap_cons_none hanswer, hwaits]
        exact ih b
      | some result =>
        have hsome : (c.decodeNext s b).1 = result.map some := eq_map_some_of_outcome? hanswer
        have hstays := decodeNext_append (hsome ▸ map_some_ne_none result) (Feed.pushed rest)
        rw [List.filterMap_cons_some hanswer, List.length_cons, List.replicate_succ, feed, hstays,
          List.map_cons, ← hsome]
        simp only [ih]

/-- So fewer questions have the first of the answers of more. -/
theorem feed_replicate_add (c : Codec) (s : Schema) (b : Bytes) (j k : ℕ) :
    c.feed s b (List.replicate (j + k) .ask) =
      ((c.feed s b (List.replicate j .ask)).1 ++
          (c.feed s (c.feed s b (List.replicate j .ask)).2 (List.replicate k .ask)).1,
        (c.feed s (c.feed s b (List.replicate j .ask)).2 (List.replicate k .ask)).2) := by
  rw [List.replicate_add, feed_append]

/-- **Of two ways for the same bytes to come in, the one with more outcomes
continues the other** from where that one got to. -/
theorem outcomes_of_le {one other : List Feed} (hsame : Feed.pushed one = Feed.pushed other)
    {k : ℕ} (hk : (c.outcomes s other).length = (c.outcomes s one).length + k) :
    (c.outcomes s other).map (·.map some) = (c.outcomes s one).map (·.map some) ++
      (c.feed s (c.remainder s one) (List.replicate k .ask)).1 := by
  have hone := feed_whole c s [] one
  have hother := feed_whole c s [] other
  simp only [outcomes, remainder] at hk ⊢
  rw [← hsame, hk, feed_replicate_add, hone] at hother
  exact (congrArg Prod.fst hother).symm

/-- A header at fault is answered the same again and again. -/
theorem feed_refuses {fault : CodecError} (h : c.decodeNext s b = (.error fault, b)) (k : ℕ) :
    c.feed s b (List.replicate k .ask) = (List.replicate k (.error fault), b) := by
  induction k with
  | zero => rfl
  | succ k ih => simp only [List.replicate_succ, feed, h, ih]

/-- A frame stands in front of whatever is behind it. -/
theorem IsFrame.front {f : Bytes} (h : c.IsFrame s f) (tail : Bytes) :
    c.front s (f ++ tail) = .frame f.length := by
  obtain ⟨n, hlen, hn, hadmits⟩ := h
  have halone : c.front s f = .frame f.length :=
    front_eq_frame_iff.mpr ⟨by omega, Nat.le_refl _, announced_eq_ok_iff.mpr ⟨n, hn, hadmits, hlen⟩⟩
  rw [front_append (by simp [halone]), halone]

/-- **Frames one after the other are read each for itself**, also those that
cannot be read. -/
theorem feed_frames {frames : List Bytes} (h : ∀ f ∈ frames, c.IsFrame s f) (tail : Bytes) :
    c.feed s (frames.flatten ++ tail) (List.replicate frames.length .ask) =
      (frames.map fun f => (c.decodeFrame s f).map some, tail) := by
  induction frames with
  | nil => rfl
  | cons f rest ih =>
    have hfirst : c.decodeNext s (f ++ (rest.flatten ++ tail)) =
        ((c.decodeFrame s f).map some, rest.flatten ++ tail) := by
      rw [decodeNext_eq, (h f (by simp)).front]
      simp
    rw [List.flatten_cons, List.append_assoc, List.length_cons, List.replicate_succ, feed, hfirst,
      List.map_cons]
    simp only [ih fun g hg => h g (by simp [hg])]

/-! ## In sync -/

/-- **Taking frames off a buffer keeps in step with the bytes.** -/
structure InSync (c : Codec) (s : Schema) : Prop where
  /-- A question has exactly one of three answers. -/
  answer : ∀ b, (c.Waits s b ∨ c.Refuses s b ∨ c.Takes s b) ∧ ¬ (c.Waits s b ∧ c.Refuses s b) ∧
    ¬ (c.Waits s b ∧ c.Takes s b) ∧ ¬ (c.Refuses s b ∧ c.Takes s b)
  /-- Unless it is "not yet", the answer stays when more bytes come. -/
  stays : ∀ b more, (c.decodeNext s b).1 ≠ .ok none →
    c.decodeNext s (b ++ more) = ((c.decodeNext s b).1, (c.decodeNext s b).2 ++ more)
  /-- A frame that is taken off has a byte at least. -/
  shorter : ∀ b, c.Takes s b → (c.decodeNext s b).2.length < b.length
  /-- However the bytes come in, the outcomes and what is left over are those of
  as many questions asked when all bytes are there. -/
  whole : ∀ session, c.feed s (Feed.pushed session)
      (List.replicate (c.outcomes s session).length .ask) =
    ((c.outcomes s session).map (·.map some), c.remainder s session)
  /-- Where no more is to be had, there is no outcome that another way for the
  same bytes to come in would add. -/
  complete : ∀ one other, Feed.pushed one = Feed.pushed other →
    c.Waits s (c.remainder s one) → c.outcomes s other <+: c.outcomes s one
  /-- Where a header is at fault, another way for the same bytes to come in has
  the same outcomes, and after them only the fault. -/
  stuck : ∀ one other fault, Feed.pushed one = Feed.pushed other →
    c.decodeNext s (c.remainder s one) = (.error fault, c.remainder s one) →
      ∃ k, c.outcomes s other <+: c.outcomes s one ++ List.replicate k (.error fault)
  /-- Frames one after the other are read each for itself, whether or not the
  contents of those before them could be read. -/
  apart : ∀ (frames : List Bytes) tail, (∀ f ∈ frames, c.IsFrame s f) →
    c.feed s (frames.flatten ++ tail) (List.replicate frames.length .ask) =
      (frames.map fun f => (c.decodeFrame s f).map some, tail)

/-- A way for bytes to come in that has no more outcomes has the first of
them. -/
theorem outcomes_prefix_of_le {one other : List Feed} (hsame : Feed.pushed one = Feed.pushed other)
    (hle : (c.outcomes s other).length ≤ (c.outcomes s one).length) :
    c.outcomes s other <+: c.outcomes s one := by
  obtain ⟨k, hk⟩ := Nat.exists_eq_add_of_le hle
  have hmore := congrArg (·.filterMap outcome?) (outcomes_of_le hsame.symm hk)
  simp only [List.filterMap_append, filterMap_outcome?] at hmore
  exact ⟨_, hmore.symm⟩

/-- **Where no more is to be had, every outcome is there.** -/
theorem outcomes_prefix_of_waits {one other : List Feed}
    (hsame : Feed.pushed one = Feed.pushed other) (hwaits : c.Waits s (c.remainder s one)) :
    c.outcomes s other <+: c.outcomes s one := by
  rcases Nat.le_total (c.outcomes s other).length (c.outcomes s one).length with hle | hle
  · exact outcomes_prefix_of_le hsame hle
  · obtain ⟨k, hk⟩ := Nat.exists_eq_add_of_le hle
    have hmore := outcomes_of_le hsame hk
    have hnext : c.decodeNext s (c.remainder s one) = (.ok none, c.remainder s one) := hwaits
    cases k with
    | zero => exact outcomes_prefix_of_le hsame (by omega)
    | succ k =>
      -- one more question would be answered "not yet", which is no outcome
      have hnone : Except.ok none ∈ (c.outcomes s other).map (·.map some) := by
        rw [hmore, List.replicate_succ, feed, hnext]
        simp
      obtain ⟨result, -, hresult⟩ := List.mem_map.mp hnone
      exact absurd hresult (map_some_ne_none result)

/-- **Where a header is at fault, only the fault follows.** -/
theorem outcomes_prefix_of_refuses {one other : List Feed} {fault : CodecError}
    (hsame : Feed.pushed one = Feed.pushed other)
    (hrefuses : c.decodeNext s (c.remainder s one) = (.error fault, c.remainder s one)) :
    ∃ k, c.outcomes s other <+: c.outcomes s one ++ List.replicate k (.error fault) := by
  rcases Nat.le_total (c.outcomes s other).length (c.outcomes s one).length with hle | hle
  · exact ⟨0, by simpa using outcomes_prefix_of_le hsame hle⟩
  · obtain ⟨k, hk⟩ := Nat.exists_eq_add_of_le hle
    have hmore := congrArg (·.filterMap outcome?) (outcomes_of_le hsame hk)
    have hfaults : (List.replicate k (Except.error fault)).filterMap outcome? =
        List.replicate k (.error fault) := List.filterMap_replicate_of_some rfl
    simp only [feed_refuses hrefuses, List.filterMap_append, filterMap_outcome?, hfaults] at hmore
    exact ⟨k, hmore ▸ List.prefix_refl _⟩

/-- **Every codec is in sync with the frames of a schema that it can read.** -/
theorem inSync_of_prepareDecoder (prepared : c.prepareDecoder l = .ok s) : c.InSync s := by
  have hpos : 0 < s.fixedSize := Schema.fixedSize_pos_of_ofLayout (prepareDecoder_ok prepared).1
  exact {
    answer := waits_refuses_takes hpos
    stays := fun b more h => decodeNext_append h more
    shorter := fun b h => h.shorter hpos
    whole := feed_whole c s []
    complete := fun one other => outcomes_prefix_of_waits
    stuck := fun one other fault => outcomes_prefix_of_refuses
    apart := fun frames tail h => feed_frames h tail }

end Codec

end FramedDuplex

namespace FramedDuplex.Codec

/-! ## Parcels -/

/-- A parcel: a number, a size and a box, which has a size of its own. -/
def parcelLayout : Layout :=
  .mk "Parcel"
    [⟨"box", 2, .composed
        (.mk "Box" [⟨"content", 1, .body .bytes, false, true⟩,
          ⟨"size", 0, .length ⟨.w8, false⟩ 1, false, true⟩]), true, true⟩,
      ⟨"size", 1, .length ⟨.w8, true⟩ 1, false, true⟩,
      ⟨"number", 0, .identifier (.scalar (.int ⟨.w8, false⟩)) 1, false, true⟩]

/-- The schema of a parcel. -/
def parcelSchema : Schema :=
  .withMessage "Parcel"
    [⟨"number", 1, .identifier (.scalar (.int ⟨.w8, false⟩)), false⟩,
      ⟨"size", 1, .length ⟨.w8, true⟩, false⟩]
    ⟨"box", true, true⟩
    (.withBody "Box" [⟨"size", 1, .length ⟨.w8, false⟩, false⟩] ⟨"content", .bytes, false⟩)

theorem prepareDecoder_parcel : standard.prepareDecoder parcelLayout = .ok parcelSchema := by cbv

/-- Two parcels, the first with a box of another size than the box says, and a
header with a negative size, in pieces that end anywhere. -/
def parcelSession : List Feed :=
  [.push [7], .ask, .push [3, 65], .ask, .push [66, 9, 8, 2], .ask, .ask, .push [67, 1, 9, 128],
    .ask, .ask, .push [10], .ask]

/-- The codec is in sync with parcels, so the pieces make no difference. -/
theorem inSync_parcels :
    standard.prepareDecoder parcelLayout = .ok parcelSchema ∧
      (standard.outcomes parcelSchema parcelSession).map (·.map (·.key)) =
        [.error (.frameLength 10 3), .ok (.of ⟨.scalar (.int ⟨.w8, false⟩), 8#8⟩),
          .error (.invalidValue "i8" "length field is negative"),
          .error (.invalidValue "i8" "length field is negative")] ∧
      standard.feed parcelSchema [7, 3, 65, 66, 9, 8, 2, 67, 1, 9, 128, 10]
          [.ask, .ask, .ask, .ask] =
        ((standard.outcomes parcelSchema parcelSession).map (·.map some), [9, 128, 10]) := by
  have count : (standard.outcomes parcelSchema parcelSession).length = 4 := by cbv
  have left : standard.remainder parcelSchema parcelSession = [9, 128, 10] := by cbv
  have whole := (inSync_of_prepareDecoder prepareDecoder_parcel).whole parcelSession
  rw [count, left] at whole
  exact ⟨prepareDecoder_parcel, by cbv, whole⟩

end FramedDuplex.Codec
