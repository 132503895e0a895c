import FramedDuplex.Codec.Assembly
import FramedDuplex.Proofs.Codec.Feed
/-!
# Frames off a stream

A stream hands its bytes out in pieces, and reading a frame takes as many as it
asks for, first for the header and then for what the header announces. That
comes to the same as taking a frame off a buffer with all bytes of the stream in
it (`Codec.StreamInSync`): the same frame, the same fault, and where the buffer
would wait, the stream has ended. No byte behind the frame is taken, so the next
reading begins where this one ended, however the pieces were cut.

What is to be read off the bytes of a whole stream is `Codec.readOff`; an
assembly on its way there has some of them already and knows how many it misses
(`Assembly.Expects`).
-/

namespace FramedDuplex

/-! ## Streams -/

/-- All bytes that a stream has left. -/
def Delivery.unread : List Delivery → Bytes
  | [] => []
  | .bytes bs :: rest => bs ++ unread rest
  | .failure _ :: rest => unread rest

/-- A stream hands out bytes until it ends: it does not fail, and it does not end
before its last piece. -/
def Delivery.Flows (ds : List Delivery) : Prop :=
  ∀ d ∈ ds, ∃ bs, bs ≠ [] ∧ d = .bytes bs

namespace Delivery.Flows

variable {bs : Bytes} {rest : List Delivery}

theorem tail {d : Delivery} (h : Flows (d :: rest)) : Flows rest :=
  fun e he => h e (by simp [he])

theorem head (h : Flows (.bytes bs :: rest)) : bs ≠ [] := by
  obtain ⟨_, hne, he⟩ := h (.bytes bs) (by simp)
  exact (Delivery.bytes.inj he) ▸ hne

theorem cons (hne : bs ≠ []) (h : Flows rest) : Flows (.bytes bs :: rest) := by
  intro d hd
  rcases List.mem_cons.mp hd with rfl | hd
  · exact ⟨bs, hne, rfl⟩
  · exact h d hd

/-- A stream that has no bytes left has ended. -/
theorem eq_nil {ds : List Delivery} (h : Flows ds) (hnone : unread ds = []) : ds = [] := by
  cases ds with
  | nil => rfl
  | cons d rest =>
    obtain ⟨bs, hne, rfl⟩ := h d (by simp)
    exact absurd (List.append_eq_nil_iff.mp hnone).1 hne

/-- The rest of a piece is put back in front, if there is any. -/
theorem putBack (h : Flows rest) :
    Flows (if bs.isEmpty then rest else .bytes bs :: rest) := by
  split
  · exact h
  · next hne => exact cons (by simpa using hne) h

end Delivery.Flows

theorem Delivery.unread_putBack (bs : Bytes) (rest : List Delivery) :
    unread (if bs.isEmpty then rest else .bytes bs :: rest) = bs ++ unread rest := by
  cases bs <;> rfl

variable [OwnTypes]

namespace Codec

variable {c : Codec} {s : Schema} {l : Layout} {a : Assembly} {bs stream : Bytes}
variable {total n : ℕ} {fault : CodecError} {ds rest : List Delivery}

/-- How many bytes a frame that is not there whole should have: those of the
header, until the header is there. -/
def wanted (c : Codec) (s : Schema) (stream : Bytes) : ℕ :=
  if stream.length < s.fixedSize then s.fixedSize
  else
    match c.announced s (stream.take s.fixedSize) with
    | .ok total => total
    | .error _ => s.fixedSize

/-- What is to be read off the bytes of a whole stream, and the bytes left. -/
def readOff (c : Codec) (s : Schema) (stream : Bytes) : Except CodecError Decoded × Bytes :=
  match c.front s stream with
  | .short =>
    (.error (if stream = [] then .closed else .truncated (c.wanted s stream) stream.length), [])
  | .broken fault => (.error fault, stream.drop s.fixedSize)
  | .frame total => (c.decodeFrame s (stream.take total), stream.drop total)

/-- A reading of a stream came to what is to be read off its bytes. -/
structure Reads (c : Codec) (s : Schema) (stream : Bytes)
    (reading : Except CodecError Decoded × List Delivery) : Prop where
  result : reading.1 = (c.readOff s stream).1
  unread : Delivery.unread reading.2 = (c.readOff s stream).2
  flows : Delivery.Flows reading.2

/-! ## One piece -/

/-- The assembly of a frame whose header is there and announces more. -/
def opened (s : Schema) (a : Assembly) (total : ℕ) : Assembly :=
  { a with missing := total - s.fixedSize, headerRead := true }

omit [OwnTypes] in
@[simp] theorem missing_add (a : Assembly) (bs : Bytes) :
    (a.add bs).missing = a.missing - bs.length := rfl

omit [OwnTypes] in
@[simp] theorem headerRead_add (a : Assembly) (bs : Bytes) :
    (a.add bs).headerRead = a.headerRead := rfl

/-- Fewer bytes than an assembly misses are all taken. -/
theorem absorb_of_lt (h : bs.length < a.missing) :
    c.absorb s a bs = (.more (a.add bs), []) := by
  have htake : bs.take a.missing = bs := List.take_of_length_le (by omega)
  have hdrop : bs.drop a.missing = [] := List.drop_of_length_le (by omega)
  have hmissing : 0 < a.missing - bs.length := by omega
  simp [absorb, accept, htake, hdrop, hmissing]

omit [OwnTypes] in
/-- Of enough bytes as many are added as are missing. -/
theorem missing_add_take (h : a.missing ≤ bs.length) :
    ¬ 0 < (a.add (bs.take a.missing)).missing := by
  rw [missing_add, List.length_take]
  omega

/-- **The last bytes of a frame end it**, and those behind them are left. -/
theorem absorb_body (hread : a.headerRead = true) (h : a.missing ≤ bs.length) :
    c.absorb s a bs =
      (.done (c.decodeFrame s (a.arrived ++ bs.take a.missing)), bs.drop a.missing) := by
  simp only [absorb, accept, missing_add_take h, if_false, headerRead_add, hread, if_true,
    Assembly.arrived_add]

/-- Once the header is there, an assembly asks once. -/
theorem absorb_eq_accept (hread : a.headerRead = true) :
    c.absorb s a bs = (c.accept s a (bs.take a.missing), bs.drop a.missing) := by
  rcases Nat.lt_or_ge bs.length a.missing with hlt | hge
  · have htake : bs.take a.missing = bs := List.take_of_length_le (by omega)
    have hdrop : bs.drop a.missing = [] := List.drop_of_length_le (by omega)
    have hmissing : 0 < a.missing - bs.length := by omega
    simp [absorb_of_lt hlt, accept, htake, hdrop, hmissing]
  · rw [absorb_body hread hge]
    simp only [accept, missing_add_take hge, if_false, headerRead_add, hread, if_true,
      Assembly.arrived_add]

/-- **The last bytes of a header** end a frame that has no more, or one with a
header at fault. Else the bytes behind them are taken for the rest of it. -/
theorem absorb_header (hread : a.headerRead = false) (h : a.missing ≤ bs.length) :
    c.absorb s a bs =
      match c.announced s (a.arrived ++ bs.take a.missing) with
      | .error fault => (.done (.error fault), bs.drop a.missing)
      | .ok total =>
        if total ≤ s.fixedSize then
          (.done (c.decodeFrame s (a.arrived ++ bs.take a.missing)), bs.drop a.missing)
        else if (bs.drop a.missing).isEmpty then
          (.more (opened s (a.add (bs.take a.missing)) total), [])
        else
          c.absorb s (opened s (a.add (bs.take a.missing)) total) (bs.drop a.missing) := by
  rw [absorb, accept]
  simp only [missing_add_take h, if_false, headerRead_add, hread, Bool.false_eq_true,
    Assembly.arrived_add]
  cases c.announced s (a.arrived ++ bs.take a.missing) with
  | error fault => rfl
  | ok total =>
    by_cases htotal : total ≤ s.fixedSize
    · simp only [if_pos htotal]
    · simp only [if_neg htotal]
      by_cases hempty : (bs.drop a.missing).isEmpty
      · simp only [if_pos hempty]
        rfl
      · simp only [if_neg hempty]
        exact (absorb_eq_accept rfl).symm

/-- How a reading goes on once a piece was offered to its assembly. -/
def resume (c : Codec) (s : Schema) (rest : List Delivery) :
    Arrival × Bytes → Except CodecError Decoded × List Delivery
  | (.done result, left) => (result, if left.isEmpty then rest else .bytes left :: rest)
  | (.more b, _) => c.readFrame s b rest

/-- A piece with bytes is offered to the assembly. -/
theorem readFrame_bytes (hne : bs ≠ []) :
    c.readFrame s a (.bytes bs :: rest) = c.resume s rest (c.absorb s a bs) := by
  have hempty : ¬ bs.isEmpty = true := mt List.isEmpty_iff.mp hne
  rw [readFrame, if_neg hempty]
  rcases c.absorb s a bs with ⟨_ | _, left⟩ <;> rfl

/-! ## All pieces -/

/-- An assembly knows how many bytes it misses: to the end of the header, or to
the end of the frame that the header announced. -/
inductive Expects (c : Codec) (s : Schema) (a : Assembly) : Prop where
  | header : a.headerRead = false → 0 < a.missing →
      a.arrived.length + a.missing = s.fixedSize → Expects c s a
  | body {total : ℕ} : a.headerRead = true → 0 < a.missing →
      a.arrived.length + a.missing = total → s.fixedSize ≤ a.arrived.length →
        c.announced s (a.arrived.take s.fixedSize) = .ok total → Expects c s a

/-- What an assembly has is no frame yet. -/
theorem Expects.front (h : c.Expects s a) : c.front s a.arrived = .short := by
  rw [front_eq_short_iff]
  rcases h with ⟨-, hpos, hlen⟩ | ⟨-, hpos, hlen, -, hann⟩
  · exact .inl (by omega)
  · exact .inr ⟨_, hann, by omega⟩

/-- **What the end of the stream means** to an assembly. -/
theorem Expects.ended (h : c.Expects s a) : a.ended =
    if a.arrived = [] then .closed else .truncated (c.wanted s a.arrived) a.arrived.length := by
  have hcount : a.reversed.length = a.arrived.length := by simp [Assembly.arrived]
  have hwanted : c.wanted s a.arrived = a.arrived.length + a.missing := by
    rw [wanted]
    rcases h with ⟨-, hpos, hlen⟩ | ⟨-, hpos, hlen, hfixed, hann⟩
    · rw [if_pos (by omega), hlen]
    · rw [if_neg (by omega), hann, hlen]
  simp only [Assembly.ended, hcount, hwanted, List.length_eq_zero_iff]

/-- Fewer bytes than it misses leave an assembly expecting the rest. -/
theorem Expects.add (h : c.Expects s a) (hlt : bs.length < a.missing) :
    c.Expects s (a.add bs) := by
  have hmissing := missing_add a bs
  have hlen : (a.add bs).arrived.length = a.arrived.length + bs.length := by simp
  rcases h with ⟨hread, -, htotal⟩ | ⟨hread, -, htotal, hfixed, hann⟩
  · exact .header hread (by omega) (by omega)
  · rw [← List.take_append_of_le_length hfixed, ← Assembly.arrived_add] at hann
    exact .body hread (by omega) (by omega) (by omega) hann

/-- **A header that announces more** leaves the assembly expecting the rest. -/
theorem expects_opened (hlen : a.arrived.length = s.fixedSize)
    (hann : c.announced s a.arrived = .ok total) (hmore : s.fixedSize < total) :
    c.Expects s (opened s a total) := by
  have hmissing : (opened s a total).missing = total - s.fixedSize := rfl
  have harrived : (opened s a total).arrived = a.arrived := rfl
  refine .body rfl (by omega) (?_ : _ = total) (by rw [harrived]; omega) ?_
  · rw [harrived]
    omega
  · rwa [harrived, List.take_of_length_le (by omega)]

/-- A frame that has arrived is what is to be read off the stream. -/
theorem reads_frame {frame left : Bytes} (hfront : c.front s frame = .frame frame.length)
    (hflows : Delivery.Flows rest) :
    c.Reads s (frame ++ (left ++ Delivery.unread rest))
      (c.decodeFrame s frame, if left.isEmpty then rest else .bytes left :: rest) := by
  have hwhole : c.front s (frame ++ (left ++ Delivery.unread rest)) = .frame frame.length := by
    rw [front_append (by simp [hfront]), hfront]
  refine ⟨?_, ?_, hflows.putBack⟩
  · simp [readOff, hwhole]
  · rw [Delivery.unread_putBack]
    simp [readOff, hwhole]

/-- So is the fault of a header that has arrived. -/
theorem reads_fault {head left : Bytes} (hlen : head.length = s.fixedSize)
    (hfront : c.front s head = .broken fault) (hflows : Delivery.Flows rest) :
    c.Reads s (head ++ (left ++ Delivery.unread rest))
      (.error fault, if left.isEmpty then rest else .bytes left :: rest) := by
  have hwhole : c.front s (head ++ (left ++ Delivery.unread rest)) = .broken fault := by
    rw [front_append (by simp [hfront]), hfront]
  refine ⟨?_, ?_, hflows.putBack⟩
  · simp [readOff, hwhole]
  · rw [Delivery.unread_putBack]
    simp [readOff, hwhole, ← hlen]

/-- A piece is added to an assembly whose header is there. -/
theorem reads_piece (h : c.Expects s a) (hread : a.headerRead = true) (hne : bs ≠ [])
    (hflows : Delivery.Flows rest)
    (later : ∀ b, c.Expects s b →
      c.Reads s (b.arrived ++ Delivery.unread rest) (c.readFrame s b rest)) :
    c.Reads s (a.arrived ++ (bs ++ Delivery.unread rest))
      (c.readFrame s a (.bytes bs :: rest)) := by
  rw [readFrame_bytes hne]
  rcases Nat.lt_or_ge bs.length a.missing with hlt | hge
  · have := later _ (h.add hlt)
    rw [absorb_of_lt hlt]
    rwa [Assembly.arrived_add, List.append_assoc] at this
  · rcases h with ⟨hnot, -, -⟩ | ⟨-, hpos, htotal, hfixed, hann⟩
    · simp [hread] at hnot
    rw [absorb_body hread hge, ← List.take_append_drop a.missing bs, List.append_assoc,
      ← List.append_assoc a.arrived, List.take_append_drop]
    have hlen : (a.arrived ++ bs.take a.missing).length = a.arrived.length + a.missing := by
      rw [List.length_append, List.length_take]
      omega
    refine reads_frame ?_ hflows
    rw [front_eq_frame_iff, List.take_append_of_le_length hfixed, hann, hlen, htotal]
    exact ⟨by omega, Nat.le_refl _, rfl⟩

/-- **An assembly that expects more gets it off the stream**, piece by piece. -/
theorem reads_readFrame (h : c.Expects s a) (hflows : Delivery.Flows ds) :
    c.Reads s (a.arrived ++ Delivery.unread ds) (c.readFrame s a ds) := by
  induction ds generalizing a with
  | nil =>
    rw [Delivery.unread, List.append_nil]
    refine ⟨?_, ?_, hflows⟩
    · simp only [readFrame, readOff, h.front, h.ended]
    · simp only [readFrame, readOff, h.front, Delivery.unread]
  | cons d rest ih =>
    obtain ⟨bs, hne, rfl⟩ := hflows d (by simp)
    have hrest : Delivery.Flows rest := hflows.tail
    have later : ∀ b, c.Expects s b →
        c.Reads s (b.arrived ++ Delivery.unread rest) (c.readFrame s b rest) :=
      fun b hb => ih hb hrest
    rw [Delivery.unread]
    rcases h with ⟨hread, hpos, hfixed⟩ | ⟨hread, hpos, htotal, hfixed, hann⟩
    · rw [readFrame_bytes hne]
      rcases Nat.lt_or_ge bs.length a.missing with hlt | hge
      · have := later _ ((Expects.header hread hpos hfixed).add hlt)
        rw [absorb_of_lt hlt]
        rwa [Assembly.arrived_add, List.append_assoc] at this
      -- the piece ends the header
      set b := a.add (bs.take a.missing) with hb
      have harrived : a.arrived ++ bs.take a.missing = b.arrived := (Assembly.arrived_add ..).symm
      have hlen : b.arrived.length = s.fixedSize := by
        rw [← harrived, List.length_append, List.length_take]
        omega
      have hwhole : a.arrived ++ (bs ++ Delivery.unread rest) =
          b.arrived ++ (bs.drop a.missing ++ Delivery.unread rest) := by
        rw [← harrived, List.append_assoc, ← List.append_assoc (bs.take a.missing),
          List.take_append_drop]
      have htake : b.arrived.take s.fixedSize = b.arrived := List.take_of_length_le (by omega)
      rw [hwhole, absorb_header hread hge, harrived, ← hb]
      cases hann : c.announced s b.arrived with
      | error fault =>
        refine reads_fault hlen (front_eq_broken_iff.mpr ⟨by omega, ?_⟩) hrest
        rwa [htake, ← announced_eq_error_iff]
      | ok total =>
        by_cases hmore : total ≤ s.fixedSize
        · obtain ⟨n, -, -, htotal⟩ := announced_eq_ok_iff.mp hann
          simp only [if_pos hmore]
          refine reads_frame (front_eq_frame_iff.mpr ⟨by omega, Nat.le_refl _, ?_⟩) hrest
          rw [htake, hann, hlen]
          exact congrArg Except.ok (by omega)
        · have hopened := expects_opened hlen hann (by omega)
          simp only [if_neg hmore]
          by_cases hempty : (bs.drop a.missing).isEmpty
          · rw [if_pos hempty, List.isEmpty_iff.mp hempty]
            exact later _ hopened
          · have hleft : bs.drop a.missing ≠ [] := mt List.isEmpty_iff.mpr hempty
            rw [if_neg hempty, ← readFrame_bytes hleft]
            exact reads_piece hopened rfl hleft hrest later
    · exact reads_piece (.body hread hpos htotal hfixed hann) hread hne hrest later

/-- **Reading a frame off a stream** comes to what is to be read off its bytes,
however they are cut into pieces. -/
theorem reads_start (hpos : 0 < s.fixedSize) (hflows : Delivery.Flows ds) :
    c.Reads s (Delivery.unread ds) (c.readFrame s (.start s) ds) := by
  have hstart : c.Expects s (.start s) := .header rfl hpos (by simp [Assembly.start, Assembly.arrived])
  simpa [Assembly.start, Assembly.arrived] using reads_readFrame hstart hflows

/-! ## Many readings -/

/-- Readings one after the other, and what the stream has left. -/
def readFrames (c : Codec) (s : Schema) :
    ℕ → List Delivery → List (Except CodecError Decoded) × List Delivery
  | 0, ds => ([], ds)
  | k + 1, ds =>
    let (result, ds) := c.readFrame s (.start s) ds
    let (results, ds) := c.readFrames s k ds
    (result :: results, ds)

/-- **However the bytes are cut into pieces**, the readings come to the same. -/
theorem readFrames_eq_of_unread (hpos : 0 < s.fixedSize) {ds es : List Delivery}
    (hds : Delivery.Flows ds) (hes : Delivery.Flows es)
    (hsame : Delivery.unread ds = Delivery.unread es) (k : ℕ) :
    (c.readFrames s k ds).1 = (c.readFrames s k es).1 ∧
      Delivery.unread (c.readFrames s k ds).2 = Delivery.unread (c.readFrames s k es).2 := by
  induction k generalizing ds es with
  | zero => exact ⟨rfl, hsame⟩
  | succ k ih =>
    have one := reads_start (c := c) hpos hds
    have other := reads_start (c := c) hpos hes
    obtain ⟨hresults, hleft⟩ := ih one.flows other.flows (by rw [one.unread, other.unread, hsame])
    refine ⟨?_, hleft⟩
    simp only [readFrames, one.result, other.result, hsame, hresults]

/-! ## In sync -/

/-- **Reading frames off a stream keeps in step with its bytes**, as taking them
off a buffer does. -/
structure StreamInSync (c : Codec) (s : Schema) : Prop where
  /-- What a buffer with all bytes of the stream would answer is what the reading
  comes to, unless the buffer would wait. -/
  agrees : ∀ ds, Delivery.Flows ds → (c.decodeNext s (Delivery.unread ds)).1 ≠ .ok none →
    (c.readFrame s (.start s) ds).1.map some = (c.decodeNext s (Delivery.unread ds)).1
  /-- Of a frame exactly its bytes are read, whatever is in them. -/
  takes : ∀ ds, Delivery.Flows ds → c.Takes s (Delivery.unread ds) →
    Delivery.unread (c.readFrame s (.start s) ds).2 = (c.decodeNext s (Delivery.unread ds)).2
  /-- Of a header at fault exactly its own bytes are read. -/
  refuses : ∀ ds, Delivery.Flows ds → c.Refuses s (Delivery.unread ds) →
    Delivery.unread (c.readFrame s (.start s) ds).2 = (Delivery.unread ds).drop s.fixedSize
  /-- A buffer waits for the rest of a header, or for what the header announced. -/
  waits : ∀ b, c.Waits s b → b.length < s.fixedSize ∨
    ∃ n, c.Announces s (b.take s.fixedSize) n ∧ c.Admits s n ∧ b.length < s.fixedSize + n
  /-- A stream without bytes was closed. -/
  closed : ∀ ds, Delivery.Flows ds → Delivery.unread ds = [] →
    c.readFrame s (.start s) ds = (.error .closed, [])
  /-- A stream that ends within a header lacks bytes of the header. -/
  header : ∀ ds, Delivery.Flows ds → Delivery.unread ds ≠ [] →
    (Delivery.unread ds).length < s.fixedSize →
      c.readFrame s (.start s) ds =
        (.error (.truncated s.fixedSize (Delivery.unread ds).length), [])
  /-- A stream that ends behind a header lacks bytes that the header announced. -/
  body : ∀ ds n, Delivery.Flows ds → s.fixedSize ≤ (Delivery.unread ds).length →
    c.Announces s ((Delivery.unread ds).take s.fixedSize) n → c.Admits s n →
    (Delivery.unread ds).length < s.fixedSize + n →
      c.readFrame s (.start s) ds =
        (.error (.truncated (s.fixedSize + n) (Delivery.unread ds).length), [])
  /-- What is left is a stream again, and readings one after the other come to
  the same for the same bytes, however these are cut into pieces. -/
  again : ∀ ds es k, Delivery.Flows ds → Delivery.Flows es →
    Delivery.unread ds = Delivery.unread es →
      Delivery.Flows (c.readFrame s (.start s) ds).2 ∧
      (c.readFrames s k ds).1 = (c.readFrames s k es).1 ∧
      Delivery.unread (c.readFrames s k ds).2 = Delivery.unread (c.readFrames s k es).2

/-- A buffer off which a frame is taken begins with one. -/
theorem front_of_takes (hpos : 0 < s.fixedSize) (h : c.Takes s stream) :
    ∃ total, c.front s stream = .frame total := by
  obtain ⟨-, -, hwaits, hrefuses⟩ := waits_refuses_takes (c := c) hpos stream
  cases hfront : c.front s stream with
  | short => exact absurd ⟨waits_of_front hfront, h⟩ hwaits
  | broken fault => exact absurd ⟨refuses_of_front hfront, h⟩ hrefuses
  | frame total => exact ⟨total, rfl⟩

/-- A buffer that waits begins with less than a frame. -/
theorem front_of_waits (hpos : 0 < s.fixedSize) (h : c.Waits s stream) :
    c.front s stream = .short := by
  obtain ⟨-, hrefuses, htakes, -⟩ := waits_refuses_takes (c := c) hpos stream
  cases hfront : c.front s stream with
  | short => rfl
  | broken fault => exact absurd ⟨h, refuses_of_front hfront⟩ hrefuses
  | frame total => exact absurd ⟨h, takes_of_front hfront⟩ htakes

/-- **A stream that ends too early** is read to its end, for nothing. -/
theorem readFrame_of_short (hpos : 0 < s.fixedSize) (hflows : Delivery.Flows ds)
    (hfront : c.front s (Delivery.unread ds) = .short) :
    c.readFrame s (.start s) ds =
      (.error (if Delivery.unread ds = [] then .closed
        else .truncated (c.wanted s (Delivery.unread ds)) (Delivery.unread ds).length), []) := by
  have reads := reads_start (c := c) hpos hflows
  have hresult := reads.result
  have hunread := reads.unread
  simp only [readOff, hfront] at hresult hunread
  exact Prod.ext hresult (reads.flows.eq_nil hunread)

/-- **Every codec is in sync with streams of frames of a schema that it can
read.** -/
theorem streamInSync_of_prepareDecoder (prepared : c.prepareDecoder l = .ok s) :
    c.StreamInSync s := by
  have hpos : 0 < s.fixedSize := Schema.fixedSize_pos_of_ofLayout (prepareDecoder_ok prepared).1
  have reads := fun ds (h : Delivery.Flows ds) => reads_start (c := c) hpos h
  exact {
    agrees := by
      intro ds hflows hanswer
      rw [(reads ds hflows).result, readOff]
      rw [decodeNext_eq] at hanswer ⊢
      cases hfront : c.front s (Delivery.unread ds) with
      | short => simp [hfront] at hanswer
      | broken fault => rfl
      | frame total => rfl
    takes := by
      intro ds hflows htakes
      obtain ⟨total, hfront⟩ := front_of_takes hpos htakes
      rw [(reads ds hflows).unread, readOff, decodeNext_eq, hfront]
    refuses := by
      rintro ds hflows ⟨fault, hlen, hfault, -⟩
      rw [(reads ds hflows).unread, readOff, front_eq_broken_iff.mpr ⟨hlen, hfault⟩]
    waits := by
      intro b hwaits
      rcases front_eq_short_iff.mp (front_of_waits hpos hwaits) with hlen | ⟨total, hann, hlen⟩
      · exact .inl hlen
      · obtain ⟨n, hn, hadmits, rfl⟩ := announced_eq_ok_iff.mp hann
        exact .inr ⟨n, hn, hadmits, hlen⟩
    closed := by
      intro ds hflows hnone
      obtain rfl := hflows.eq_nil hnone
      rfl
    header := by
      intro ds hflows hsome hlen
      rw [readFrame_of_short hpos hflows (front_eq_short_iff.mpr (.inl hlen)), if_neg hsome,
        wanted, if_pos hlen]
    body := by
      intro ds n hflows hlen hn hadmits hshort
      have hann := announced_eq_ok_iff.mpr ⟨n, hn, hadmits, rfl⟩
      have hfront := front_eq_short_iff.mpr (.inr ⟨_, hann, hshort⟩)
      have hsome : Delivery.unread ds ≠ [] := List.ne_nil_of_length_pos (by omega)
      rw [readFrame_of_short hpos hflows hfront, if_neg hsome, wanted, if_neg (by omega), hann]
    again := fun ds es k hds hes hsame =>
      ⟨(reads ds hds).flows, readFrames_eq_of_unread hpos hds hes hsame k⟩ }

end Codec

end FramedDuplex

namespace FramedDuplex.Codec

/-- Readings of a stream of parcels, the first with a box of another size than
the box says and the last one cut short, come to the same when its pieces end
elsewhere. -/
theorem streamInSync_parcels :
    standard.prepareDecoder parcelLayout = .ok parcelSchema ∧
      (standard.readFrames parcelSchema 4
          [.bytes [7, 3, 65, 66, 9, 8, 2, 67, 1, 9], .bytes [2, 0]]).1.map (·.map (·.key)) =
        [.error (.frameLength 10 3), .ok (.of ⟨.scalar (.int ⟨.w8, false⟩), 8#8⟩),
          .error (.truncated 4 3), .error .closed] ∧
      (standard.readFrames parcelSchema 4
          [.bytes [7], .bytes [3, 65], .bytes [66, 9, 8, 2, 67], .bytes [1, 9, 2, 0]]).1 =
        (standard.readFrames parcelSchema 4
          [.bytes [7, 3, 65, 66, 9, 8, 2, 67, 1, 9], .bytes [2, 0]]).1 := by
  have flows (pieces : List Bytes) (h : ∀ bs ∈ pieces, bs ≠ []) :
      Delivery.Flows (pieces.map .bytes) := by
    intro d hd
    obtain ⟨bs, hbs, rfl⟩ := List.mem_map.mp hd
    exact ⟨bs, h bs hbs, rfl⟩
  have one := flows [[7], [3, 65], [66, 9, 8, 2, 67], [1, 9, 2, 0]] (by decide)
  have other := flows [[7, 3, 65, 66, 9, 8, 2, 67, 1, 9], [2, 0]] (by decide)
  exact ⟨prepareDecoder_parcel, by cbv,
    ((streamInSync_of_prepareDecoder prepareDecoder_parcel).again _ _ 4 one other rfl).2.1⟩

end FramedDuplex.Codec
