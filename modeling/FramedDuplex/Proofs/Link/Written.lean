import FramedDuplex.Proofs.Link.Ended
import Mathlib.Data.List.Infix
/-!
# What is on the wire

Every frame that comes into the send queue goes to the wire in its turn, unless
the writer stops before. At every moment the frames that were queued are those
that are written, then one of which a part may be written, then those that are
not (`Link.Carries`); the counters count the first. So what is on the wire is a
beginning of the frames one after the other (`Link.OnWire`), wherever the writer
was cut off.
-/

namespace FramedDuplex

/-- The bytes of frames, one frame after the other. -/
def bytesOf (parcels : List Parcel) : Bytes := parcels.flatMap (·.bytes)

theorem bytesOf_append (p q : List Parcel) : bytesOf (p ++ q) = bytesOf p ++ bytesOf q :=
  List.flatMap_append

@[simp] theorem bytesOf_singleton (p : Parcel) : bytesOf [p] = p.bytes := by simp [bytesOf]

namespace Outbox

variable {o : Outbox} {sender : ℕ} {p : Parcel}

@[simp] theorem queue_free (o : Outbox) : o.free.queue = o.queue := by
  unfold free
  split <;> rfl

/-- **Taking loses no frame.** -/
theorem take_append_queue (o : Outbox) (limit : ℕ) :
    (o.take limit).1 ++ (o.take limit).2.queue = o.queue := by
  have hfold : ∀ (taken : List Parcel) (o : Outbox),
      (taken.foldl (fun o _ => o.free) o).queue = o.queue := by
    intro taken
    induction taken with
    | nil => exact fun _ => rfl
    | cons p rest ih => exact fun o => (ih o.free).trans (queue_free o)
  have hqueue : (o.take limit).2.queue = o.queue.drop limit := hfold ..
  rw [hqueue]
  exact List.take_append_drop ..

theorem queue_abandon (o : Outbox) (sender : ℕ) : (o.abandon sender).queue = o.queue := by
  unfold abandon
  split
  · rw [queue_free]
    rfl
  · rfl

theorem closed_abandon (o : Outbox) (sender : ℕ) : (o.abandon sender).closed = o.closed := by
  unfold abandon
  split
  · rw [Link.closed_free]
    rfl
  · rfl

/-- What becomes of a queue that a frame is brought to: an open one has the frame
as its last, or nothing comes in. -/
theorem brought_offer (o : Outbox) (sender : ℕ) (p : Parcel) :
    (o.offer sender p).2.closed = o.closed ∧
      ((o.offer sender p).1 = .queued ∧ o.closed = false ∧
          (o.offer sender p).2.queue = o.queue ++ [p] ∨
        (o.offer sender p).1 ≠ .queued ∧ (o.offer sender p).2.queue = o.queue) := by
  unfold offer
  cases hclosed : o.closed with
  | true => simp [hclosed]
  | false =>
    obtain ⟨queue, room, waiting, closed⟩ := o
    cases room with
    | none => simp_all
    | some n => cases n <;> simp_all

theorem brought_retry (o : Outbox) (sender : ℕ) (p : Parcel) :
    (o.retry sender p).2.closed = o.closed ∧
      ((o.retry sender p).1 = .queued ∧ o.closed = false ∧
          (o.retry sender p).2.queue = o.queue ++ [p] ∨
        (o.retry sender p).1 ≠ .queued ∧ (o.retry sender p).2.queue = o.queue) := by
  unfold retry
  cases hclosed : o.closed with
  | true => simp [forget, hclosed]
  | false =>
    cases o.hasRoom sender with
    | true => simp [forget, hclosed]
    | false => simp [hclosed]

end Outbox

variable [OwnTypes]

namespace Link

variable {l l' : Link} {d : Deed} {done pending queued : List Parcel} {part : Bytes}

/-- The frames that a deed puts into the send queue. -/
def enqueues (l : Link) : Deed → List Parcel
  | .offer sender p => if (l.outbox.offer sender p).1 = .queued then [p] else []
  | .retry sender p => if (l.outbox.retry sender p).1 = .queued then [p] else []
  | _ => []

/-- **What is on the wire** of frames that were queued: `n` of them are complete
and counted, and of the next one there may be a part. -/
structure OnWire (l : Link) (queued : List Parcel) (n : ℕ) (part : Bytes) : Prop where
  whole : n ≤ queued.length
  written : l.wire.written = bytesOf (queued.take n) ++ part
  /-- A part of a frame is not the frame. -/
  part : part = [] ∨ ∃ p left, queued[n]? = some p ∧ p.bytes = part ++ left ∧ left ≠ []
  framesSent : l.counters.framesSent = UInt64.ofNat n
  bytesWritten : l.counters.bytesWritten = UInt64.ofNat (bytesOf (queued.take n)).length
  inOrder : l.wire.written <+: bytesOf queued

/-! ## Where the writer is -/

/-- The frames that the writer has before it, and the part of the first one that
is written. A writer that has stopped leaves them where they are. -/
inductive Place (l : Link) : List Parcel → Bytes → Prop where
  | between : l.writer = .idle ∨ l.writer = .flushing → l.outbox.closed = false →
      Place l l.outbox.queue []
  | within {left part : Bytes} {p : Parcel} {rest : List Parcel} : l.writer = .writing left p rest →
      l.outbox.closed = false → p.bytes = part ++ left → part = [] ∨ left ≠ [] →
        Place l (p :: rest ++ l.outbox.queue) part
  | stopped {pending : List Parcel} {part : Bytes} : l.writer = .stopped →
      l.outbox.closed = true →
        part = [] ∨ (∃ p rest left, pending = p :: rest ∧ p.bytes = part ++ left ∧ left ≠ []) →
          Place l pending part

/-- Of what was queued the frames `done` are written and counted, and of those
that are `pending` a part of the first. -/
structure Carries (l : Link) (done pending : List Parcel) (part : Bytes) : Prop where
  place : l.Place pending part
  written : l.wire.written = bytesOf done ++ part
  framesSent : l.counters.framesSent = UInt64.ofNat done.length
  bytesWritten : l.counters.bytesWritten = UInt64.ofNat (bytesOf done).length

/-- A writer at the beginning of a frame. -/
theorem Place.fresh {p : Parcel} {rest : List Parcel} (hwriter : l.writer = .writing p.bytes p rest)
    (hopen : l.outbox.closed = false) : l.Place (p :: rest ++ l.outbox.queue) [] := by
  have hbytes : p.bytes = [] ++ p.bytes := rfl
  exact .within hwriter hopen hbytes (.inl rfl)

/-- A part of the first frame that is pending is not all of it. -/
theorem Place.part_cases (h : l.Place pending part) :
    part = [] ∨ ∃ p rest left, pending = p :: rest ∧ p.bytes = part ++ left ∧ left ≠ [] := by
  cases h with
  | between hwriter hopen => exact .inl rfl
  | @within left _ p rest hwriter hopen hbytes hpart =>
    rcases hpart with hnone | hleft
    · exact .inl hnone
    · exact .inr ⟨p, rest ++ l.outbox.queue, left, rfl, hbytes, hleft⟩
  | stopped hwriter hclosed hpart => exact hpart

theorem Carries.onWire (h : l.Carries done pending part) :
    l.OnWire (done ++ pending) done.length part where
  whole := by simp
  written := by rw [List.take_left]; exact h.written
  part := by
    rcases h.place.part_cases with hnone | ⟨p, rest, left, rfl, hbytes, hleft⟩
    · exact .inl hnone
    · exact .inr ⟨p, left, by simp, hbytes, hleft⟩
  framesSent := h.framesSent
  bytesWritten := by rw [List.take_left]; exact h.bytesWritten
  inOrder := by
    rw [h.written, bytesOf_append]
    refine List.prefix_append_right_inj _ |>.mpr ?_
    rcases h.place.part_cases with rfl | ⟨p, rest, left, rfl, hbytes, -⟩
    · exact List.nil_prefix
    · refine ⟨left ++ bytesOf rest, ?_⟩
      rw [← List.append_assoc, ← hbytes]
      rfl

theorem carries_new (config : LinkConfig) (codec : Codec) (schema : Schema) :
    (new config codec schema).Carries [] [] [] where
  place := .between (.inl rfl) rfl
  written := rfl
  framesSent := rfl
  bytesWritten := rfl

/-! ## Deeds that have nothing to do with writing -/

/-- What the writer goes by is the same. -/
structure SameWriting (l l' : Link) : Prop where
  writer : l'.writer = l.writer
  queue : l'.outbox.queue = l.outbox.queue
  closed : l'.outbox.closed = l.outbox.closed
  written : l'.wire.written = l.wire.written
  framesSent : l'.counters.framesSent = l.counters.framesSent
  bytesWritten : l'.counters.bytesWritten = l.counters.bytesWritten

theorem Carries.of_same (h : l.Carries done pending part) (hsame : l.SameWriting l') :
    l'.Carries done pending part where
  place := by
    cases h.place with
    | between hwriter hopen =>
      rw [← hsame.queue]
      exact .between (hsame.writer ▸ hwriter) (hsame.closed.trans hopen)
    | within hwriter hopen hbytes hpart =>
      rw [← hsame.queue]
      exact .within (hsame.writer.trans hwriter) (hsame.closed.trans hopen) hbytes hpart
    | stopped hwriter hclosed hpart =>
      exact .stopped (hsame.writer.trans hwriter) (hsame.closed.trans hclosed) hpart
  written := hsame.written.trans h.written
  framesSent := hsame.framesSent.trans h.framesSent
  bytesWritten := hsame.bytesWritten.trans h.bytesWritten

theorem SameWriting.refl (l : Link) : l.SameWriting l := ⟨rfl, rfl, rfl, rfl, rfl, rfl⟩

theorem Aside.sameWriting (h : l.Aside l') : l.SameWriting l' :=
  ⟨h.writer, by rw [h.outbox], by rw [h.outbox], h.written, h.framesSent, h.bytesWritten⟩

/-! ## What the writer does -/

/-- **A writer that stops** leaves what it has before it, and the part that it
has written. -/
theorem Carries.stop (h : l.Carries done pending part) (hwriter : l'.writer = .stopped)
    (hclosed : l'.outbox.closed = true) (hwritten : l'.wire.written = l.wire.written)
    (hcounters : l'.counters = l.counters) : l'.Carries done pending part where
  place := .stopped hwriter hclosed h.place.part_cases
  written := hwritten.trans h.written
  framesSent := by rw [hcounters]; exact h.framesSent
  bytesWritten := by rw [hcounters]; exact h.bytesWritten

/-- A frame that is written to its end is one more that is done. -/
theorem Carries.countSent {left : Bytes} {first : Parcel} {rest : List Parcel} {wire : Wire}
    (h : l.Carries done (first :: rest ++ l.outbox.queue) part) (hopen : l.outbox.closed = false)
    (hbytes : first.bytes = part ++ left) (hwritten : wire.written = l.wire.written ++ left) :
    ({ ({ l with wire }.countSent first) with writer := startFrame rest } : Link).Carries
      (done ++ [first]) (rest ++ l.outbox.queue) [] where
  place := by
    cases rest with
    | nil => exact .between (.inr rfl) hopen
    | cons p rest => exact .fresh rfl hopen
  written := by
    show wire.written = _
    rw [hwritten, h.written, bytesOf_append, bytesOf_singleton, hbytes]
    simp
  framesSent := by
    show l.counters.framesSent + 1 = _
    rw [h.framesSent, List.length_append, UInt64.ofNat_add]
    rfl
  bytesWritten := by
    show l.counters.bytesWritten + UInt64.ofNat first.bytes.length = _
    rw [h.bytesWritten, bytesOf_append, bytesOf_singleton, List.length_append, UInt64.ofNat_add]

/-- **A step of the writer** writes on what it has before it. -/
theorem Carries.write (h : l.Carries done pending part) (hwrites : l.Writes l') :
    ∃ done' pending' part', l'.Carries done' pending' part' ∧
      done' ++ pending' = done ++ pending := by
  cases hwrites with
  | stop hbroken => exact ⟨done, pending, part, h.stop rfl rfl rfl rfl, rfl⟩
  | fail hfault =>
    refine ⟨done, pending, part, h.stop rfl rfl ?_ ?_, rfl⟩
    · exact ((Aside.refl l).breakOff _).written
    · show (l.breakOff _).counters = l.counters
      rw [breakOff_eq]
  | @take first rest outbox hbroken hwriter htake =>
    cases h.place with
    | between _ hopen =>
      have hqueue := Outbox.take_append_queue l.outbox batchLimit
      have hclosed := closed_take l.outbox batchLimit
      rw [htake] at hqueue hclosed
      refine ⟨done, l.outbox.queue, [], ⟨?_, h.written, h.framesSent, h.bytesWritten⟩, rfl⟩
      rw [← hqueue]
      exact .fresh rfl (hclosed.trans hopen)
    | within hwriting | stopped hwriting => simp [hwriter] at hwriting
  | @part left first rest count wire hbroken hwriter hwrite hcount =>
    cases h.place with
    | @within _ _ _ _ hwriting hopen hbytes hpart =>
      obtain ⟨rfl, rfl, rfl⟩ := Writer.writing.inj (hwriter.symm.trans hwriting)
      have hwritten := Wire.written_of_write_eq_accepted hwrite
      refine ⟨done, _, part ++ left.take count, ⟨?_, ?_, h.framesSent, h.bytesWritten⟩, rfl⟩
      · have hsplit : first.bytes = (part ++ left.take count) ++ left.drop count := by
          rw [List.append_assoc, List.take_append_drop]
          exact hbytes
        exact .within rfl hopen hsplit (.inr (by simpa using hcount))
      · rw [hwritten, h.written, List.append_assoc]
    | between hwriting => simp [hwriter] at hwriting
    | stopped hwriting => simp [hwriter] at hwriting
  | @whole left first rest count wire hbroken hwriter hwrite hcount =>
    cases h.place with
    | @within _ _ _ _ hwriting hopen hbytes hpart =>
      obtain ⟨rfl, rfl, rfl⟩ := Writer.writing.inj (hwriter.symm.trans hwriting)
      have hwritten := Wire.written_of_write_eq_accepted hwrite
      rw [List.take_of_length_le (by omega)] at hwritten
      exact ⟨done ++ [first], rest ++ l.outbox.queue, [], h.countSent hopen hbytes hwritten, by simp⟩
    | between hwriting => simp [hwriter] at hwriting
    | stopped hwriting => simp [hwriter] at hwriting
  | flush hwriter =>
    cases h.place with
    | between _ hopen =>
      exact ⟨done, l.outbox.queue, [],
        ⟨.between (.inl rfl) hopen, h.written, h.framesSent, h.bytesWritten⟩, rfl⟩
    | within hwriting | stopped hwriting => simp [hwriter] at hwriting

/-- **A frame that is queued** is the last one that is pending. -/
theorem Carries.queue {outbox : Outbox} {p : Parcel} (h : l.Carries done pending part)
    (hopen : l.outbox.closed = false) (hclosed : outbox.closed = l.outbox.closed)
    (hqueue : outbox.queue = l.outbox.queue ++ [p]) :
    ({ l with outbox } : Link).Carries done (pending ++ [p]) part := by
  refine ⟨?_, h.written, h.framesSent, h.bytesWritten⟩
  cases h.place with
  | between hwriter _ =>
    rw [← hqueue]
    exact .between hwriter (hclosed.trans hopen)
  | @within left _ first rest hwriter _ hbytes hpart =>
    rw [List.append_assoc, ← hqueue]
    exact .within hwriter (hclosed.trans hopen) hbytes hpart
  | stopped hwriter hover => simp [hopen] at hover

/-- A frame is brought to the queue, by a deed that does nothing else. -/
theorem Carries.brought {entry : Outbox.Entry} {outbox : Outbox} {p : Parcel}
    (h : l.Carries done pending part) (hclosed : outbox.closed = l.outbox.closed)
    (hcame : entry = .queued ∧ l.outbox.closed = false ∧ outbox.queue = l.outbox.queue ++ [p] ∨
      entry ≠ .queued ∧ outbox.queue = l.outbox.queue) :
    ∃ done' pending' part', ({ l with outbox } : Link).Carries done' pending' part' ∧
      done' ++ pending' = done ++ pending ++ if entry = .queued then [p] else [] := by
  rcases hcame with ⟨hentry, hopen, hqueue⟩ | ⟨hentry, hqueue⟩
  · exact ⟨done, pending ++ [p], part, h.queue hopen hclosed hqueue, by simp [hentry]⟩
  · have hsame : l.SameWriting { l with outbox } := ⟨rfl, hqueue, hclosed, rfl, rfl, rfl⟩
    exact ⟨done, pending, part, h.of_same hsame, by simp [hentry]⟩

/-- **Every deed keeps the frames in order**, and adds those that it queues. -/
theorem Carries.perform (h : l.Carries done pending part) (d : Deed) :
    ∃ done' pending' part', (l.perform d).Carries done' pending' part' ∧
      done' ++ pending' = done ++ pending ++ l.enqueues d := by
  have keep : ∀ {l' : Link}, l.SameWriting l' → ∃ done' pending' part',
      l'.Carries done' pending' part' ∧ done' ++ pending' = done ++ pending ++ [] :=
    fun hsame => ⟨done, pending, part, h.of_same hsame, (List.append_nil _).symm⟩
  cases d with
  | write =>
    rcases perform_write l with hsame | hwrites
    · rw [hsame]
      exact keep (.refl l)
    · simpa [enqueues] using h.write hwrites
  | read => exact keep (aside_read l).sameWriting
  | decode => exact keep (aside_decode l).sameWriting
  | turn =>
    rw [Link.perform, refresh_eq]
    exact keep ⟨rfl, rfl, rfl, rfl, rfl, rfl⟩
  | quit => exact keep ((Aside.refl l).breakOff _).sameWriting
  | abort =>
    rw [Link.perform]
    split
    · refine ⟨done, pending, part, h.stop ?_ ?_ ?_ ?_, (List.append_nil _).symm⟩
      · rw [abort_eq]
      · rw [abort_eq]
        rfl
      · rw [abort_eq]
      · rw [abort_eq]
    · exact keep (.refl l)
  | meet event => exact keep ⟨rfl, rfl, rfl, written_meet .., rfl, rfl⟩
  | act now deadline move => exact keep ⟨rfl, rfl, rfl, rfl, rfl, rfl⟩
  | acquire capacities => exact keep ⟨rfl, rfl, rfl, rfl, rfl, rfl⟩
  | release buffers => exact keep ⟨rfl, rfl, rfl, rfl, rfl, rfl⟩
  | offer sender p =>
    obtain ⟨hclosed, hcame⟩ := Outbox.brought_offer l.outbox sender p
    exact h.brought hclosed hcame
  | retry sender p =>
    obtain ⟨hclosed, hcame⟩ := Outbox.brought_retry l.outbox sender p
    exact h.brought hclosed hcame
  | abandon sender =>
    exact keep ⟨rfl, Outbox.queue_abandon .., Outbox.closed_abandon .., rfl, rfl, rfl⟩

theorem Carries.after (h : l.Carries done pending part) (journal : List Deed) :
    ∃ done' pending' part', (l.after journal).Carries done' pending' part' ∧
      done' ++ pending' = done ++ pending ++ l.account enqueues journal := by
  induction journal generalizing l done pending part with
  | nil => exact ⟨done, pending, part, h, (List.append_nil _).symm⟩
  | cons d rest ih =>
    obtain ⟨done₁, pending₁, part₁, hone, hframes₁⟩ := h.perform d
    obtain ⟨done₂, pending₂, part₂, htwo, hframes₂⟩ := ih hone
    refine ⟨done₂, pending₂, part₂, htwo, ?_⟩
    rw [hframes₂, hframes₁, account, List.append_assoc]

/-- **What is on the wire of a link** is a beginning of the frames that were
queued, in the order in which they were. -/
theorem onWire_after (config : LinkConfig) (codec : Codec) (schema : Schema)
    (journal : List Deed) :
    ∃ n part, ((new config codec schema).after journal).OnWire
      ((new config codec schema).account enqueues journal) n part := by
  obtain ⟨done, pending, part, hcarries, hframes⟩ := (carries_new config codec schema).after journal
  rw [List.append_nil, List.nil_append] at hframes
  rw [← hframes]
  exact ⟨done.length, part, hcarries.onWire⟩

/-! ## Deeds that bring no frame -/

theorem account_enqueues_of_not_brings {journal : List Deed} (l : Link)
    (h : ∀ d ∈ journal, d.brings = false) : l.account enqueues journal = [] := by
  induction journal generalizing l with
  | nil => rfl
  | cons d rest ih =>
    obtain ⟨hone, hrest⟩ := List.forall_mem_cons.mp h
    have hnone : l.enqueues d = [] := by
      cases d <;> first | rfl | simp [Deed.brings] at hone
    rw [account, hnone, ih _ hrest]
    rfl

theorem account_enqueues_of_calm {journal : List Deed} (l : Link) (h : ∀ d ∈ journal, d.Calm) :
    l.account enqueues journal = [] :=
  account_enqueues_of_not_brings l fun d hd => (h d hd).brings

end Link

end FramedDuplex
