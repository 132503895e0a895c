import FramedDuplex.Proofs.Codec.RoundTrip
import FramedDuplex.Proofs.Handles
import FramedDuplex.Proofs.Pool.InPlace
import FramedDuplex.Proofs.Pool.Limits
import Mathlib.Data.List.Flatten
/-!
# Where the buffers of a pool are

Every buffer that a pool has given out is idle again, in one caller's hands or gone
(`Ledger.Sound`), whatever the callers do. One move says it all: it moves buffers about,
drops some, and takes new ones with new serial numbers, and nothing else is anywhere
(`Ledger.Follows`). The pool stays within its limits, and every frame that is held has a
buffer for each message in it, large enough for that message.

What writing a message does to the pool is what the codec does that writes into the
buffers (`Codec.serializeIn`), and what is written does not depend on the pool. These are
the accounts of a pool (`Ledger.accounts`).
-/

namespace FramedDuplex

/-! ## One buffer for each message -/

/-- The sizes of the messages in a frame, innermost first. -/
def Frame.sizes : Frame → List ℕ
  | flat bs => [bs.length]
  | around bs inner => inner.sizes ++ [bs.length]

namespace Codec

variable [OwnTypes] {c : Codec} {frame : Frame}

/-- A header is written into one more buffer, of the size of the frame. -/
theorem acquired_of_enclose {fields : List HeaderField} {body : Bytes} {inner : Option Frame}
    {m : Message} {acquired : List ℕ}
    (h : (c.enclose fields body inner m acquired).outcome = .ok frame) :
    frame = .of frame.bytes inner ∧
      (c.enclose fields body inner m acquired).acquired = acquired ++ [frame.bytes.length] := by
  rw [enclose] at h ⊢
  cases htotal : c.frameLength (Schema.sizeOf fields) body.length with
  | error fault => simp [htotal] at h
  | ok total =>
    cases hwrite : Schema.writeLength fields body.length m with
    | error fault => simp [htotal, hwrite] at h
    | ok m' =>
      cases hhead : c.header m' fields with
      | error fault => simp [htotal, hwrite, hhead] at h
      | ok head =>
        simp only [htotal, hwrite, hhead, Except.ok.injEq] at h ⊢
        subst h
        rw [Frame.bytes_of, List.length_append, length_of_header hhead,
          frameLength_eq_of_ok htotal]
        exact ⟨rfl, rfl⟩

/-- **A frame that is written takes one buffer for each message in it**, innermost first. -/
theorem acquired_of_serialize {s : Schema} {m : Message}
    (h : (c.serialize s m).outcome = .ok frame) : (c.serialize s m).acquired = frame.sizes := by
  induction s generalizing m frame with
  | flat name fields =>
    obtain ⟨hframe, hacquired⟩ := acquired_of_enclose h
    rw [hframe]
    exact hacquired
  | withBody name fields body =>
    rw [serialize] at h ⊢
    cases hbody : c.registry.encode body.type (m.get body.name body.type) with
    | error fault => simp [hbody] at h
    | ok bs =>
      simp only [hbody] at h ⊢
      obtain ⟨hframe, hacquired⟩ := acquired_of_enclose h
      rw [hframe]
      exact hacquired
  | withMessage name fields part inner ih =>
    rw [serialize] at h ⊢
    cases hwithin : (c.serialize inner (m.part part.name)).outcome with
    | error fault => simp [hwithin] at h
    | ok within =>
      simp only [hwithin] at h ⊢
      obtain ⟨hframe, hacquired⟩ := acquired_of_enclose h
      rw [hacquired, ih hwithin, hframe]
      rfl

end Codec

namespace Ledger

variable {l l' : Ledger} {handle : ℕ}

/-! ## Where a buffer can be -/

/-- The buffers that are held, on their own or in frames. -/
def held (l : Ledger) : List Buffer :=
  l.buffers.things.map (·.buffer) ++ l.frames.things.flatMap (·.buffers)

/-- All buffers that are anywhere. -/
def all (l : Ledger) : List Buffer := l.pool.idle ++ l.held

/-- **What one move does to the buffers**: those that are anywhere were somewhere before, or
are new and have the next serial numbers. -/
structure Follows (l l' : Ledger) : Prop where
  limits : l'.pool.maxBuffers = l.pool.maxBuffers ∧ l'.pool.maxCapacity = l.pool.maxCapacity
  all : ∃ fresh : List Buffer, l'.all.Subperm (l.all ++ fresh) ∧
    fresh.map (·.serial) = List.range' l.pool.issued fresh.length ∧
    l'.pool.issued = l.pool.issued + fresh.length
  kept : l.pool.Kept → l'.pool.Kept

/-- Buffers are taken from the pool, and they are all that comes into callers' hands. -/
theorem follows_of_gives {bs : List Buffer} (h : l.pool.Gives bs l'.pool)
    (hheld : ∀ b, l'.held.count b ≤ l.held.count b + bs.count b) : l.Follows l' where
  limits := h.limits
  all := by
    obtain ⟨fresh, hperm, hserials, hissued⟩ := h.taken
    refine ⟨fresh, List.subperm_iff_count.mpr fun b => ?_, hserials, hissued⟩
    have total := hperm.count_eq b
    have more := hheld b
    simp only [List.count_append, Ledger.all] at total ⊢
    omega
  kept := fun hp => hp.of_gives h

/-- Buffers are given back to the pool, and they leave callers' hands. -/
theorem follows_of_releaseAll (bs : List Buffer) (h : l'.pool = l.pool.releaseAll bs)
    (hheld : ∀ b, l'.held.count b + bs.count b ≤ l.held.count b) : l.Follows l' where
  limits := by
    rw [h, Pool.releaseAll_eq]
    exact ⟨rfl, rfl⟩
  all := by
    refine ⟨[], List.subperm_iff_count.mpr fun b => ?_, rfl, by rw [h, Pool.releaseAll_eq]; rfl⟩
    have some : (l.pool.keeps bs).count b ≤ bs.count b :=
      ((List.take_sublist _ _).trans List.filter_sublist).count_le b
    have less := hheld b
    rw [List.append_nil, Ledger.all, Ledger.all, h, Pool.releaseAll_eq]
    simp only [List.count_append] at less ⊢
    omega
  kept := fun hp => h ▸ hp.releaseAll bs

/-- A move that leaves the pool alone takes nothing into callers' hands. -/
theorem follows_of_pool_eq (h : l'.pool = l.pool) (hheld : ∀ b, l'.held.count b ≤ l.held.count b) :
    l.Follows l' :=
  follows_of_releaseAll [] (h.trans (by rw [Pool.releaseAll_eq, Pool.keeps]; simp)) hheld

/-! ## One move -/

theorem count_buffers_erase (h : Handles HeldBuffer) (handle : ℕ) (b : Buffer) :
    ((h.erase handle).things.map (·.buffer)).count b ≤ (h.things.map (·.buffer)).count b :=
  ((h.things_erase_sublist handle).map _).count_le b

theorem count_frames_erase (h : Handles HeldFrame) (handle : ℕ) (b : Buffer) :
    ((h.erase handle).things.flatMap (·.buffers)).count b ≤
      (h.things.flatMap (·.buffers)).count b :=
  ((h.things_erase_sublist handle).flatMap _).count_le b

theorem count_buffers_of_find? {h : Handles HeldBuffer} {thing : HeldBuffer}
    (hfind : h.find? handle = some thing) (b : Buffer) :
    ((h.erase handle).things.map (·.buffer)).count b + [thing.buffer].count b ≤
      (h.things.map (·.buffer)).count b := by
  obtain ⟨mid, hperm, hsub⟩ := Handles.subperm_things_of_find? hfind
  have most := (hsub.map (·.buffer)).count_le b
  have same := (hperm.map (·.buffer)).count_eq b
  rw [List.map_append, List.count_append] at same
  exact same ▸ most

theorem count_frames_of_find? {h : Handles HeldFrame} {thing : HeldFrame}
    (hfind : h.find? handle = some thing) (b : Buffer) :
    ((h.erase handle).things.flatMap (·.buffers)).count b + thing.buffers.count b ≤
      (h.things.flatMap (·.buffers)).count b := by
  obtain ⟨mid, hperm, hsub⟩ := Handles.subperm_things_of_find? hfind
  have most := (hsub.flatMap (·.buffers)).count_le b
  have same := (hperm.flatMap_right (·.buffers)).count_eq b
  rw [List.flatMap_append, List.count_append, List.flatMap_singleton] at same
  exact same ▸ most

variable [OwnTypes] {c : Codec}

/-- **Every move only moves buffers about**, drops some and takes new ones. -/
theorem follows_step (c : Codec) (l : Ledger) (move : Move) : l.Follows (l.step c move).2 := by
  cases move with
  | acquire handle capacity =>
    refine follows_of_gives (Pool.gives_acquire l.pool capacity).1 fun b => ?_
    have fewer := count_buffers_erase l.buffers handle b
    simp only [step, held, Handles.things_insert, List.map_append, List.count_append,
      List.map_cons, List.map_nil]
    omega
  | write handle count =>
    rw [step]
    cases hfind : l.buffers.find? handle with
    | none => exact follows_of_pool_eq rfl fun _ => Nat.le_refl _
    | some thing =>
      refine follows_of_pool_eq rfl fun b => ?_
      have fewer := count_buffers_of_find? hfind b
      simp only [held, Handles.things_insert, List.map_append, List.count_append, List.map_cons,
        List.map_nil]
      omega
  | release handle =>
    rw [step]
    cases hfind : l.buffers.find? handle with
    | none => exact follows_of_pool_eq rfl fun _ => Nat.le_refl _
    | some thing =>
      refine follows_of_releaseAll [thing.buffer] rfl fun b => ?_
      have fewer := count_buffers_of_find? hfind b
      simp only [held, List.count_append]
      omega
  | serialize handle s m =>
    rw [step]
    obtain ⟨gives, -⟩ := Pool.gives_acquireAll l.pool (c.serialize s m).acquired
    cases hwritten : (c.serialize s m).outcome with
    | error fault => exact follows_of_gives gives fun b => Nat.le_add_right _ _
    | ok frame =>
      refine follows_of_gives gives fun b => ?_
      have fewer := count_frames_erase l.frames handle b
      simp only [held, Handles.things_insert, List.flatMap_append, List.count_append,
        List.flatMap_singleton]
      omega
  | releaseFrame handle =>
    rw [step]
    cases hfind : l.frames.find? handle with
    | none => exact follows_of_pool_eq rfl fun _ => Nat.le_refl _
    | some thing =>
      refine follows_of_releaseAll thing.buffers rfl fun b => ?_
      have fewer := count_frames_of_find? hfind b
      simp only [held, List.count_append]
      omega
  | intoBytes handle =>
    rw [step]
    cases hfind : l.frames.find? handle with
    | none => exact follows_of_pool_eq rfl fun _ => Nat.le_refl _
    | some thing =>
      refine follows_of_pool_eq rfl fun b => ?_
      have fewer := count_frames_erase l.frames handle b
      simp only [held, List.count_append]
      omega

/-! ## Many moves -/

/-- **No buffer is in two places**, the pool is within its limits, and what is held fits into
its buffers. -/
structure Sound (l : Ledger) : Prop where
  kept : l.pool.Kept
  once : (l.all.map (·.serial)).Nodup
  issued : ∀ b ∈ l.all, b.serial < l.pool.issued
  /-- No more is written into a buffer than it has room for. -/
  filled : ∀ held ∈ l.buffers.things, held.used ≤ held.buffer.capacity
  /-- A frame has a buffer for each message in it, innermost first. -/
  framed : ∀ held ∈ l.frames.things,
    List.Forall₂ (fun n b => n ≤ b.capacity) held.frame.sizes held.buffers

omit [OwnTypes] in
theorem sound_new (maxBuffers maxCapacity : ℕ) : (new (.new maxBuffers maxCapacity)).Sound :=
  ⟨Pool.kept_new _ _, List.nodup_nil, nofun, nofun, nofun⟩

omit [OwnTypes] in
/-- New buffers are told from all others by their serial numbers. -/
theorem Sound.once_of_follows (hl : l.Sound) (h : l.Follows l') :
    (l'.all.map (·.serial)).Nodup ∧ ∀ b ∈ l'.all, b.serial < l'.pool.issued := by
  obtain ⟨fresh, ⟨mid, hperm, hsub⟩, hserials, hissued⟩ := h.all
  have later : ∀ b ∈ fresh, l.pool.issued ≤ b.serial ∧ b.serial < l'.pool.issued := by
    intro b hb
    have hmem : b.serial ∈ fresh.map (·.serial) := List.mem_map_of_mem hb
    rw [hserials, List.mem_range'_1] at hmem
    omega
  constructor
  · have whole : ((l.all ++ fresh).map (·.serial)).Nodup := by
      rw [List.map_append]
      refine hl.once.append (hserials ▸ List.nodup_range') ?_
      intro n hold hnew
      obtain ⟨b, hb, rfl⟩ := List.mem_map.mp hold
      obtain ⟨b', hb', hsame⟩ := List.mem_map.mp hnew
      have earlier := hl.issued b hb
      have hlater := (later b' hb').1
      omega
    exact (hperm.map _).nodup_iff.mp (whole.sublist (hsub.map _))
  · intro b hb
    rcases List.mem_append.mp (hsub.subset (hperm.mem_iff.mpr hb)) with hold | hnew
    · have earlier := hl.issued b hold
      omega
    · exact (later b hnew).2

/-- A buffer that is held after a move was held before, or was taken just now, or more was
written into it. -/
theorem mem_buffers_step {thing : HeldBuffer} {move : Move}
    (h : thing ∈ (l.step c move).2.buffers.things) :
    thing ∈ l.buffers.things ∨ thing.used = 0 ∨ ∃ n, thing.used = min thing.buffer.capacity n := by
  cases move with
  | acquire handle capacity =>
    rcases Handles.mem_things_of_insert h with hold | rfl
    · exact .inl hold
    · exact .inr (.inl rfl)
  | write handle count =>
    rw [step] at h
    cases hfind : l.buffers.find? handle with
    | none => exact .inl (by simpa only [hfind] using h)
    | some old =>
      simp only [hfind] at h
      rcases Handles.mem_things_of_insert h with hold | rfl
      · exact .inl hold
      · exact .inr (.inr ⟨_, rfl⟩)
  | release handle =>
    rw [step] at h
    cases hfind : l.buffers.find? handle with
    | none => exact .inl (by simpa only [hfind] using h)
    | some old =>
      simp only [hfind] at h
      exact .inl ((l.buffers.things_erase_sublist handle).subset h)
  | serialize handle s m =>
    rw [step] at h
    cases hwritten : (c.serialize s m).outcome <;> exact .inl (by simpa only [hwritten] using h)
  | releaseFrame handle =>
    rw [step] at h
    cases hfind : l.frames.find? handle <;> exact .inl (by simpa only [hfind] using h)
  | intoBytes handle =>
    rw [step] at h
    cases hfind : l.frames.find? handle <;> exact .inl (by simpa only [hfind] using h)

/-- **A frame that is held after a move** was held before, or was written just now into
buffers that were taken for it. -/
theorem mem_frames_step {thing : HeldFrame} {move : Move}
    (h : thing ∈ (l.step c move).2.frames.things) :
    thing ∈ l.frames.things ∨ ∃ s m, (c.serialize s m).outcome = .ok thing.frame ∧
      thing.buffers = (l.pool.acquireAll (c.serialize s m).acquired).1 := by
  have erased (handle : ℕ) (h : thing ∈ (l.frames.erase handle).things) : thing ∈ l.frames.things :=
    (l.frames.things_erase_sublist handle).subset h
  cases move with
  | acquire handle capacity => exact .inl h
  | write handle count =>
    rw [step] at h
    cases hfind : l.buffers.find? handle <;> exact .inl (by simpa only [hfind] using h)
  | release handle =>
    rw [step] at h
    cases hfind : l.buffers.find? handle <;> exact .inl (by simpa only [hfind] using h)
  | serialize handle s m =>
    rw [step] at h
    cases hwritten : (c.serialize s m).outcome with
    | error fault => exact .inl (by simpa only [hwritten] using h)
    | ok frame =>
      simp only [hwritten] at h
      rcases Handles.mem_things_of_insert h with hold | rfl
      · exact .inl hold
      · exact .inr ⟨s, m, hwritten, rfl⟩
  | releaseFrame handle =>
    rw [step] at h
    cases hfind : l.frames.find? handle with
    | none => exact .inl (by simpa only [hfind] using h)
    | some old => exact .inl (erased handle (by simpa only [hfind] using h))
  | intoBytes handle =>
    rw [step] at h
    cases hfind : l.frames.find? handle with
    | none => exact .inl (by simpa only [hfind] using h)
    | some old => exact .inl (erased handle (by simpa only [hfind] using h))

/-- **A move leaves a sound ledger sound.** -/
theorem Sound.step (hl : l.Sound) (c : Codec) (move : Move) : (l.step c move).2.Sound := by
  have hfollows := follows_step c l move
  obtain ⟨honce, hissued⟩ := hl.once_of_follows hfollows
  refine ⟨hfollows.kept hl.kept, honce, hissued, fun thing hthing => ?_, fun thing hthing => ?_⟩
  · rcases mem_buffers_step hthing with hold | hempty | ⟨n, hmost⟩
    · exact hl.filled thing hold
    · omega
    · omega
  · rcases mem_frames_step hthing with hold | ⟨s, m, hwritten, hbuffers⟩
    · exact hl.framed thing hold
    · have large := (Pool.gives_acquireAll l.pool (c.serialize s m).acquired).2
      rwa [← hbuffers, Codec.acquired_of_serialize hwritten] at large

/-- And so do many moves, which leave the limits as they are. -/
theorem Sound.run (hl : l.Sound) (c : Codec) (moves : List Move) :
    (l.run c moves).2.Sound ∧ (l.run c moves).2.pool.maxBuffers = l.pool.maxBuffers ∧
      (l.run c moves).2.pool.maxCapacity = l.pool.maxCapacity := by
  induction moves generalizing l with
  | nil => exact ⟨hl, rfl, rfl⟩
  | cons move rest ih =>
    obtain ⟨hbuffers, hcapacity⟩ := (follows_step c l move).limits
    obtain ⟨hsound, hfew, hsmall⟩ := ih (hl.step c move)
    exact ⟨hsound, hfew.trans hbuffers, hsmall.trans hcapacity⟩

/-! ## The accounts -/

/-- Writes a message into buffers of the pool, in which some bytes were left. -/
def serializeIn (c : Codec) (l : Ledger) (handle : ℕ) (s : Schema) (m : Message)
    (left : ℕ → Bytes) : Answer × Ledger :=
  let loaded := c.serializeIn s m ⟨l.pool, left⟩
  let l := { l with pool := loaded.arena.pool }
  match loaded.outcome with
  | .error fault => (.fault fault, l)
  | .ok packed =>
    (.frame packed.bytes, { l with frames := l.frames.insert handle ⟨packed.frame, packed.buffers⟩ })

/-- **Writing a message is writing it into the buffers**: what the caller is told, and what
is left, does not depend on what was in them. -/
theorem step_serialize (c : Codec) (l : Ledger) (handle : ℕ) (s : Schema) (m : Message)
    (left : ℕ → Bytes) : l.step c (.serialize handle s m) = l.serializeIn c handle s m left := by
  have same := Codec.inPlace_serializeIn c s m ⟨l.pool, left⟩
  have hframe := same.frame
  rw [Ledger.step, serializeIn, same.arena]
  cases hloaded : (c.serializeIn s m ⟨l.pool, left⟩).outcome with
  | error fault =>
    rw [hloaded] at hframe
    simp only [← hframe, Except.map]
  | ok packed =>
    rw [hloaded] at hframe
    simp only [← hframe, Except.map, Packed.bytes_frame, same.buffers packed hloaded]

/-- A frame that is given back right after it was written leaves no fewer buffers idle. -/
theorem available_le_of_serialize (hp : l.pool.Kept) {s : Schema} {m : Message} {frame : Frame}
    (h : (c.serialize s m).outcome = .ok frame) (handle : ℕ) :
    l.pool.available ≤
      (((l.step c (.serialize handle s m)).2.step c (.releaseFrame handle)).2).pool.available := by
  have gives := (Pool.gives_acquireAll l.pool (c.serialize s m).acquired).1
  have back := Pool.available_le_of_gives hp gives
  simpa only [step, h, Handles.find?_insert_self] using back

/-- **The accounts of a pool** with these limits. -/
structure Accounts (c : Codec) (maxBuffers maxCapacity : ℕ) (l : Ledger) : Prop where
  /-- The pool never holds more buffers than it may, nor one that is too large. -/
  limits : l.pool.available ≤ maxBuffers ∧ ∀ b ∈ l.pool.idle, b.capacity ≤ maxCapacity
  /-- No buffer is both in the pool and held, and none is held twice. -/
  apart : (l.all.map (·.serial)).Nodup
  /-- A buffer that a caller takes is empty and has the capacity asked for. -/
  acquired : ∀ handle capacity, ∃ b, capacity ≤ b.capacity ∧
    (l.step c (.acquire handle capacity)).1 = .buffer 0 b.capacity ∧
    (l.step c (.acquire handle capacity)).2.buffers.find? handle = some ⟨b, 0⟩
  /-- So is one that a message is written into, whatever was left in it. -/
  emptied : ∀ left capacity, (Arena.acquire ⟨l.pool, left⟩ capacity).2.1 = [] ∧
    capacity ≤ (Arena.acquire ⟨l.pool, left⟩ capacity).1.capacity
  /-- A caller writes no more into a buffer than it has room for. -/
  filled : ∀ held ∈ l.buffers.things, held.used ≤ held.buffer.capacity
  /-- A frame that is held has a buffer for each message in it, innermost first. -/
  framed : ∀ held ∈ l.frames.things,
    List.Forall₂ (fun n b => n ≤ b.capacity) held.frame.sizes held.buffers
  /-- Writing a message is writing it into buffers of the pool, whatever was left in them. -/
  written : ∀ handle s m left,
    l.step c (.serialize handle s m) = l.serializeIn c handle s m left
  /-- Giving a frame back gives back its buffers: those of the frame inside it first. -/
  released : ∀ handle (packed : Packed),
    l.frames.find? handle = some ⟨packed.frame, packed.buffers⟩ →
      (l.step c (.releaseFrame handle)).2.pool = packed.release l.pool
  /-- Each of them is kept if it is within the limit of capacity and there is room. -/
  keeps : ∀ handle held, l.frames.find? handle = some held →
    (l.step c (.releaseFrame handle)).2.pool.idle = l.pool.idle ++
      (held.buffers.filter (·.capacity ≤ maxCapacity)).take (maxBuffers - l.pool.available)
  /-- A message that is written, and its frame given back, leave no fewer buffers idle. -/
  returned : ∀ handle s m frame, (c.serialize s m).outcome = .ok frame →
    l.pool.available ≤
      (((l.step c (.serialize handle s m)).2.step c (.releaseFrame handle)).2).pool.available

theorem accounts_of_sound (hl : l.Sound) (c : Codec) :
    l.Accounts c l.pool.maxBuffers l.pool.maxCapacity where
  limits := ⟨hl.kept.few, hl.kept.small⟩
  apart := hl.once
  acquired := fun handle capacity =>
    ⟨_, (Pool.gives_acquire l.pool capacity).2, rfl, Handles.find?_insert_self _ _ _⟩
  emptied := fun left capacity => ⟨Bytes.resize_zero _, (Pool.gives_acquire l.pool capacity).2⟩
  filled := hl.filled
  framed := hl.framed
  written := step_serialize c l
  released := by
    intro handle packed hfind
    rw [Ledger.step, hfind, Packed.release_eq_releaseAll]
  keeps := by
    intro handle held hfind
    rw [Ledger.step, hfind]
    simp only [Pool.releaseAll_eq, Pool.keeps]
  returned := fun handle _ _ _ h => available_le_of_serialize hl.kept h handle

/-- **The accounts of every pool come out right**, whatever its limits are and whatever its
callers do; and what is written into its buffers, and how long it is, does not depend on the
pool or on what was left in them. -/
theorem accounts (c : Codec) (maxBuffers maxCapacity : ℕ) (moves : List Move) :
    ((new (.new maxBuffers maxCapacity)).run c moves).2.Accounts c maxBuffers maxCapacity ∧
      ∀ (s : Schema) (m : Message) (a : Arena),
        (c.serializeIn s m a).outcome.map (fun packed => (packed.frame, packed.length)) =
            (c.serialize s m).outcome.map (fun frame => (frame, frame.bytes.length)) ∧
          (c.serializeIn s m a).message = (c.serialize s m).message := by
  obtain ⟨hsound, hfew, hsmall⟩ := (sound_new maxBuffers maxCapacity).run c moves
  refine ⟨?_, fun s m a => ?_⟩
  · have come := accounts_of_sound hsound c
    rwa [hfew, hsmall] at come
  · have same := Codec.inPlace_serializeIn c s m a
    refine ⟨?_, same.message⟩
    rw [← same.frame]
    cases hloaded : (c.serializeIn s m a).outcome with
    | error fault => rfl
    | ok packed =>
      simp only [Except.map, Packed.bytes_frame, Packed.length_of_full (same.full packed hloaded)]

end Ledger

end FramedDuplex

namespace FramedDuplex.Ledger

-- the envelope and the letter inside it have a buffer each
example :
    ((new .standard).run Codec.standard
      [.serialize 1 Codec.envelopeSchema Codec.envelope, .releaseFrame 1]).2.pool.available = 2 := by
  cbv

end FramedDuplex.Ledger
