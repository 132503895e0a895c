import FramedDuplex.Proofs.Client.Journal
import FramedDuplex.Proofs.Link.Written
/-!
# Calls that bring a frame

A call that brings its message to the send queue gets the frame of the message
into the queue, waits for room there, or fails, and then nothing has come of it:
no byte, and no change of the table or the counters (`Client.Outcome`). A call that
waits brings the same frame again when it is asked for progress, and while it
waits no other call has its number (`Client.inRoom_of_submit`,
`Client.inRoom_of_poll`).
-/

namespace FramedDuplex

variable [OwnTypes]

namespace Client

variable {c d : Client} {handle other : ℕ} {m : Message} {p : Parcel} {fired : Option Bool}
variable {request : Option Key} {frame : Option Bytes} {told : Reply × Client}
variable {frames : List Parcel} {event : Event}

/-! ## Calls that bring a frame -/

/-- The frame of a message, if it can be written. -/
def frame? (c : Client) (m : Message) : Option Bytes :=
  (c.link.codec.serialize c.requests m).outcome.toOption.map (·.bytes)

/-- A call waits for room for its frame, for a request if there is a key. -/
def InRoom (c : Client) (handle : ℕ) (p : Parcel) (request : Option Key) : Prop :=
  ∃ m fired, c.outgoing.find? handle = some ⟨m, .room p fired request⟩

/-- Nothing has come of a call: the table, the counters, the wire and the frames
in the queue are as they were. -/
structure Untouched (c d : Client) : Prop where
  exchange : d.link.exchange = c.link.exchange
  counters : d.link.counters = c.link.counters
  wire : d.link.wire = c.link.wire
  queue : d.link.outbox.queue = c.link.outbox.queue

theorem Untouched.refl (c : Client) : c.Untouched c := ⟨rfl, rfl, rfl, rfl⟩

theorem Untouched.trans {e : Client} (h : c.Untouched d) (h' : d.Untouched e) : c.Untouched e :=
  ⟨h'.exchange.trans h.exchange, h'.counters.trans h.counters, h'.wire.trans h.wire,
    h'.queue.trans h.queue⟩

/-- Why a call fails whose frame has not come into the queue. -/
inductive Unsent : ClientError → Prop where
  | cancelled : Unsent .cancelled
  | codec {cause : CodecError} : Unsent (.codec cause)
  | connectionBroken {reason : BrokenReason} : Unsent (.connectionBroken reason)
  | invalidKey {reason : String} : Unsent (.invalidKey reason)

/-- What a caller is told whose frame has come into the queue: that it is there,
or, if it asked for answers, what the table says about them. -/
inductive Queued : Option Key → Reply → Prop where
  | sent {m : Message} : Queued none (.sending none m)
  | pending {key : Key} : Queued (some key) (.answer .pending)
  | answered {key : Key} {m : Message} {batch : List Message} :
      Queued (some key) (.sending (some (.batch batch)) m)
  | late {key : Key} {m : Message} : Queued (some key) (.sending (some (.failed .timeout)) m)
  /-- The connection ended while the frame waited for room, and the queue was
  open still. -/
  | broken {key : Key} {m : Message} {reason : BrokenReason} :
      Queued (some key) (.sending (some (.failed (.connectionBroken reason))) m)

/-- **What becomes of a call** that brings a frame to the send queue, what its
caller is told and which frames come into the queue. -/
inductive Outcome (c : Client) (handle : ℕ) (frame : Option Bytes) (request : Option Key) :
    Reply × Client → List Parcel → Prop where
  | queued {told : Reply × Client} {p : Parcel} : frame = some p.bytes → Queued request told.1 →
      (∀ p request, ¬ told.2.InRoom handle p request) → Outcome c handle frame request told [p]
  | waits {told : Reply × Client} {p : Parcel} : frame = some p.bytes →
      told.1 = .answer .pending → told.2.InRoom handle p request → c.Untouched told.2 →
        Outcome c handle frame request told []
  | failed {told : Reply × Client} {cause : ClientError} {m : Message} :
      told.1 = failed cause m → Unsent cause → (∀ p request, ¬ told.2.InRoom handle p request) →
        c.Untouched told.2 → Outcome c handle frame request told []

theorem not_inRoom_of_none (h : c.outgoing.find? handle = none) (p : Parcel)
    (request : Option Key) : ¬ c.InRoom handle p request := by
  rintro ⟨m, fired, hfind⟩
  rw [h] at hfind
  cases hfind

theorem frame?_of_sameMake (h : c.SameMake d) (m : Message) : d.frame? m = c.frame? m := by
  rw [frame?, frame?, h.requests, h.link.codec]

/-- What the table answers to a receive that nothing can cancel. -/
theorem queued_receive (c : Client) (handle : ℕ) (m : Message) (key : Key) :
    (c.act (.receive handle key none)).1 = .pending ∨
      Queued (some key) (.sending (some (c.act (.receive handle key none)).1) m) := by
  show (c.link.exchange.receive handle key none c.deadline c.now).1 = .pending ∨
    Queued (some key) (.sending (some (c.link.exchange.receive handle key none c.deadline c.now).1) m)
  simp only [Exchange.receive, Exchange.seek]
  split
  · next hfired => cases hfired
  · split
    · exact .inr .answered
    · exact .inr .broken
    · split
      · exact .inr .late
      · exact .inl rfl

variable {b : Client}

/-- A request that has its frame in the queue asks the table. -/
theorem outcome_await (hfree : c.outgoing.find? handle = none) (hframe : frame = some p.bytes)
    (key : Key) :
    b.Outcome handle frame (some key) (c.await handle m (.receive handle key none)) [p] := by
  have htells := queued_receive c handle m key
  have hout : (c.act (.receive handle key none)).2.outgoing = c.outgoing := rfl
  unfold await
  split
  · refine .queued hframe .pending fun p request => ?_
    rintro ⟨m, fired, hfind⟩
    simp [keep] at hfind
  · next answer d hwaits hact =>
    rw [hact] at hout htells
    have hgone : d.outgoing.find? handle = none := by rw [hout]; exact hfree
    exact .queued hframe (htells.resolve_left hwaits) (not_inRoom_of_none hgone)

/-- A frame is brought to the send queue by some deed `e`, for a call of a client
`b` that is `c` but for that call. -/
theorem outcome_entered (hfree : c.outgoing.find? handle = none) (hbase : b.Untouched c)
    (hframe : frame = some p.bytes) {came : Outbox.Entry × Outbox} {e : Link.Deed}
    (hframes : c.link.enqueues e = if came.1 = .queued then [p] else [])
    (hqueue : came.1 ≠ .queued → came.2.queue = c.link.outbox.queue) :
    b.Outcome handle frame request (c.entered handle m p fired request came)
      (c.link.account Link.enqueues (e :: c.enteredDeeds handle p request came.1)) := by
  obtain ⟨entry, outbox⟩ := came
  rw [Link.account, hframes, Link.account_enqueues_of_calm _
    (calm_enteredDeeds c handle p request entry), List.append_nil]
  cases entry with
  | queued =>
    cases request with
    | none => exact .queued hframe .sent (not_inRoom_of_none hfree)
    | some key => exact outcome_await (c := c.withOutbox outbox) hfree hframe key
  | waits =>
    have hin : ((c.withOutbox outbox).keep handle m (.room p fired request)).InRoom handle p
        request :=
      ⟨m, fired, Handles.find?_insert_self ..⟩
    have hkept : c.Untouched ((c.withOutbox outbox).keep handle m (.room p fired request)) :=
      ⟨rfl, rfl, rfl, hqueue (by simp)⟩
    exact .waits hframe rfl hin (hbase.trans hkept)
  | refused =>
    have hkept : c.Untouched
        { c with link := { c.link with outbox, pool := c.link.pool.releaseAll p.buffers } } :=
      ⟨rfl, rfl, rfl, hqueue (by simp)⟩
    exact .failed rfl .connectionBroken (not_inRoom_of_none hfree) (hbase.trans hkept)

/-- **A call that begins**: its message is written, and the frame is brought to
the queue. -/
theorem outcome_submit (hfree : c.outgoing.find? handle = none) (m : Message)
    (fired : Option Bool) (request : Option Key) :
    c.Outcome handle (c.frame? m) request (c.submit handle m fired request)
      (c.link.account Link.enqueues (c.submitDeeds handle m fired request)) := by
  have hgone := not_inRoom_of_none hfree
  unfold submit submitDeeds
  split
  · exact .failed rfl .cancelled hgone (.refl c)
  · split
    · exact .failed rfl .connectionBroken hgone (.refl c)
    · dsimp only
      rw [Link.account]
      cases hwritten : (c.link.codec.serialize c.requests m).outcome with
      | error fault => exact .failed rfl .codec hgone ⟨rfl, rfl, rfl, rfl⟩
      | ok frame =>
        have hbytes : c.frame? m = some (c.parcel m frame).bytes := by
          simp [frame?, hwritten, Except.toOption, parcel]
        obtain ⟨-, hcame⟩ := Outbox.brought_offer c.link.outbox handle (c.parcel m frame)
        let d := { c with link := c.link.perform (.acquire
          (c.link.codec.serialize c.requests m).acquired) }
        exact outcome_entered (b := c) (c := d) (e := .offer handle (c.parcel m frame)) hfree
          ⟨rfl, rfl, rfl, rfl⟩ hbytes rfl fun hne => (hcame.resolve_left fun h => hne h.1).2

theorem untouched_withdraw (c : Client) (handle : ℕ) : c.Untouched (c.withdraw handle) := by
  unfold withdraw
  split
  · exact ⟨rfl, rfl, rfl, Outbox.queue_abandon ..⟩
  · exact ⟨rfl, rfl, rfl, rfl⟩

/-- A call that is dropped is gone, and the others are as they were. -/
theorem find?_withdraw (c : Client) (handle other : ℕ) :
    (c.withdraw handle).outgoing.find? other =
      if other = handle then none else c.outgoing.find? other := by
  unfold withdraw
  split <;> exact Handles.find?_erase ..

/-- **A call that has waited for room** tries again, unless it was cancelled. -/
theorem outcome_poll (hroom : c.InRoom handle p request) :
    c.Outcome handle (some p.bytes) request (c.poll handle)
      (c.link.account Link.enqueues (c.pollDeeds handle)) := by
  obtain ⟨m, fired, hroom⟩ := hroom
  simp only [poll, pollDeeds, hroom]
  split
  · have hgone : (c.withdraw handle).outgoing.find? handle = none := by simp [find?_withdraw]
    rw [Link.account_enqueues_of_calm _ (calm_withdrawDeeds c handle)]
    exact .failed rfl .cancelled (not_inRoom_of_none hgone) (untouched_withdraw ..)
  · have hfree : (c.letGo handle).outgoing.find? handle = none := Handles.find?_erase_self ..
    obtain ⟨-, hcame⟩ := Outbox.brought_retry c.link.outbox handle p
    exact outcome_entered (b := c) (c := c.letGo handle) (e := .retry handle p) hfree
      ⟨rfl, rfl, rfl, rfl⟩ rfl rfl fun hne => (hcame.resolve_left fun h => hne h.1).2

/-! ## Calls that wait for room -/

variable {k : ℕ} {r : Option Key}

theorem inRoom_of_withdraw (h : (c.withdraw k).InRoom handle p request) :
    handle ≠ k ∧ c.InRoom handle p request := by
  obtain ⟨m, fired, hfind⟩ := h
  rw [find?_withdraw] at hfind
  split at hfind
  · cases hfind
  · next hne => exact ⟨hne, m, fired, hfind⟩

theorem inRoom_of_letGo (h : (c.letGo k).InRoom handle p request) :
    handle ≠ k ∧ c.InRoom handle p request := by
  obtain ⟨m, fired, hfind⟩ := h
  rw [letGo, Handles.find?_erase] at hfind
  split at hfind
  · cases hfind
  · next hne => exact ⟨hne, m, fired, hfind⟩

theorem inRoom_of_keep {stage : Stage} (h : (c.keep k m stage).InRoom handle p request) :
    c.InRoom handle p request ∨ handle = k ∧ ∃ fired, stage = .room p fired request := by
  obtain ⟨n, fired, hfind⟩ := h
  rw [keep, Handles.find?_insert] at hfind
  split at hfind
  · next heq =>
    cases hfind
    exact .inr ⟨heq, fired, rfl⟩
  · exact .inl ⟨n, fired, hfind⟩

theorem inRoom_of_await {move : Exchange.Move Key}
    (h : (c.await k m move).2.InRoom handle p request) : c.InRoom handle p request := by
  have hout : (c.act move).2.outgoing = c.outgoing := rfl
  unfold await at h
  split at h
  · next d hact =>
    rw [hact] at hout
    rcases inRoom_of_keep h with ⟨n, fired, hfind⟩ | ⟨-, fired, hstage⟩
    · exact ⟨n, fired, hout ▸ hfind⟩
    · cases hstage
  · next answer d _ hact =>
    rw [hact] at hout
    obtain ⟨n, fired, hfind⟩ := h
    exact ⟨n, fired, hout ▸ hfind⟩

theorem inRoom_of_entered {q : Parcel} {came : Outbox.Entry × Outbox}
    (h : (c.entered k m q fired r came).2.InRoom handle p request) :
    c.InRoom handle p request ∨ handle = k ∧ p = q ∧ request = r := by
  obtain ⟨entry, outbox⟩ := came
  cases entry with
  | queued =>
    cases r with
    | none => exact .inl h
    | some key => exact .inl (inRoom_of_await (c := c.withOutbox outbox) h)
  | waits =>
    rcases inRoom_of_keep h with hold | ⟨heq, fired, hstage⟩
    · exact .inl hold
    · cases hstage
      exact .inr ⟨heq, rfl, rfl⟩
  | refused => exact .inl h

theorem inRoom_of_submit (h : (c.submit k m fired r).2.InRoom handle p request) :
    c.InRoom handle p request ∨ handle = k ∧ request = r ∧ c.frame? m = some p.bytes := by
  unfold submit at h
  split at h
  · exact .inl h
  · split at h
    · exact .inl h
    · dsimp only at h
      split at h
      · exact .inl h
      · next frame hframe =>
        rcases inRoom_of_entered h with hold | ⟨heq, rfl, rfl⟩
        · exact .inl hold
        · exact .inr ⟨heq, rfl, by simp [frame?, hframe, Except.toOption]⟩

/-- **Asking for progress** lets a call wait on, and lets none begin to. -/
theorem inRoom_of_poll (h : (c.poll k).2.InRoom handle p request) : c.InRoom handle p request := by
  unfold poll at h
  split at h
  · exact h
  · exact (inRoom_of_letGo (inRoom_of_await h)).2
  · next m q fired r hroom =>
    split at h
    · exact (inRoom_of_withdraw h).2
    · rcases inRoom_of_entered h with hold | ⟨rfl, rfl, rfl⟩
      · exact (inRoom_of_letGo hold).2
      · exact ⟨m, fired, hroom⟩

/-! ## Several messages -/

/-- What becomes of a message that is sent with others: a call sends it, for which
the loops run once if it waits, and which is given up if it waits even then. -/
inductive SentNow (c : Client) (m : Message) : Reply × Client → List Parcel → Prop where
  | sent {told : Reply × Client} {n : Message} {p : Parcel} : c.frame? m = some p.bytes →
      told.1 = .sending none n → SentNow c m told [p]
  | unsent {told : Reply × Client} : (∀ n, told.1 ≠ .sending none n) →
      (c.Untouched told.2 ∨ ∃ d, c.Untouched d ∧ d.settled.Untouched told.2) → SentNow c m told []

/-- What becomes of messages that are sent one after the other. -/
inductive SentEach : Client → List Message → List Reply × Client → List Parcel → Prop where
  | nil {c : Client} : SentEach c [] ([], c) []
  | cons {c d e : Client} {m : Message} {ms : List Message} {reply : Reply} {replies : List Reply}
      {frames more : List Parcel} : c.SentNow m (reply, d) frames →
        SentEach d ms (replies, e) more →
          SentEach c (m :: ms) (reply :: replies, e) (frames ++ more)

theorem find?_unused (h : Handles Outgoing) : h.find? h.unused = none := by
  have hle : ∀ (l : List ℕ) (start n : ℕ), n ∈ start :: l → n ≤ l.foldl max start := by
    intro l
    induction l with
    | nil => simp
    | cons k rest ih =>
      intro start n hn
      simp only [List.mem_cons] at hn
      have hstart : max start k ≤ rest.foldl max (max start k) := ih _ _ (by simp)
      rw [List.foldl_cons]
      rcases hn with rfl | rfl | hn
      · exact le_trans (le_max_left ..) hstart
      · exact le_trans (le_max_right ..) hstart
      · exact ih _ _ (by simp [hn])
  have hnone : ∀ e ∈ h.entries, ¬ e.1 = h.unused := by
    intro e he hsame
    have hmem : e.1 ∈ 0 :: h.entries.map (·.1) :=
      List.mem_cons_of_mem _ (List.mem_map_of_mem he)
    have := hle (h.entries.map (·.1)) 0 e.1 hmem
    unfold Handles.unused at hsame
    omega
  unfold Handles.find?
  rw [List.find?_eq_none.mpr (by simpa using hnone)]
  rfl

/-- **A message that is sent with others** is told with what comes of it. -/
theorem sentNow_sendNow (c : Client) (m : Message) :
    c.SentNow m (c.sendNow m) (c.link.account Link.enqueues (c.sendNowDeeds m)) := by
  have hbegun := outcome_submit (find?_unused c.outgoing) m none none
  rw [sendNow_eq, sendNowDeeds, Link.account_append, ← link_submit]
  generalize c.submit c.outgoing.unused m none none = told at hbegun ⊢
  generalize c.link.account Link.enqueues (c.submitDeeds c.outgoing.unused m none none) = frames
    at hbegun ⊢
  obtain ⟨reply, d⟩ := told
  cases hbegun with
  | queued hframe htells hgone =>
    cases htells
    exact .sent hframe rfl
  | failed htells _ hgone hkept =>
    cases htells
    exact .unsent (fun n h => by cases h) (.inl hkept)
  | waits hframe htells hroom hkept =>
    cases htells
    have hroom : d.settled.InRoom c.outgoing.unused _ none := hroom
    have hpoll := outcome_poll hroom
    have hloops := Link.account_enqueues_of_calm d.link (Link.calm_settleDeeds d.link)
    simp only [List.append_assoc, Link.account_append, hloops, List.nil_append,
      ← Link.settle_eq_after]
    show SentNow _ _ _ (d.settled.link.account _ _ ++ (d.settled.link.after _).account _ _)
    rw [← link_poll]
    generalize d.settled.poll c.outgoing.unused = told at hpoll ⊢
    generalize d.settled.link.account Link.enqueues (d.settled.pollDeeds c.outgoing.unused) =
      frames at hpoll ⊢
    obtain ⟨reply, e⟩ := told
    cases hpoll with
    | queued hbytes htells hgone =>
      cases htells
      exact .sent (hframe.trans hbytes) rfl
    | failed htells _ hgone hstill =>
      cases htells
      exact .unsent (fun n h => by cases h) (.inr ⟨d, hkept, hstill⟩)
    | waits _ htells hroom hstill =>
      cases htells
      dsimp only
      rw [Link.account_enqueues_of_calm _ (calm_withdrawDeeds e _)]
      exact .unsent (fun n h => by cases h)
        (.inr ⟨d, hkept, hstill.trans (untouched_withdraw ..)⟩)

/-- A call that waits for room is told to. -/
theorem Outcome.pending (h : c.Outcome k frame request told frames)
    (hin : told.2.InRoom k p r) : told.1 = .answer .pending := by
  cases h with
  | queued _ _ hgone => exact absurd hin (hgone p r)
  | waits _ htells _ _ => exact htells
  | failed _ _ hgone _ => exact absurd hin (hgone p r)

/-- And one that asks for no answers is told so only then. -/
theorem Outcome.inRoom {answer : Answer} (h : c.Outcome k frame none told frames)
    (htells : told.1 = .answer answer) : ∃ p, told.2.InRoom k p none := by
  cases h with
  | queued _ hqueued _ =>
    rw [htells] at hqueued
    cases hqueued
  | waits _ _ hroom _ => exact ⟨_, hroom⟩
  | failed hfailed _ _ _ =>
    rw [htells] at hfailed
    cases hfailed

/-- Sending a message with others leaves no call behind that waits. -/
theorem inRoom_of_sendNow (h : (c.sendNow m).2.InRoom handle p request) :
    c.InRoom handle p request := by
  have hbegun := outcome_submit (find?_unused c.outgoing) m none none
  have hothers : ∀ {d}, d = (c.submit c.outgoing.unused m none none).2 →
      handle ≠ c.outgoing.unused → d.InRoom handle p request → c.InRoom handle p request := by
    rintro _ rfl hne hin
    exact (inRoom_of_submit hin).resolve_right fun h => hne h.1
  rw [sendNow_eq] at h
  split at h
  · next answer d hsubmit =>
    rw [hsubmit] at hbegun hothers
    obtain ⟨q, hroom⟩ := hbegun.inRoom rfl
    have hroom : d.settled.InRoom c.outgoing.unused q none := hroom
    have hpolled := outcome_poll hroom
    split at h
    · next answer e hpoll =>
      obtain ⟨hne, hin⟩ := inRoom_of_withdraw h
      have hin : (d.settled.poll c.outgoing.unused).2.InRoom handle p request := by rwa [hpoll]
      exact hothers rfl hne (inRoom_of_poll (c := d.settled) hin)
    · next hends =>
      refine hothers rfl ?_ (inRoom_of_poll (c := d.settled) h)
      rintro rfl
      exact hends _ _ (Prod.ext (hpolled.pending h) rfl)
  · next hends =>
    refine hothers rfl ?_ h
    rintro rfl
    exact hends _ _ (Prod.ext (hbegun.pending h) rfl)

theorem sentEach_sendEach (c : Client) (ms : List Message) :
    c.SentEach ms (c.sendEach ms) (c.link.account Link.enqueues (c.sendEachDeeds ms)) := by
  induction ms generalizing c with
  | nil => exact .nil
  | cons m rest ih =>
    rw [sendEachDeeds, Link.account_append, ← link_sendNow]
    exact .cons (sentNow_sendNow c m) (ih (c.sendNow m).2)

theorem inRoom_of_sendEach {ms : List Message} (h : (c.sendEach ms).2.InRoom handle p request) :
    c.InRoom handle p request := by
  induction ms generalizing c with
  | nil => exact h
  | cons m rest ih =>
    have hone : (c.sendNow m).2.InRoom handle p request := ih h
    exact inRoom_of_sendNow hone

end Client

end FramedDuplex
