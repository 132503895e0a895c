import FramedDuplex.Proofs.Client.Outcome
/-!
# What reaches the wire is what was sent

Only calls bring frames to the send queue: each event of a run is told here with
the frames that it puts into the queue (`Client.Accounts`), and a frame that comes
into the queue later is that of a call that has waited since it began
(`Client.Waits`). With `Link.OnWire` that says which bytes are on the wire at every
moment of a run (`Client.SendsInOrder`).
-/

namespace FramedDuplex

variable [OwnTypes]

namespace Client

variable {c d : Client} {handle : ℕ} {m : Message} {p : Parcel} {request : Option Key}
variable {event : Event}

/-! ## Events -/

/-- The calls that bring a frame to the send queue. -/
inductive MayQueue (c : Client) : Event → Prop where
  | send {handle : ℕ} {m : Message} {fired : Option Bool} : MayQueue c (.send handle m fired)
  | request {handle : ℕ} {m : Message} : MayQueue c (.request handle m)
  | sendEach {ms : List Message} : MayQueue c (.sendEach ms)
  | poll {handle : ℕ} {p : Parcel} {request : Option Key} : c.InRoom handle p request →
      MayQueue c (.move (.poll handle))

/-- **Each event**, what its caller is told, and the frames that it puts into the
send queue. A number that has a call already drops it first. -/
inductive Accounts (c : Client) : Event → Reply × Client → List Parcel → Prop where
  | send {handle : ℕ} {m : Message} {fired : Option Bool} {told : Reply × Client}
      {frames : List Parcel} :
      (c.vacate handle).Outcome handle (c.frame? m) none told frames →
        Accounts c (.send handle m fired) told frames
  | request {handle : ℕ} {m : Message} {told : Reply × Client} {frames : List Parcel} :
      (c.vacate handle).Outcome handle (c.frame? m) (some (c.requests.keyOf m)) told frames →
        Accounts c (.request handle m) told frames
  | poll {handle : ℕ} {p : Parcel} {request : Option Key} {told : Reply × Client}
      {frames : List Parcel} : c.InRoom handle p request →
      c.Outcome handle (some p.bytes) request told frames →
        Accounts c (.move (.poll handle)) told frames
  | sendEach {ms : List Message} {replies : List Reply} {d : Client} {frames : List Parcel} :
      c.SentEach ms (replies, d) frames → Accounts c (.sendEach ms) (.each replies, d) frames
  | other {event : Event} {told : Reply × Client} : ¬ c.MayQueue event → Accounts c event told []

/-- An event begins a call that sends a message, for a request under a key. -/
inductive Begins (c : Client) : Event → ℕ → Message → Option Key → Prop where
  | send {handle : ℕ} {m : Message} {fired : Option Bool} :
      Begins c (.send handle m fired) handle m none
  | request {handle : ℕ} {m : Message} :
      Begins c (.request handle m) handle m (some (c.requests.keyOf m))

theorem frame?_vacate (c : Client) (handle : ℕ) (m : Message) :
    (c.vacate handle).frame? m = c.frame? m := by
  have hcodec : (c.vacate handle).link.codec = c.link.codec := by
    rw [link_vacate]
    exact (Link.sameMake_after ..).codec
  rw [frame?, frame?, hcodec, requests_vacate]

theorem find?_vacate (c : Client) (handle : ℕ) : (c.vacate handle).outgoing.find? handle = none := by
  show (c.withdraw handle).outgoing.find? handle = none
  simp [find?_withdraw]

/-- A key of the wrong kind is told as such. -/
theorem unsent_keyFault {s : Schema} {key : Key} {fault : ClientError}
    (h : keyFault? s key = some fault) : Unsent fault := by
  unfold keyFault? at h
  split at h
  · cases h
  · cases h
    exact .invalidKey
  · cases h
    exact .invalidKey
  · split at h
    · cases h
    · cases h
      exact .invalidKey

theorem accounts_send (c : Client) (handle : ℕ) (m : Message) (fired : Option Bool) :
    c.Accounts (.send handle m fired) (c.react (.send handle m fired))
      (c.link.account Link.enqueues (c.reactDeeds (.send handle m fired))) := by
  have hbegun := outcome_submit (find?_vacate c handle) m fired none
  rw [frame?_vacate] at hbegun
  show c.Accounts _ _ (c.link.account _ (c.sendDeeds handle m fired))
  rw [sendDeeds, Link.account_append, ← link_vacate,
    Link.account_enqueues_of_calm _ (calm_vacateDeeds c handle)]
  exact .send hbegun

theorem accounts_request (c : Client) (handle : ℕ) (m : Message) :
    c.Accounts (.request handle m) (c.react (.request handle m))
      (c.link.account Link.enqueues (c.reactDeeds (.request handle m))) := by
  have hfree := find?_vacate c handle
  show c.Accounts _ (c.request handle m) (c.link.account _ (c.requestDeeds handle m))
  rw [requestDeeds, Link.account_append, ← link_vacate,
    Link.account_enqueues_of_calm _ (calm_vacateDeeds c handle), List.nil_append]
  refine .request ?_
  unfold Client.request
  dsimp only
  cases hkey : keyFault? (c.vacate handle).link.schema ((c.vacate handle).requests.keyOf m) with
  | some fault => exact .failed rfl (unsent_keyFault hkey) (not_inRoom_of_none hfree) (.refl _)
  | none =>
    have hbegun := outcome_submit hfree m none (some ((c.vacate handle).requests.keyOf m))
    rw [frame?_vacate] at hbegun
    rwa [requests_vacate] at hbegun ⊢

/-- An event that brings no frame. -/
theorem accounts_other (hother : ¬ c.MayQueue event)
    (hnone : ∀ d ∈ c.reactDeeds event, d.brings = false) :
    c.Accounts event (c.react event) (c.link.account Link.enqueues (c.reactDeeds event)) := by
  rw [Link.account_enqueues_of_not_brings _ hnone]
  exact .other hother

theorem accounts_poll (c : Client) (handle : ℕ) :
    c.Accounts (.move (.poll handle)) (c.react (.move (.poll handle)))
      (c.link.account Link.enqueues (c.reactDeeds (.move (.poll handle)))) := by
  by_cases hroom : ∃ p request, c.InRoom handle p request
  · obtain ⟨p, request, hroom⟩ := hroom
    exact .poll hroom (outcome_poll hroom)
  · refine accounts_other (fun hmay => ?_) ?_
    · cases hmay with
      | poll hin => exact hroom ⟨_, _, hin⟩
    · show ∀ d ∈ c.pollDeeds handle, d.brings = false
      unfold pollDeeds
      split
      · simp [actDeed, Link.Deed.brings]
      · simp [actDeed, Link.Deed.brings]
      · next m p fired request hfind => exact absurd ⟨p, request, m, fired, hfind⟩ hroom

/-- **What an event puts into the queue** before the loops run. -/
theorem accounts_react (c : Client) (event : Event) :
    c.Accounts event (c.react event) (c.link.account Link.enqueues (c.reactDeeds event)) := by
  cases event with
  | move move =>
    by_cases hpoll : ∃ handle, move = .poll handle
    · obtain ⟨handle, rfl⟩ := hpoll
      exact accounts_poll c handle
    · have hother : ∀ handle, move ≠ .poll handle := fun handle h => hpoll ⟨handle, h⟩
      refine accounts_other ?_ fun d hd => (calm_moveDeeds c hother d hd).brings
      rintro (_ | _)
      exact hother _ rfl
  | send handle m fired => exact accounts_send c handle m fired
  | request handle m => exact accounts_request c handle m
  | sendEach ms => exact .sendEach (sentEach_sendEach c ms)
  | close =>
    refine accounts_other (fun hmay => by cases hmay) ?_
    show ∀ d ∈ c.closeDeeds, d.brings = false
    unfold closeDeeds
    split
    · simp
    · refine List.forall_mem_cons.mpr ⟨rfl, ?_⟩
      split
      · simp [Link.Deed.brings]
      · refine List.forall_mem_append.mpr ⟨fun d hd => (Link.calm_settleDeeds _ d hd).brings, ?_⟩
        split <;> simp [Link.Deed.brings]
  | dispose =>
    refine accounts_other (fun hmay => by cases hmay) ?_
    show ∀ d ∈ c.disposeDeeds, d.brings = false
    simp only [disposeDeeds, List.forall_mem_append, List.forall_mem_map, List.forall_mem_singleton]
    exact ⟨⟨fun _ _ => rfl, fun _ _ => rfl⟩, rfl⟩
  | _ => exact accounts_other (fun hmay => by cases hmay) (by simp [reactDeeds, Link.Deed.brings])

/-- No move lets a frame begin to wait for room. -/
theorem inRoom_of_move {move : Exchange.Move Key}
    (h : (c.react (.move move)).2.InRoom handle p request) : c.InRoom handle p request := by
  cases move with
  | receive k key fired =>
    have hsame : (c.react (.move (.receive k key fired))).2.outgoing =
        (c.withdraw k).outgoing := by
      simp only [react, Client.receive]
      split <;> rfl
    obtain ⟨m, fired, hfind⟩ := h
    exact (inRoom_of_withdraw (k := k) ⟨m, fired, hsame ▸ hfind⟩).2
  | next cursor k single =>
    have hout : (c.act (.next cursor k single)).2.outgoing = c.outgoing := rfl
    simp only [react] at h
    obtain ⟨m, fired, hfind⟩ : (c.act (.next cursor k single)).2.InRoom handle p request := by
      split at h
      · next d hact => rw [hact]; exact h
      · next d hact => rw [hact]; exact h
      · next answer d _ _ hact => rw [hact]; exact (inRoom_of_withdraw h).2
    exact ⟨m, fired, hout ▸ hfind⟩
  | poll k => exact inRoom_of_poll h
  | cancel k =>
    simp only [react, cancel] at h
    split at h
    · next m q r hfind =>
      rcases inRoom_of_keep h with hold | ⟨rfl, fired, hstage⟩
      · exact hold
      · cases hstage
        exact ⟨m, some false, hfind⟩
    · exact h
    · exact h
  | drop k =>
    simp only [react, drop] at h
    split at h
    · exact (inRoom_of_withdraw h).2
    · exact (inRoom_of_letGo (k := k) h).2
  | _ => exact h

/-- **Only an event that begins a call** lets a frame begin to wait for room. -/
theorem inRoom_of_react (h : (c.react event).2.InRoom handle p request) :
    c.InRoom handle p request ∨
      ∃ m, c.Begins event handle m request ∧ c.frame? m = some p.bytes := by
  cases event with
  | move move => exact .inl (inRoom_of_move h)
  | send k m fired =>
    rcases inRoom_of_submit h with hold | ⟨rfl, rfl, hframe⟩
    · exact .inl (inRoom_of_withdraw hold).2
    · rw [frame?_vacate] at hframe
      exact .inr ⟨m, .send, hframe⟩
  | request k m =>
    simp only [react, Client.request] at h
    split at h
    · exact .inl (inRoom_of_withdraw h).2
    · rcases inRoom_of_submit h with hold | ⟨rfl, rfl, hframe⟩
      · exact .inl (inRoom_of_withdraw hold).2
      · rw [frame?_vacate] at hframe
        rw [requests_vacate]
        exact .inr ⟨m, .request, hframe⟩
  | sendEach ms => exact .inl (inRoom_of_sendEach h)
  | close =>
    simp only [react, Client.close] at h
    split at h
    · exact .inl h
    · split at h
      · exact .inl h
      · split at h <;> exact .inl h
  | dispose =>
    obtain ⟨m, fired, hfind⟩ := h
    cases hfind
  | _ => exact .inl h

/-! ## Runs -/

/-- A frame that waits for room after the events `past` is that of a call which
began in one of them, and has waited since. -/
def Waits (c : Client) (past : List Event) (handle : ℕ) (p : Parcel) (request : Option Key) :
    Prop :=
  ∃ before event since m, past = before ++ event :: since ∧
    (c.run before).2.Begins event handle m request ∧ c.frame? m = some p.bytes ∧
      ∀ mid, mid <+: since → (c.run (before ++ event :: mid)).2.InRoom handle p request

theorem waits_of_inRoom (hfresh : ∀ handle p request, ¬ c.InRoom handle p request)
    (past : List Event) (hin : (c.run past).2.InRoom handle p request) :
    c.Waits past handle p request := by
  induction past using List.reverseRecOn with
  | nil => exact absurd hin (hfresh handle p request)
  | append_singleton past event ih =>
    have hnow := hin
    rw [run_append] at hin
    have hin : ((c.run past).2.react event).2.InRoom handle p request := hin
    rcases inRoom_of_react hin with hold | ⟨m, hbegins, hframe⟩
    · obtain ⟨before, first, since, m, rfl, hbegins, hframe, hwaits⟩ := ih hold
      refine ⟨before, first, since ++ [event], m, by simp, hbegins, hframe, fun mid hmid => ?_⟩
      rcases List.prefix_concat_iff.mp hmid with rfl | hmid
      · simpa using hnow
      · exact hwaits mid hmid
    · rw [frame?_of_sameMake (sameMake_run c past)] at hframe
      refine ⟨past, event, [], m, rfl, hbegins, hframe, fun mid hmid => ?_⟩
      obtain rfl := List.prefix_nil.mp hmid
      exact hnow

/-- **What reaches the wire is what was sent**, in the order in which it was
queued. -/
structure SendsInOrder (c : Client) (events : List Event) : Prop where
  /-- Between any two deeds of the run, the wire has a beginning of the frames that
  were queued, and the counters count those that are complete. -/
  wire : ∀ past, past <+: c.journal events →
    ∃ n part, (c.link.after past).OnWire (c.link.account Link.enqueues past) n part
  /-- The frames that were queued are those of the calls that were told so. -/
  calls : ∀ past event rest, past ++ event :: rest = events →
    (c.run past).2.Accounts event ((c.run past).2.react event)
      ((c.run past).2.link.account Link.enqueues ((c.run past).2.stepDeeds event))
  /-- A call that gets its frame into the queue when it is asked for progress has
  waited since it began. -/
  waits : ∀ past rest, past ++ rest = events → ∀ handle p request,
    (c.run past).2.InRoom handle p request → c.Waits past handle p request

/-- **Every client sends in order**, whatever its callers, the network and the
loops do. -/
theorem sendsInOrder_of_make {config : LinkConfig} {registry : Registry}
    {requests answers : Layout} (made : make config registry requests answers = .ok c)
    (events : List Event) : c.SendsInOrder events := by
  obtain ⟨s, t, -, -, rfl⟩ := make_eq_ok made
  refine ⟨fun past _ => Link.onWire_after .., fun past event rest _ => ?_, fun past rest _ =>
    fun handle p request hin => waits_of_inRoom ?_ past hin⟩
  · rw [stepDeeds, Link.account_append,
      Link.account_enqueues_of_calm _ (Link.calm_settleDeeds _), List.append_nil]
    exact accounts_react ..
  · exact fun handle p request => not_inRoom_of_none rfl p request

end Client

end FramedDuplex

namespace FramedDuplex.Client

/-- The wire takes four bytes, and three parcels of three bytes each are sent: the
first is on the wire and counted, of the second there is a byte, and the third is
in the queue, which has room for no other. -/
theorem sendsInOrder_parcels :
    ∃ c, make ((LinkConfig.new LinkConfig.defaultAddr).withSendQueue 1) .standard
        Codec.parcelLayout Codec.parcelLayout = .ok c ∧
      (c.run [.wire (.window (some 4)), .sendEach [.blank, .blank],
        .send 0 .blank none]).2.link.wire.written = [0, 1, 0, 0] ∧
      (c.run [.wire (.window (some 4)), .sendEach [.blank, .blank],
        .send 0 .blank none]).2.link.counters = ⟨0, 3, 0, 1⟩ ∧
      c.SendsInOrder [.wire (.window (some 4)), .sendEach [.blank, .blank],
        .send 0 .blank none] := by
  have made := make_parcels ((LinkConfig.new LinkConfig.defaultAddr).withSendQueue 1) rfl
  exact ⟨_, made, by decide +kernel, by decide +kernel, sendsInOrder_of_make made _⟩

end FramedDuplex.Client
