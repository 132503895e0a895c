import FramedDuplex.Client.Run
import FramedDuplex.Proofs.Codec.Feed
import FramedDuplex.Proofs.Link.Ended
/-!
# The journal of a client

What the events of a run do to the client's link, deed by deed
(`Client.journal`): first what the caller does, as it is written in the
definitions of the calls, then what the loops do until all wait. The journal says
all of it: the link after a run is the link after the run's journal
(`Client.link_run`). So what holds of every journal holds of every run, and at
every moment of it, between any two deeds.
-/

namespace FramedDuplex

variable [OwnTypes]

/-- What lets go of everything that has a number. -/
def Exchange.clearMoves {κ α : Type} (x : Exchange κ α) : List (Exchange.Move κ) :=
  x.calls.entries.map (.drop ·.1) ++ x.cursors.entries.map (.closeCursor ·.1) ++
    x.table.held.entries.map (.drop ·.1)

namespace Client

variable {c : Client} {handle : ℕ} {m : Message} {fired : Option Bool} {request : Option Key}

/-! ## Calls -/

def withdrawDeeds (c : Client) (handle : ℕ) : List Link.Deed :=
  match c.outgoing.find? handle with
  | some ⟨_, .room ..⟩ => [.abandon handle]
  | _ => []

def vacateDeeds (c : Client) (handle : ℕ) : List Link.Deed :=
  c.withdrawDeeds handle ++
    if c.link.exchange.calls.contains handle then [.act c.now none (.drop handle)] else []

/-- A caller does something with the table. -/
def actDeed (c : Client) (move : Exchange.Move Key) : Link.Deed := .act c.now c.deadline move

def receiveDeeds (c : Client) (handle : ℕ) (key : Key) (fired : Option Bool) : List Link.Deed :=
  match keyFault? c.link.schema key with
  | some _ => []
  | none => [c.actDeed (.receive handle key fired)]

/-- What follows when a frame was brought to the send queue. -/
def enteredDeeds (c : Client) (handle : ℕ) (p : Parcel) (request : Option Key) :
    Outbox.Entry → List Link.Deed
  | .queued =>
    match request with
    | none => []
    | some key => [c.actDeed (.receive handle key none)]
  | .waits => []
  | .refused => [.release p.buffers]

/-- The frame of a message on its way, and the buffers that it takes. -/
def parcel (c : Client) (m : Message) (frame : Frame) : Parcel :=
  ⟨frame.bytes, (c.link.pool.acquireAll (c.link.codec.serialize c.requests m).acquired).1⟩

def submitDeeds (c : Client) (handle : ℕ) (m : Message) (fired : Option Bool)
    (request : Option Key) : List Link.Deed :=
  if fired = some true then []
  else if c.link.isBroken then []
  else
    let written := c.link.codec.serialize c.requests m
    .acquire written.acquired ::
      match written.outcome with
      | .error _ => []
      | .ok frame =>
        .offer handle (c.parcel m frame) ::
          c.enteredDeeds handle (c.parcel m frame) request
            (c.link.outbox.offer handle (c.parcel m frame)).1

def sendDeeds (c : Client) (handle : ℕ) (m : Message) (fired : Option Bool) : List Link.Deed :=
  c.vacateDeeds handle ++ (c.vacate handle).submitDeeds handle m fired none

def requestDeeds (c : Client) (handle : ℕ) (m : Message) : List Link.Deed :=
  let d := c.vacate handle
  c.vacateDeeds handle ++
    match keyFault? d.link.schema (d.requests.keyOf m) with
    | some _ => []
    | none => d.submitDeeds handle m none (some (d.requests.keyOf m))

def pollDeeds (c : Client) (handle : ℕ) : List Link.Deed :=
  match c.outgoing.find? handle with
  | none => [c.actDeed (.poll handle)]
  | some ⟨_, .answers⟩ => [c.actDeed (.poll handle)]
  | some ⟨_, .room p fired request⟩ =>
    if fired = some true then c.withdrawDeeds handle
    else
      .retry handle p :: c.enteredDeeds handle p request (c.link.outbox.retry handle p).1

def cancelDeeds (c : Client) (handle : ℕ) : List Link.Deed :=
  match c.outgoing.find? handle with
  | some _ => []
  | none => [c.actDeed (.cancel handle)]

def dropDeeds (c : Client) (handle : ℕ) : List Link.Deed :=
  match c.outgoing.find? handle with
  | some ⟨_, .room ..⟩ => c.withdrawDeeds handle
  | _ => [c.actDeed (.drop handle)]

/-- The client while it waits for the loops to make room. -/
def settled (c : Client) : Client := { c with link := c.link.settle }

def sendNowDeeds (c : Client) (m : Message) : List Link.Deed :=
  let handle := c.outgoing.unused
  c.submitDeeds handle m none none ++
    match c.submit handle m none none with
    | (.answer _, d) =>
      d.link.settleDeeds ++ d.settled.pollDeeds handle ++
        match d.settled.poll handle with
        | (.answer _, e) => e.withdrawDeeds handle
        | _ => []
    | _ => []

def sendEachDeeds (c : Client) : List Message → List Link.Deed
  | [] => []
  | m :: rest => c.sendNowDeeds m ++ (c.sendNow m).2.sendEachDeeds rest

/-! ## The end of a client -/

def closeDeeds (c : Client) : List Link.Deed :=
  if c.closed then []
  else
    let link := c.link.breakOff .disposed
    .quit ::
      if c.config.shutdownTimeout = 0 then [.abort]
      else link.settleDeeds ++ if link.settle.hasStopped then [] else [.abort]

def disposeDeeds (c : Client) : List Link.Deed :=
  c.outgoing.entries.map (.abandon ·.1) ++
    c.link.exchange.clearMoves.map (.act 0 none ·) ++ [.quit]

/-! ## Runs -/

/-- What an event does before the loops run. -/
def reactDeeds (c : Client) : Event → List Link.Deed
  | .move (.receive handle key fired) =>
    c.vacateDeeds handle ++ (c.vacate handle).receiveDeeds handle key fired
  | .move (.next cursor handle single) =>
    c.actDeed (.next cursor handle single) ::
      match c.act (.next cursor handle single) with
      | (.absent, _) => []
      | (.busy, _) => []
      | (_, d) => d.withdrawDeeds handle
  | .move (.poll handle) => c.pollDeeds handle
  | .move (.cancel handle) => c.cancelDeeds handle
  | .move (.drop handle) => c.dropDeeds handle
  | .move move => [c.actDeed move]
  | .send handle m fired => c.sendDeeds handle m fired
  | .request handle m => c.requestDeeds handle m
  | .sendEach ms => c.sendEachDeeds ms
  | .close => c.closeDeeds
  | .dispose => c.disposeDeeds
  | .wire event => [.meet event]
  | .report => []
  | .pass _ => []

def stepDeeds (c : Client) (event : Event) : List Link.Deed :=
  c.reactDeeds event ++ (c.react event).2.link.settleDeeds

/-- What a run does to the link, deed by deed. -/
def journal (c : Client) : List Event → List Link.Deed
  | [] => []
  | event :: rest => c.stepDeeds event ++ (c.step event).2.journal rest

/-! ## Calm calls -/

theorem calm_actDeed (c : Client) (move : Exchange.Move Key) : (c.actDeed move).Calm := ⟨rfl, rfl⟩

theorem calm_withdrawDeeds (c : Client) (handle : ℕ) : ∀ d ∈ c.withdrawDeeds handle, d.Calm := by
  unfold withdrawDeeds
  split
  · exact List.forall_mem_singleton.mpr ⟨rfl, rfl⟩
  · simp

theorem calm_vacateDeeds (c : Client) (handle : ℕ) : ∀ d ∈ c.vacateDeeds handle, d.Calm := by
  refine List.forall_mem_append.mpr ⟨calm_withdrawDeeds c handle, ?_⟩
  split
  · exact List.forall_mem_singleton.mpr ⟨rfl, rfl⟩
  · simp

theorem calm_enteredDeeds (c : Client) (handle : ℕ) (p : Parcel) (request : Option Key)
    (entry : Outbox.Entry) : ∀ d ∈ c.enteredDeeds handle p request entry, d.Calm := by
  cases entry with
  | queued =>
    cases request with
    | none => simp [enteredDeeds]
    | some key => exact List.forall_mem_singleton.mpr (calm_actDeed ..)
  | waits => simp [enteredDeeds]
  | refused => exact List.forall_mem_singleton.mpr ⟨rfl, rfl⟩

/-- **What a caller does with the table** is calm. Only asking a call for progress
may bring its frame to the send queue. -/
theorem calm_moveDeeds (c : Client) {move : Exchange.Move Key}
    (hpoll : ∀ handle, move ≠ .poll handle) : ∀ d ∈ c.reactDeeds (.move move), d.Calm := by
  have hone : ∀ move, ∀ d ∈ [c.actDeed move], d.Calm :=
    fun move => List.forall_mem_singleton.mpr (calm_actDeed c move)
  cases move with
  | poll handle => exact absurd rfl (hpoll handle)
  | receive handle key fired =>
    refine List.forall_mem_append.mpr ⟨calm_vacateDeeds c handle, ?_⟩
    unfold receiveDeeds
    split
    · simp
    · exact List.forall_mem_singleton.mpr (calm_actDeed ..)
  | next cursor handle single =>
    refine List.forall_mem_cons.mpr ⟨calm_actDeed .., ?_⟩
    split
    · simp
    · simp
    · exact calm_withdrawDeeds _ handle
  | cancel handle =>
    show ∀ d ∈ c.cancelDeeds handle, d.Calm
    unfold cancelDeeds
    split
    · simp
    · exact hone _
  | drop handle =>
    show ∀ d ∈ c.dropDeeds handle, d.Calm
    unfold dropDeeds
    split
    · exact calm_withdrawDeeds c handle
    · exact hone _
  | openCursor cursor => exact hone (.openCursor cursor)
  | closeCursor cursor => exact hone (.closeCursor cursor)
  | tryNext cursor => exact hone (.tryNext cursor)
  | view handle => exact hone (.view handle)
  | clone handle copy => exact hone (.clone handle copy)
  | unwrap handle copies => exact hone (.unwrap handle copies)

/-! ## The journal says all -/

theorem link_withdraw (c : Client) (handle : ℕ) :
    (c.withdraw handle).link = c.link.after (c.withdrawDeeds handle) := by
  unfold withdraw withdrawDeeds
  cases c.outgoing.find? handle with
  | none => rfl
  | some call =>
    obtain ⟨m, stage⟩ := call
    cases stage <;> rfl

/-- Dropping the call of a number, if it has one, is a drop by that number. -/
theorem exchange_vacate (x : Exchange Key Message) (handle now : ℕ) :
    x.vacate handle =
      if x.calls.contains handle then (x.act now none (.drop handle)).2 else x := by
  unfold Exchange.act Exchange.drop
  by_cases hcall : x.calls.contains handle
  · simp [hcall]
  · have hnone : x.calls.find? handle = none := by
      simpa [Handles.contains] using hcall
    simp [hcall, Exchange.vacate, hnone]

theorem link_vacate (c : Client) (handle : ℕ) :
    (c.vacate handle).link = c.link.after (c.vacateDeeds handle) := by
  have hexchange : (c.withdraw handle).link.exchange = c.link.exchange := by
    unfold withdraw
    split <;> rfl
  unfold vacate vacateDeeds
  rw [Link.after_append, ← link_withdraw]
  simp only [exchange_vacate _ handle c.now, hexchange]
  split
  · rw [Link.after_cons, Link.after_nil, Link.perform, hexchange]
  · rw [← hexchange]
    rfl

theorem link_act (c : Client) (move : Exchange.Move Key) :
    (c.act move).2.link = c.link.after [c.actDeed move] := rfl

theorem link_receive (c : Client) (handle : ℕ) (key : Key) (fired : Option Bool) :
    (c.receive handle key fired).2.link = c.link.after (c.receiveDeeds handle key fired) := by
  unfold receive receiveDeeds
  cases keyFault? c.link.schema key with
  | some fault => rfl
  | none => rfl

theorem link_await (c : Client) (handle : ℕ) (m : Message) (move : Exchange.Move Key) :
    (c.await handle m move).2.link = c.link.after [c.actDeed move] := by
  rw [← link_act]
  unfold await
  split
  · next d hact => rw [hact]; rfl
  · next answer d _ hact => rw [hact]

/-- A frame was brought to the send queue by some deed `d`. -/
theorem link_entered {p : Parcel} {came : Outbox.Entry × Outbox} {d : Link.Deed}
    (hd : c.link.perform d = { c.link with outbox := came.2 }) :
    (c.entered handle m p fired request came).2.link =
      c.link.after (d :: c.enteredDeeds handle p request came.1) := by
  obtain ⟨entry, outbox⟩ := came
  rw [Link.after_cons, hd]
  cases entry with
  | queued =>
    cases request with
    | none => rfl
    | some key => exact link_await ..
  | waits => rfl
  | refused => rfl

theorem link_submit (c : Client) (handle : ℕ) (m : Message) (fired : Option Bool)
    (request : Option Key) : (c.submit handle m fired request).2.link =
      c.link.after (c.submitDeeds handle m fired request) := by
  unfold submit submitDeeds
  split
  · rfl
  · split
    · rfl
    · simp only [Link.after_cons]
      cases (c.link.codec.serialize c.requests m).outcome with
      | error fault => rfl
      | ok frame => exact link_entered rfl

theorem link_send (c : Client) (handle : ℕ) (m : Message) (fired : Option Bool) :
    (c.send handle m fired).2.link = c.link.after (c.sendDeeds handle m fired) := by
  rw [sendDeeds, Link.after_append, ← link_vacate, ← link_submit]
  rfl

theorem link_request (c : Client) (handle : ℕ) (m : Message) :
    (c.request handle m).2.link = c.link.after (c.requestDeeds handle m) := by
  rw [requestDeeds, Link.after_append, ← link_vacate]
  unfold Client.request
  dsimp only
  cases keyFault? (c.vacate handle).link.schema ((c.vacate handle).requests.keyOf m) with
  | some fault => rfl
  | none => exact link_submit ..

theorem link_poll (c : Client) (handle : ℕ) :
    (c.poll handle).2.link = c.link.after (c.pollDeeds handle) := by
  unfold poll pollDeeds
  cases c.outgoing.find? handle with
  | none => rfl
  | some call =>
    obtain ⟨m, stage⟩ := call
    cases stage with
    | answers => exact link_await ..
    | room p fired request =>
      dsimp only
      split
      · exact link_withdraw ..
      · exact link_entered (c := c.letGo handle) rfl

theorem link_cancel (c : Client) (handle : ℕ) :
    (c.cancel handle).2.link = c.link.after (c.cancelDeeds handle) := by
  unfold cancel cancelDeeds
  split
  · next m p request hroom => rw [hroom]; rfl
  · next other _ hother => rw [hother]; rfl
  · next hnone => rw [hnone]; rfl

theorem link_drop (c : Client) (handle : ℕ) :
    (c.drop handle).2.link = c.link.after (c.dropDeeds handle) := by
  unfold drop dropDeeds
  cases hfind : c.outgoing.find? handle with
  | none => rfl
  | some call =>
    obtain ⟨m, stage⟩ := call
    cases stage with
    | room p fired request => exact link_withdraw ..
    | answers => rfl

theorem sendNow_eq (c : Client) (m : Message) : c.sendNow m =
    match c.submit c.outgoing.unused m none none with
    | (.answer _, d) =>
      match d.settled.poll c.outgoing.unused with
      | (.answer answer, e) => (.answer answer, e.withdraw c.outgoing.unused)
      | ended => ended
    | ended => ended := rfl

theorem link_sendNow (c : Client) (m : Message) :
    (c.sendNow m).2.link = c.link.after (c.sendNowDeeds m) := by
  rw [sendNow_eq, sendNowDeeds, Link.after_append, ← link_submit]
  obtain ⟨reply, d⟩ := c.submit c.outgoing.unused m none none
  cases reply with
  | answer _ =>
    simp only [Link.after_append, ← Link.settle_eq_after]
    show _ = (d.settled.link.after _).after _
    rw [← link_poll]
    obtain ⟨reply, e⟩ := d.settled.poll c.outgoing.unused
    cases reply with
    | answer _ => exact link_withdraw ..
    | sending _ _ => rfl
    | each _ => rfl
    | shown _ => rfl
  | sending _ _ => rfl
  | each _ => rfl
  | shown _ => rfl

theorem link_sendEach (c : Client) (ms : List Message) :
    (c.sendEach ms).2.link = c.link.after (c.sendEachDeeds ms) := by
  induction ms generalizing c with
  | nil => rfl
  | cons m rest ih =>
    rw [sendEachDeeds, Link.after_append, ← link_sendNow, ← ih]
    rfl

theorem link_close (c : Client) : c.close.link = c.link.after c.closeDeeds := by
  have hbroken : (c.link.breakOff .disposed).isBroken = true := Link.isBroken_breakOff ..
  unfold close closeDeeds
  split
  · rfl
  · rw [Link.after_cons]
    show _ = (c.link.breakOff .disposed).after _
    dsimp only
    split
    · rw [Link.after_cons, Link.after_nil, Link.perform, if_pos hbroken]
    · rw [Link.after_append, ← Link.settle_eq_after]
      split
      · rfl
      · have hstill : (c.link.breakOff .disposed).settle.isBroken = true := by
          rw [Link.settle_eq_after]
          exact Link.isBroken_after hbroken _
        rw [Link.after_cons, Link.after_nil, Link.perform, if_pos hstill]

theorem foldl_abandon (entries : List (ℕ × Outgoing)) (l : Link) :
    { l with outbox := entries.foldl (fun o (handle, _) => o.abandon handle) l.outbox } =
      l.after (entries.map (.abandon ·.1)) := by
  induction entries generalizing l with
  | nil => rfl
  | cons entry rest ih => exact ih (l.perform (.abandon entry.1))

theorem foldl_act (moves : List (Exchange.Move Key)) (l : Link) :
    { l with exchange := moves.foldl (fun x move => (x.act 0 none move).2) l.exchange } =
      l.after (moves.map (.act 0 none ·)) := by
  induction moves generalizing l with
  | nil => rfl
  | cons move rest ih => exact ih (l.perform (.act 0 none move))

theorem link_dispose (c : Client) : c.dispose.link = c.link.after c.disposeDeeds := by
  unfold dispose disposeDeeds
  rw [Link.after_append, Link.after_append, ← foldl_abandon, ← foldl_act]
  rfl

theorem link_react (c : Client) (event : Event) :
    (c.react event).2.link = c.link.after (c.reactDeeds event) := by
  cases event with
  | move move =>
    cases move with
    | receive handle key fired =>
      rw [reactDeeds, Link.after_append, ← link_vacate, ← link_receive]
      rfl
    | next cursor handle single =>
      simp only [react, reactDeeds, Link.after_cons]
      rw [← Link.after_nil (c.link.perform _), ← Link.after_cons, ← link_act]
      obtain ⟨answer, d⟩ := c.act (.next cursor handle single)
      cases answer <;> first | rfl | exact link_withdraw ..
    | poll handle => exact link_poll ..
    | cancel handle => exact link_cancel ..
    | drop handle => exact link_drop ..
    | _ => rfl
  | send handle m fired => exact link_send ..
  | request handle m => exact link_request ..
  | sendEach ms => exact link_sendEach ..
  | close => exact link_close ..
  | dispose => exact link_dispose ..
  | wire event => rfl
  | report => rfl
  | pass ms => rfl

theorem link_step (c : Client) (event : Event) :
    (c.step event).2.link = c.link.after (c.stepDeeds event) := by
  rw [stepDeeds, Link.after_append, ← link_react, ← Link.settle_eq_after]
  rfl

/-- **The journal of a run says all** that becomes of the link. -/
theorem link_run (c : Client) (events : List Event) :
    (c.run events).2.link = c.link.after (c.journal events) := by
  induction events generalizing c with
  | nil => rfl
  | cons event rest ih =>
    rw [journal, Link.after_append, ← link_step, ← ih]
    rfl

theorem run_append (c : Client) (p q : List Event) :
    (c.run (p ++ q)).2 = ((c.run p).2.run q).2 := by
  induction p generalizing c with
  | nil => rfl
  | cons event rest ih => exact ih (c.step event).2

/-! ## What no event changes -/

/-- What requests look like, and the codec, are the same. -/
structure SameMake (c d : Client) : Prop where
  requests : d.requests = c.requests
  link : c.link.SameMake d.link

@[simp] theorem requests_withdraw (c : Client) (handle : ℕ) :
    (c.withdraw handle).requests = c.requests := by
  unfold withdraw
  split <;> rfl

@[simp] theorem requests_vacate (c : Client) (handle : ℕ) :
    (c.vacate handle).requests = c.requests :=
  requests_withdraw c handle

@[simp] theorem requests_await (c : Client) (handle : ℕ) (m : Message)
    (move : Exchange.Move Key) : (c.await handle m move).2.requests = c.requests := by
  unfold await
  split
  · next d hact => exact congrArg (·.2.requests) hact.symm
  · next answer d _ hact => exact congrArg (·.2.requests) hact.symm

@[simp] theorem requests_entered (c : Client) (handle : ℕ) (m : Message) (p : Parcel)
    (fired : Option Bool) (request : Option Key) (came : Outbox.Entry × Outbox) :
    (c.entered handle m p fired request came).2.requests = c.requests := by
  obtain ⟨entry, outbox⟩ := came
  cases entry with
  | queued =>
    cases request with
    | none => rfl
    | some key => exact requests_await ..
  | waits => rfl
  | refused => rfl

@[simp] theorem requests_submit (c : Client) (handle : ℕ) (m : Message) (fired : Option Bool)
    (request : Option Key) : (c.submit handle m fired request).2.requests = c.requests := by
  unfold submit
  split
  · rfl
  · split
    · rfl
    · dsimp only
      split
      · rfl
      · rw [requests_entered]

@[simp] theorem requests_poll (c : Client) (handle : ℕ) :
    (c.poll handle).2.requests = c.requests := by
  unfold poll
  split
  · rfl
  · rw [requests_await]
    rfl
  · split
    · exact requests_withdraw c handle
    · rw [requests_entered]
      rfl

theorem requests_sendNow (c : Client) (m : Message) : (c.sendNow m).2.requests = c.requests := by
  have hsubmit := requests_submit c c.outgoing.unused m none none
  rw [sendNow_eq]
  generalize c.submit c.outgoing.unused m none none = told at hsubmit ⊢
  obtain ⟨reply, d⟩ := told
  cases reply with
  | answer _ =>
    have hpoll := requests_poll d.settled c.outgoing.unused
    dsimp only
    generalize d.settled.poll c.outgoing.unused = told at hpoll ⊢
    obtain ⟨reply, e⟩ := told
    have hsame : e.requests = c.requests := hpoll.trans hsubmit
    cases reply with
    | answer _ => rw [requests_withdraw, hsame]
    | _ => exact hsame
  | _ => exact hsubmit

theorem requests_sendEach (c : Client) (ms : List Message) :
    (c.sendEach ms).2.requests = c.requests := by
  induction ms generalizing c with
  | nil => rfl
  | cons m rest ih => exact (ih (c.sendNow m).2).trans (requests_sendNow c m)

theorem requests_react (c : Client) (event : Event) :
    (c.react event).2.requests = c.requests := by
  cases event with
  | move move =>
    cases move with
    | receive handle key fired =>
      simp only [react, Client.receive]
      split <;> exact requests_vacate c handle
    | next cursor handle single =>
      simp only [react]
      split
      · next d hact => exact congrArg (·.2.requests) hact.symm
      · next d hact => exact congrArg (·.2.requests) hact.symm
      · next answer d _ _ hact =>
        rw [requests_withdraw]
        exact congrArg (·.2.requests) hact.symm
    | poll handle => exact requests_poll c handle
    | cancel handle =>
      simp only [react, cancel]
      split <;> rfl
    | drop handle =>
      simp only [react, drop]
      split
      · exact requests_withdraw c handle
      · rfl
    | _ => rfl
  | send handle m fired => exact (requests_submit ..).trans (requests_vacate c handle)
  | request handle m =>
    simp only [react, Client.request]
    split
    · exact requests_vacate c handle
    · exact (requests_submit ..).trans (requests_vacate c handle)
  | sendEach ms => exact requests_sendEach c ms
  | close =>
    simp only [react, Client.close]
    split
    · rfl
    · split
      · rfl
      · split <;> rfl
  | _ => rfl

theorem sameMake_run (c : Client) (events : List Event) : c.SameMake (c.run events).2 where
  requests := by
    induction events generalizing c with
    | nil => rfl
    | cons event rest ih => exact (ih (c.step event).2).trans (requests_react c event)
  link := by
    rw [link_run]
    exact Link.sameMake_after ..

/-! ## Clients that were made -/

/-- **A client is made** with schemas that its codec was prepared for, on a link
on which nothing has happened. -/
theorem make_eq_ok {config : LinkConfig} {registry : Registry} {requests answers : Layout}
    (h : make config registry requests answers = .ok c) :
    ∃ s t, (Codec.mk registry config.maxBody.toNat).prepare requests = .ok s ∧
      (Codec.mk registry config.maxBody.toNat).prepareDecoder answers = .ok t ∧
      c = ⟨config, s, .new config ⟨registry, config.maxBody.toNat⟩ t, .empty, 0, 0, false⟩ := by
  unfold make at h
  dsimp only at h
  split at h
  · cases h
  · next s hs =>
    split at h
    · cases h
    · next t ht => exact ⟨s, t, hs, ht, (Except.ok.inj h).symm⟩

end Client

end FramedDuplex

namespace FramedDuplex.Client

/-- A client that sends parcels and receives parcels. -/
def ofParcels (config : LinkConfig) : Client :=
  ⟨config, Codec.parcelSchema, .new config Codec.standard Codec.parcelSchema, .empty, 0, 0, false⟩

theorem make_parcels (config : LinkConfig) (hbody : config.maxBody.toNat = Codec.defaultMaxBody) :
    make config .standard Codec.parcelLayout Codec.parcelLayout = .ok (ofParcels config) := by
  have writes : Codec.standard.prepare Codec.parcelLayout = .ok Codec.parcelSchema := by cbv
  have hcodec : (⟨.standard, config.maxBody.toNat⟩ : Codec) = Codec.standard := by
    rw [hbody]
    rfl
  simp only [make, hcodec, writes, Codec.prepareDecoder_parcel, ofParcels]

end FramedDuplex.Client
