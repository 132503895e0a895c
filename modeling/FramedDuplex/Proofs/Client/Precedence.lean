import FramedDuplex.Proofs.Client.Apart
import FramedDuplex.Proofs.Client.FailFast
import FramedDuplex.Proofs.Exchange.LetGo
/-!
# What decides a call that waits for answers

By the time a call is asked, several things may have happened to it at once: its
token was fired, answers came, the connection ended, its time ran out. The first of
these that did, in this order, decides what the caller is told
(`Client.Signs.verdict`), at the first question and at every later one
(`Client.Ranks`). A key that answers cannot have is refused before any of it.

There is one limit to it. A call that waits when the connection ends is told so then
and there, so what another caller puts back later is not for it
(`Client.end_outranks_returned_batch`). These are the calls that are told so, and no
others (`Client.RanksAfter`).
Until then a call that was told nothing has nothing ready under its key, and the
connection stands, so that the table need not look for either again.
-/

namespace FramedDuplex

variable [OwnTypes]

/-- The answers that a caller with a ticket can have: those that were sent to it and,
as long as it was told nothing, those that are ready under its key. -/
def Table.offer? {κ α : Type} [DecidableEq κ] (t : Table κ α) (key : κ) (ticket : ℕ) :
    Option (List α) :=
  match t.resolved.find? ticket with
  | some (.batch batch) => some batch.items
  | some (.broken _) => none
  | none => t.readyAt? key

namespace Client

variable {c : Client} {handle ticket : ℕ} {key : Key} {fired : Option Bool}
variable {deadline : Option ℕ} {reason : BrokenReason} {cause : ClientError}

/-- What may have happened to a call that waits for answers. -/
structure Signs where
  /-- Its token was fired. -/
  cancelled : Bool
  /-- The answers that it can have. -/
  batch : Option (List Message)
  /-- Why the connection ended. -/
  ended : Option BrokenReason
  /-- Its deadline has passed. -/
  late : Bool

/-- **What the call is told**: the first of the signs decides. -/
def Signs.verdict : Signs → Answer
  | ⟨true, _, _, _⟩ => .failed .cancelled
  | ⟨false, some items, _, _⟩ => .batch items
  | ⟨false, none, some reason, _⟩ => .failed (.connectionBroken reason)
  | ⟨false, none, none, true⟩ => .failed .timeout
  | ⟨false, none, none, false⟩ => .pending

/-- The signs for a call with a token and a deadline that can have some answers. -/
def signs (c : Client) (fired : Option Bool) (batch : Option (List Message))
    (deadline : Option ℕ) : Signs :=
  ⟨fired = some true, batch, c.link.lifecycle.reason, Exchange.passed c.now deadline⟩

/-- The call of a number waits for the answers under a key. -/
def Awaits (c : Client) (handle : ℕ) (key : Key) (ticket : ℕ) (fired : Option Bool)
    (deadline : Option ℕ) : Prop :=
  c.link.exchange.calls.find? handle = some (.receive key ticket fired deadline)

instance : Decidable (c.Awaits handle key ticket fired deadline) :=
  inferInstanceAs (Decidable (_ = _))

/-- Its message does not wait for room in the send queue. -/
theorem Awaits.queued (hawaits : c.Awaits handle key ticket fired deadline) (apart : c.Apart) :
    ∀ m p f r, c.outgoing.find? handle ≠ some ⟨m, .room p f r⟩ := by
  intro m p f r hfind
  have hnone := apart handle p r ⟨m, f, hfind⟩
  rw [Exchange.ticketAt_of_find? hawaits] at hnone
  cases hnone

/-! ## Keys -/

/-- A key of the type of the identifier is as it should be. -/
theorem keyFault?_of_eq {s : Schema} (h : key.type? = s.identifier?.map (·.2)) :
    keyFault? s key = none := by
  unfold keyFault?
  rw [h]
  cases s.identifier?.map (·.2) <;> simp

/-- **Every other key is refused**, and so is a key where there is no identifier or no
key where there is one. -/
theorem keyFault?_of_ne {s : Schema} (h : key.type? ≠ s.identifier?.map (·.2)) :
    ∃ text, keyFault? s key = some (.invalidKey text) := by
  unfold keyFault?
  cases hexpected : s.identifier?.map (·.2) with
  | none =>
    cases hactual : key.type? with
    | none => exact absurd (hactual.trans hexpected.symm) h
    | some actual => exact ⟨_, rfl⟩
  | some expected =>
    cases hactual : key.type? with
    | none => exact ⟨_, rfl⟩
    | some actual =>
      have hne : expected ≠ actual := by
        rintro rfl
        exact h (hactual.trans hexpected.symm)
      simp only [if_neg hne]
      exact ⟨_, rfl⟩

/-! ## The first question -/

/-- The answers that are ready decide, or the reason for which the table was broken. -/
theorem seek_eq_verdict (h : c.link.Agreed) (handle : ℕ) (key : Key) (fired : Option Bool)
    (deadline : Option ℕ) :
    (c.link.exchange.seek handle key fired deadline c.now).1 =
      (c.signs fired (c.link.exchange.table.readyAt? key) deadline).verdict := by
  by_cases hfired : fired = some true
  · simp [Exchange.seek, signs, Signs.verdict, hfired]
  · cases hready : c.link.exchange.table.readyAt? key with
    | some items => simp [Exchange.seek, signs, Signs.verdict, hready, hfired]
    | none =>
      cases hreason : c.link.lifecycle.reason with
      | some reason =>
        simp [Exchange.seek, signs, Signs.verdict, h.table, hready, hreason, hfired]
      | none =>
        cases hlate : Exchange.passed c.now deadline <;>
          simp [Exchange.seek, signs, Signs.verdict, h.table, hready, hreason, hlate, hfired]

/-- Dropping a call takes no time. -/
theorem vacate_clock (c : Client) (handle : ℕ) :
    (c.vacate handle).deadline = c.deadline ∧ (c.vacate handle).now = c.now := by
  unfold vacate withdraw
  split <;> exact ⟨rfl, rfl⟩

/-- A receive under a key of the right kind asks the table, when the call of its number
was dropped. -/
theorem react_receive (hkey : key.type? = c.link.schema.identifier?.map (·.2)) (handle : ℕ)
    (fired : Option Bool) :
    c.react (.move (.receive handle key fired)) =
      (.answer ((c.vacate handle).link.exchange.seek handle key fired c.deadline c.now).1,
        { c.vacate handle with link := { (c.vacate handle).link with
            exchange := ((c.vacate handle).link.exchange.seek handle key fired c.deadline
              c.now).2 } }) := by
  have hschema : (c.vacate handle).link.schema = c.link.schema := (vacate_same c handle).2.1
  obtain ⟨hdeadline, hnow⟩ := vacate_clock c handle
  have hagain : (c.vacate handle).link.exchange.vacate handle = (c.vacate handle).link.exchange :=
    Exchange.vacate_vacate ..
  simp only [react, Client.receive, hschema, keyFault?_of_eq hkey, act, Exchange.act,
    Exchange.receive, hagain, hdeadline, hnow]

/-! ## Later questions -/

/-- A call that has to be asked was told of the end if it has come, and has else nothing
ready. -/
theorem pollReceive_eq_verdict (h : c.link.Agreed)
    (hopen : c.link.exchange.Unanswered handle key ticket →
      c.link.exchange.table.readyAt? key = none ∧ c.link.exchange.table.broken = none)
    (hcall : c.link.exchange.calls.find? handle = some (.receive key ticket fired deadline)) :
    (c.link.exchange.pollReceive handle key ticket fired deadline c.now).1 =
      (c.signs fired (c.link.exchange.table.offer? key ticket) deadline).verdict := by
  have hticket : c.link.exchange.ticketAt handle = some (key, ticket) := by
    simp [Exchange.ticketAt, hcall]
  by_cases hfired : fired = some true
  · simp [Exchange.pollReceive, signs, Signs.verdict, hfired]
  · cases htold : c.link.exchange.table.resolved.find? ticket with
    | none =>
      obtain ⟨hnone, hstands⟩ := hopen ⟨hticket, htold⟩
      have hreason : c.link.lifecycle.reason = none := h.table ▸ hstands
      cases hlate : Exchange.passed c.now deadline <;>
        simp [Exchange.pollReceive, signs, Signs.verdict, Table.offer?, htold, hnone, hreason,
          hlate, hfired]
    | some told =>
      cases told with
      | batch batch =>
        simp [Exchange.pollReceive, signs, Signs.verdict, Table.offer?, htold, hfired]
      | broken first =>
        have hreason : c.link.lifecycle.reason = some first := h.told ticket first htold
        simp [Exchange.pollReceive, signs, Signs.verdict, Table.offer?, htold, hreason, hfired]

/-- A call that is asked asks the table. -/
theorem act_poll_eq
    (hcall : c.link.exchange.calls.find? handle = some (.receive key ticket fired deadline)) :
    c.link.exchange.act c.now c.deadline (.poll handle) =
      c.link.exchange.pollReceive handle key ticket fired deadline c.now := by
  rw [Exchange.act, Exchange.poll, hcall]

/-- When it has its answer, the client keeps nothing of it. -/
theorem react_poll_of_failed
    (hqueued : ∀ m p f r, c.outgoing.find? handle ≠ some ⟨m, .room p f r⟩)
    (hfailed : (c.act (.poll handle)).1 = .failed cause) :
    (c.react (.move (.poll handle))).2 = ((c.letGo handle).act (.poll handle)).2 := by
  have hsame : ((c.letGo handle).act (.poll handle)).1 = (c.act (.poll handle)).1 := rfl
  simp only [react, poll]
  cases hfind : c.outgoing.find? handle with
  | none =>
    have hkept : c.letGo handle = c := by
      rw [letGo, Handles.erase_of_find?_eq_none hfind]
    rw [hkept]
  | some call =>
    obtain ⟨m, stage⟩ := call
    cases stage with
    | room p f r => exact absurd hfind (hqueued m p f r)
    | answers =>
      simp only [await]
      split
      · next hact =>
        rw [← hsame, hact] at hfailed
        cases hfailed
      · next hact => rw [hact]

/-- When no message of it was sent, it is told what the table answers. -/
theorem react_poll_of_unsent (h : c.outgoing.find? handle = none) :
    (c.react (.move (.poll handle))).1 = .answer (c.act (.poll handle)).1 := by
  simp only [react, poll, h]

/-! ## All of it -/

/-- **What comes first decides.** A number that has a call already drops it first. -/
structure Ranks (c : Client) : Prop where
  /-- A key that answers cannot have is refused before anything else is looked at, and
  nothing is done. -/
  refused : ∀ handle key fired, key.type? ≠ c.link.schema.identifier?.map (·.2) →
    ∃ text, c.receive handle key fired = (.failed (.invalidKey text), c) ∧
      c.react (.move (.receive handle key fired)) =
        (.answer (.failed (.invalidKey text)), c.vacate handle)
  /-- At the first question the signs decide. -/
  begins : ∀ handle key fired, key.type? = c.link.schema.identifier?.map (·.2) →
    (c.react (.move (.receive handle key fired))).1 = .answer
      (c.signs fired ((c.vacate handle).link.exchange.table.readyAt? key) c.deadline).verdict
  /-- A call that fails at once was never registered. -/
  stays : ∀ handle key fired cause, key.type? = c.link.schema.identifier?.map (·.2) →
    (c.react (.move (.receive handle key fired))).1 = .answer (.failed cause) →
      (c.react (.move (.receive handle key fired))).2 = c.vacate handle
  /-- A call that is told to wait keeps its token, and its deadline from then on. -/
  parks : ∀ handle key fired, key.type? = c.link.schema.identifier?.map (·.2) →
    (c.react (.move (.receive handle key fired))).1 = .answer .pending →
      ∃ ticket,
        (c.react (.move (.receive handle key fired))).2.Awaits handle key ticket fired c.deadline
  /-- At every later question the signs decide. -/
  asked : ∀ handle key ticket fired deadline, c.Awaits handle key ticket fired deadline →
    (c.react (.move (.poll handle))).1.Gives
      (c.signs fired (c.link.exchange.table.offer? key ticket) deadline).verdict
  /-- Who was told of the end was told so for its reason. -/
  told : ∀ ticket reason, c.link.exchange.table.resolved.find? ticket = some (.broken reason) →
    c.link.lifecycle.reason = some reason
  /-- A call that fails is let go; nothing else becomes of the connection. -/
  leaves : ∀ handle key ticket fired deadline cause, c.Awaits handle key ticket fired deadline →
    (c.react (.move (.poll handle))).1.Gives (.failed cause) →
      ∃ exchange, c.link.exchange.LetsGo exchange handle key ticket ∧
        (c.react (.move (.poll handle))).2 =
          { c.letGo handle with link := { c.link with exchange } }

theorem Reply.Gives.unique {reply : Reply} {a b : Answer} (ha : reply.Gives a)
    (hb : reply.Gives b) : a = b := by
  rcases ha with rfl | ⟨m, rfl⟩ <;> rcases hb with hb | ⟨m', hb⟩ <;> cases hb <;> rfl

theorem ranks (h : c.link.Agreed) (apart : c.Apart) {events : List (Exchange.Event Key Message)}
    (hexchange : c.link.exchange = (Exchange.run .empty events).2) : c.Ranks where
  refused handle key fired hkey := by
    obtain ⟨text, hfault⟩ := keyFault?_of_ne hkey
    have hschema : (c.vacate handle).link.schema = c.link.schema := (vacate_same c handle).2.1
    refine ⟨text, ?_, ?_⟩
    · simp only [Client.receive, hfault]
    · simp only [react, Client.receive, hschema, hfault]
  begins handle key fired hkey := by
    have hdecides := seek_eq_verdict (agreed_vacate h handle) handle key fired c.deadline
    have hnow := (vacate_clock c handle).2
    rw [react_receive hkey, ← hnow, hdecides, signs, signs, (vacate_same c handle).1, hnow]
  stays handle key fired cause hkey hfailed := by
    rw [react_receive hkey] at hfailed ⊢
    rw [Exchange.seek_of_failed (Reply.answer.inj hfailed)]
  parks handle key fired hkey hpending := by
    rw [react_receive hkey] at hpending ⊢
    refine ⟨(c.vacate handle).link.exchange.table.nextTicket, ?_⟩
    show Handles.find? _ _ = _
    rw [Exchange.seek_of_pending (Reply.answer.inj hpending)]
    exact Handles.find?_insert_self ..
  asked handle key ticket fired deadline hawaits := by
    have hopen : c.link.exchange.Unanswered handle key ticket →
        c.link.exchange.table.readyAt? key = none ∧ c.link.exchange.table.broken = none := by
      rw [hexchange]
      exact fun hun => Exchange.alone_of_waits (Exchange.waits_run hun)
    have hgives := gives_poll (hawaits.queued apart)
    rwa [act, act_poll_eq hawaits, pollReceive_eq_verdict h hopen hawaits] at hgives
  told := h.told
  leaves handle key ticket fired deadline cause hawaits hfailed := by
    have hanswer : (c.act (.poll handle)).1 = .failed cause :=
      (gives_poll (hawaits.queued apart)).unique hfailed
    have hquit : (c.link.exchange.act c.now c.deadline (.poll handle)).2 =
        c.link.exchange.quit handle key ticket := by
      rw [act, act_poll_eq hawaits] at hanswer
      rw [act_poll_eq hawaits, Exchange.pollReceive_of_failed hanswer]
    refine ⟨c.link.exchange.quit handle key ticket, Exchange.letsGo_quit hexchange .., ?_⟩
    rw [react_poll_of_failed (hawaits.queued apart) hanswer]
    show { c.letGo handle with link := { c.link with
      exchange := (c.link.exchange.act c.now c.deadline (.poll handle)).2 } } = _
    rw [hquit]

/-- What comes first decides after a run, and those who are told of the end are those who
waited when it came. -/
structure RanksAfter (c : Client) (events : List Event) : Prop where
  ranks : (c.run events).2.Ranks
  /-- Who was told of the end waited when it came. -/
  waited : ∀ ticket reason,
    (c.run events).2.link.exchange.table.resolved.find? ticket = some (.broken reason) →
      ∃ p d key, p ++ [d] <+: c.journal events ∧ (c.link.after p).lifecycle.reason = none ∧
        (c.link.after (p ++ [d])).lifecycle.reason = some reason ∧
          (c.link.after p).exchange.table.Waits key ticket
  /-- Who waited when the end came was told of it, as long as the call is not over, and
  hears it at the next question unless its token was fired: whatever is ready by then. -/
  failed : ∀ p d key ticket reason, p ++ [d] <+: c.journal events →
    (c.link.after p).lifecycle.reason = none →
      (c.link.after (p ++ [d])).lifecycle.reason = some reason →
        (c.link.after p).exchange.table.Waits key ticket →
          ∀ handle fired deadline, (c.run events).2.Awaits handle key ticket fired deadline →
            (c.run events).2.link.exchange.table.resolved.find? ticket = some (.broken reason) ∧
              ((c.run events).2.react (.move (.poll handle))).1.Gives
                (.failed (if fired = some true then .cancelled else .connectionBroken reason))

/-- A call that was told of the end hears it. -/
theorem Ranks.gives_of_told (ranks : c.Ranks)
    (hawaits : c.Awaits handle key ticket fired deadline)
    (htold : c.link.exchange.table.resolved.find? ticket = some (.broken reason)) :
    (c.react (.move (.poll handle))).1.Gives
      (.failed (if fired = some true then .cancelled else .connectionBroken reason)) := by
  have hgives := ranks.asked handle key ticket fired deadline hawaits
  have hoffer : c.link.exchange.table.offer? key ticket = none := by
    simp only [Table.offer?, htold]
  have hended := ranks.told ticket reason htold
  by_cases hfired : fired = some true <;>
    simpa [signs, Signs.verdict, hoffer, hended, hfired] using hgives

/-- A call that waited when the end came was told of it, and is not told anything else. -/
theorem told_run {p : List Link.Deed} {d : Link.Deed} (hagreed : c.link.Agreed)
    (hfresh : c.link.exchange = .empty) (events : List Event)
    (hjournal : p ++ [d] <+: c.journal events) (hopen : (c.link.after p).lifecycle.reason = none)
    (hover : (c.link.after (p ++ [d])).lifecycle.reason = some reason)
    (hwaits : (c.link.after p).exchange.table.Waits key ticket)
    (hawaits : (c.run events).2.Awaits handle key ticket fired deadline) :
    (c.run events).2.link.exchange.table.resolved.find? ticket = some (.broken reason) := by
  obtain ⟨rest, hrest⟩ := hjournal
  have hlink := link_run c events
  have hexchange := Link.exchange_after c.link (c.journal events)
  rw [hfresh, ← hlink] at hexchange
  rw [← hrest, Link.after_append] at hlink
  have ended := hagreed.after (p ++ [d])
  have hbroken := Link.isBroken_of_reason hover
  have still := Link.still_after ended hbroken rest
  rw [Link.after_concat] at hover
  have htold := Link.told_of_waits hopen hover hwaits
  rw [← Link.after_concat] at htold
  cases hfind : (c.run events).2.link.exchange.table.resolved.find? ticket with
  | none =>
    -- else it would wait still, and nobody does
    have hticket : (c.run events).2.link.exchange.ticketAt handle = some (key, ticket) :=
      Exchange.ticketAt_of_find? hawaits
    have hunanswered : (c.run events).2.link.exchange.Unanswered handle key ticket :=
      ⟨hticket, hfind⟩
    rw [hexchange] at hunanswered
    have hstill := Exchange.waits_run hunanswered
    rw [← hexchange, Table.Waits, hlink, (ended.after rest).nobody (Link.isBroken_after hbroken rest)]
      at hstill
    cases hstill
  | some told =>
    rw [hlink] at hfind
    exact (still.resolved ticket told hfind).symm.trans htold

/-- A client that has sent nothing keeps no calls. -/
theorem apart_of_empty (h : c.outgoing = .empty) : c.Apart :=
  fun _ p request hin => absurd hin (not_inRoom_of_none (by rw [h]; rfl) p request)

theorem ranksAfter_of_fresh (hfresh : c.link.exchange = .empty) (hagreed : c.link.Agreed)
    (apart : c.Apart) (events : List Event) : c.RanksAfter events := by
  have hlink := link_run c events
  have hexchange := Link.exchange_after c.link (c.journal events)
  rw [hfresh, ← hlink] at hexchange
  have hranks := ranks (hlink ▸ hagreed.after _) (apart.run events) hexchange
  refine ⟨hranks, fun ticket reason htold => ?_, ?_⟩
  · rw [hlink] at htold
    refine Link.waited_of_told (fun first => ?_) htold
    simp [hfresh, Exchange.empty, Table.empty]
  · intro p d key ticket reason hjournal hopen hover hwaits handle fired deadline hawaits
    have htold := told_run hagreed hfresh events hjournal hopen hover hwaits hawaits
    exact ⟨htold, hranks.gives_of_told hawaits htold⟩

/-- **In every state of every client what comes first decides.** -/
theorem ranksAfter_of_make {config : LinkConfig} {registry : Registry} {requests answers : Layout}
    (made : make config registry requests answers = .ok c) (events : List Event) :
    c.RanksAfter events := by
  obtain ⟨s, t, -, -, rfl⟩ := make_eq_ok made
  exact ranksAfter_of_fresh rfl (Link.agreed_new ..) (apart_of_empty rfl) events

end Client

end FramedDuplex

namespace FramedDuplex.Client

/-- The key of the parcels in what follows. -/
def parcelKey : Key := .of ⟨.scalar (.int ⟨.w8, false⟩), 8#8⟩

/-- A call waits for a parcel, which comes; then its token is fired, the client is
closed, and the call's time runs out. -/
def allAtOnce : List Event :=
  [.move (.receive 0 parcelKey (some false)), .wire (.feed [8, 2, 67, 1]), .move (.cancel 0),
    .close, .pass 60000]

/-- All that can happen to it has happened, and it was cancelled. -/
theorem ranksAfter_parcels :
    ∃ c, make ((LinkConfig.new LinkConfig.defaultAddr).withReceiveTimeout 5000) .standard
        Codec.parcelLayout Codec.parcelLayout = .ok c ∧
      let d := (c.run allAtOnce).2
      d.Awaits 0 parcelKey 0 (some true) (some 5000) ∧
        (d.link.exchange.table.offer? parcelKey 0).isSome = true ∧
        d.link.lifecycle.reason = some .disposed ∧
        Exchange.passed d.now (some 5000) = true ∧
        (d.react (.move (.poll 0))).1.Gives (.failed .cancelled) ∧ c.RanksAfter allAtOnce := by
  have made := make_parcels ((LinkConfig.new LinkConfig.defaultAddr).withReceiveTimeout 5000) rfl
  have hranks := ranksAfter_of_make made allAtOnce
  have hasked := hranks.ranks.asked 0 parcelKey 0 (some true) (some 5000) (by decide +kernel)
  exact ⟨_, made, by decide +kernel, by decide +kernel, by decide +kernel, by decide +kernel,
    hasked, hranks⟩

/-- A parcel comes for one call while another begins to wait, the client is closed, and
the first call is dropped. -/
def returnedLate : List Event :=
  [.move (.receive 0 parcelKey none), .wire (.feed [8, 2, 67, 1]), .move (.receive 1 parcelKey none),
    .close, .move (.drop 0)]

/-- **What is put back is not for a call that was told of the end.** The parcel of the call
that was dropped is ready again, and the second call is told that the connection has
ended. -/
theorem end_outranks_returned_batch :
    ∃ c, make (.new LinkConfig.defaultAddr) .standard Codec.parcelLayout Codec.parcelLayout = .ok c ∧
      let d := (c.run returnedLate).2
      d.Awaits 1 parcelKey 1 none none ∧
        (d.link.exchange.table.readyAt? parcelKey).isSome = true ∧
        (d.react (.move (.poll 1))).1 = .answer (.failed (.connectionBroken .disposed)) := by
  have made := make_parcels (.new LinkConfig.defaultAddr) rfl
  set c := ofParcels (.new LinkConfig.defaultAddr)
  have hranks : c.RanksAfter returnedLate :=
    ranksAfter_of_fresh rfl (Link.agreed_new ..) (apart_of_empty rfl) returnedLate
  have hawaits : (c.run returnedLate).2.Awaits 1 parcelKey 1 none none := by decide +kernel
  have hgives := hranks.ranks.asked 1 parcelKey 1 none none hawaits
  have hoffer : (c.run returnedLate).2.link.exchange.table.offer? parcelKey 1 = none :=
    Option.isNone_iff_eq_none.mp (by decide +kernel)
  have hended : (c.run returnedLate).2.link.lifecycle.reason = some .disposed := by decide +kernel
  simp only [signs, hoffer, hended] at hgives
  have hreply : ((c.run returnedLate).2.react (.move (.poll 1))).1 =
      .answer ((c.run returnedLate).2.act (.poll 1)).1 :=
    react_poll_of_unsent (Option.isNone_iff_eq_none.mp (by decide +kernel))
  refine ⟨c, made, hawaits, by decide +kernel, ?_⟩
  rw [hreply, Reply.Gives.unique (.inl hreply) hgives]
  rfl

end FramedDuplex.Client
