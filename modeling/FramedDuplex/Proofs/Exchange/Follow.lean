import FramedDuplex.Proofs.Exchange.Journal
import FramedDuplex.Proofs.Exchange.Sound
/-!
# Boards that follow an exchange

The board that follows the journal of a run has the table of the exchange, and
its callers are the calls that wait for a key (`Board.Follows`). So every journal
is permitted, and what is proved of boards holds of exchanges
(`Exchange.follows_run`). Each operation of the exchange is shown to lead from
the exchange before it to the one after it (`Exchange.Leads`); a run puts these
together.
-/

namespace FramedDuplex

variable {κ α : Type} [DecidableEq κ] {b c : Board κ α} {x y z : Exchange κ (Letter κ α)}
variable {p q : List (Deed κ α)} {handle : ℕ} {key : κ} {ticket : ℕ}
variable {fired : Option Bool} {deadline : Option ℕ} {now : ℕ} {single : Bool}

/-- A board has the table of an exchange and its waiting calls for callers, each
with a ticket of its own. -/
structure Board.Follows (b : Board κ α) (x : Exchange κ (Letter κ α)) : Prop where
  table : b.table = x.table
  callers : ∀ key ticket, (key, ticket) ∈ b.callers ↔
    ∃ handle, x.ticketAt handle = some (key, ticket)
  apart : ∀ handle other key k ticket, x.ticketAt handle = some (key, ticket) →
    x.ticketAt other = some (k, ticket) → handle = other

/-- **Deeds lead from one exchange to another**: a board that follows the first
permits them, and follows the second after them. None of them delivers a
message. -/
def Exchange.Leads (x : Exchange κ (Letter κ α)) (p : List (Deed κ α))
    (y : Exchange κ (Letter κ α)) : Prop :=
  ∀ b : Board κ α, b.Sound → b.Follows x →
    b.Permits p ∧ (b.after p).Follows y ∧ (b.after p).delivered = b.delivered

namespace Board.Follows

omit [DecidableEq κ] in
theorem empty : (Board.empty : Board κ α).Follows Exchange.empty where
  table := rfl
  callers key ticket := by simp [Board.empty, Exchange.ticketAt, Exchange.empty]
  apart handle other key k ticket h := by simp [Exchange.ticketAt, Exchange.empty] at h

omit [DecidableEq κ] in
/-- No call starts or ends. -/
theorem congr (h : b.Follows x) (htable : c.table = y.table) (hcallers : c.callers = b.callers)
    (htickets : ∀ n, y.ticketAt n = x.ticketAt n) : c.Follows y where
  table := htable
  callers k i := by simp only [hcallers, htickets, h.callers]
  apart n m k k' i hn hm := h.apart n m k k' i (htickets n ▸ hn) (htickets m ▸ hm)

omit [DecidableEq κ] in
/-- A call ends. -/
theorem ended (h : b.Follows x) (hcall : x.ticketAt handle = some (key, ticket))
    (htable : c.table = y.table) (hcallers : c.callers = b.callers.filter (·.2 ≠ ticket))
    (htickets : ∀ n, y.ticketAt n = if n = handle then none else x.ticketAt n) :
    c.Follows y where
  table := htable
  callers k i := by
    rw [hcallers, List.mem_filter, h.callers]
    constructor
    · rintro ⟨⟨n, hn⟩, hne⟩
      have hother : n ≠ handle := by
        rintro rfl
        obtain ⟨-, rfl⟩ : key = k ∧ ticket = i := by simpa using hcall.symm.trans hn
        simp at hne
      exact ⟨n, by rw [htickets, if_neg hother, hn]⟩
    · rintro ⟨n, hn⟩
      rw [htickets] at hn
      split at hn
      · simp at hn
      -- another call has another ticket
      · next hother =>
        refine ⟨⟨n, hn⟩, ?_⟩
        have hne : i ≠ ticket := by
          rintro rfl
          exact hother (h.apart n handle k key i hn hcall)
        simpa using hne
  apart n m k k' i hn hm := by
    rw [htickets] at hn hm
    split at hn
    · simp at hn
    · split at hm
      · simp at hm
      · exact h.apart n m k k' i hn hm

/-- A call starts, with a new ticket. -/
theorem started (h : b.Follows x) (hb : b.Sound) (hnone : x.ticketAt handle = none)
    (htable : c.table = y.table)
    (hcallers : c.callers = b.callers ++ [(key, b.table.nextTicket)])
    (htickets : ∀ n, y.ticketAt n =
      if n = handle then some (key, b.table.nextTicket) else x.ticketAt n) :
    c.Follows y := by
  have fresh : ∀ n k, x.ticketAt n ≠ some (k, b.table.nextTicket) := fun n k hn =>
    Nat.lt_irrefl _ (hb.manned.early k _ ((h.callers k _).mpr ⟨n, hn⟩))
  refine ⟨htable, fun k i => ?_, fun n m k k' i hn hm => ?_⟩
  · rw [hcallers, List.mem_append, h.callers, List.mem_singleton]
    constructor
    · rintro (⟨n, hn⟩ | hnew)
      · have hother : n ≠ handle := by
          rintro rfl
          simp [hnone] at hn
        exact ⟨n, by rw [htickets, if_neg hother, hn]⟩
      · exact ⟨handle, by rw [htickets, if_pos rfl, hnew]⟩
    · rintro ⟨n, hn⟩
      rw [htickets] at hn
      split at hn
      · exact .inr (Option.some.inj hn).symm
      · exact .inl ⟨n, hn⟩
  · rw [htickets] at hn hm
    split at hn <;> split at hm
    · next hn' hm' => rw [hn', hm']
    · obtain ⟨-, rfl⟩ : key = k ∧ b.table.nextTicket = i := by simpa using hn
      exact absurd hm (fresh m k')
    · obtain ⟨-, rfl⟩ : key = k' ∧ b.table.nextTicket = i := by simpa using hm
      exact absurd hn (fresh n k)
    · exact h.apart n m k k' i hn hm

end Board.Follows

namespace Exchange

/-! ## Calls by their numbers -/

omit [DecidableEq κ] in
theorem ticketAt_of_find? {β : Type} {x : Exchange κ β}
    (h : x.calls.find? handle = some (.receive key ticket fired deadline)) :
    x.ticketAt handle = some (key, ticket) := by
  simp [ticketAt, h]

omit [DecidableEq κ] in
theorem call_of_ticketAt {β : Type} {x : Exchange κ β} (h : x.ticketAt handle = some (key, ticket)) :
    ∃ fired deadline, x.calls.find? handle = some (.receive key ticket fired deadline) := by
  unfold ticketAt at h
  cases hcall : x.calls.find? handle with
  | none => simp [hcall] at h
  | some call =>
    cases call with
    | next serial single woken => simp [hcall] at h
    | receive k i fired deadline =>
      obtain ⟨rfl, rfl⟩ : k = key ∧ i = ticket := by simpa [hcall] using h
      exact ⟨fired, deadline, rfl⟩

omit [DecidableEq κ] in
@[simp] theorem ticketAt_wake (x : Exchange κ α) (n : ℕ) : x.wake.ticketAt n = x.ticketAt n := by
  simp only [ticketAt, wake, Handles.find?_map]
  cases x.calls.find? n with
  | none => rfl
  | some call => cases call <;> rfl

omit [DecidableEq κ] in
@[simp] theorem ticketAt_settleTable (x : Exchange κ α) (t : Table κ α × Bool) (n : ℕ) :
    (x.settleTable t).ticketAt n = x.ticketAt n := by
  obtain ⟨table, became⟩ := t
  cases became
  · rfl
  · exact ticketAt_wake _ n

omit [DecidableEq κ] in
@[simp] theorem table_settleTable (x : Exchange κ α) (t : Table κ α × Bool) :
    (x.settleTable t).table = t.1 := by
  obtain ⟨table, became⟩ := t
  cases became <;> rfl

omit [DecidableEq κ] in
theorem ticketAt_erase (x : Exchange κ α) (handle n : ℕ) :
    ({ x with calls := x.calls.erase handle } : Exchange κ α).ticketAt n =
      if n = handle then none else x.ticketAt n := by
  simp only [ticketAt, Handles.find?_erase]
  split <;> rfl

theorem ticketAt_quit (x : Exchange κ α) (n : ℕ) :
    (x.quit handle key ticket).ticketAt n = if n = handle then none else x.ticketAt n := by
  rw [quit, ticketAt_settleTable, ticketAt_erase]

/-- A number whose call was dropped has no call. -/
theorem ticketAt_vacate (x : Exchange κ α) (handle : ℕ) :
    (x.vacate handle).ticketAt handle = none := by
  unfold vacate
  split
  · rw [ticketAt_quit, if_pos rfl]
  · rw [ticketAt_erase, if_pos rfl]
  · next h => simp [ticketAt, h]

/-! ## From one exchange to another -/

namespace Leads

theorem refl (x : Exchange κ (Letter κ α)) : x.Leads [] x :=
  fun _ _ h => ⟨trivial, h, rfl⟩

/-- **Journals are put together.** -/
theorem trans (hp : x.Leads p y) (hq : y.Leads q z) : x.Leads (p ++ q) z := by
  intro b hb h
  obtain ⟨hpermits, hfollows, hsame⟩ := hp b hb h
  obtain ⟨hpermits', hfollows', hsame'⟩ :=
    hq _ (hpermits.keeps hb fun _ _ => Board.Sound.perform) hfollows
  rw [Board.after_append]
  exact ⟨Board.permits_append.mpr ⟨hpermits, hpermits'⟩, hfollows', hsame'.trans hsame⟩

/-- The table stays as it is and so do the calls that wait for a key. -/
theorem of_same (htable : y.table = x.table) (htickets : ∀ n, y.ticketAt n = x.ticketAt n) :
    x.Leads [] y :=
  fun _ _ h => ⟨trivial, h.congr (h.table.trans htable.symm) rfl htickets, rfl⟩

/-- A deed of nobody who waits. -/
theorem of_deed {d : Deed κ α} (hd : ∀ b : Board κ α, b.table = x.table → b.Allows d)
    (htable : ∀ b : Board κ α, b.table = x.table → (b.perform d).table = y.table)
    (hcallers : ∀ b : Board κ α, (b.perform d).callers = b.callers)
    (hdelivered : ∀ b : Board κ α, (b.perform d).delivered = b.delivered)
    (htickets : ∀ n, y.ticketAt n = x.ticketAt n) : x.Leads [d] y :=
  fun b _ h => ⟨⟨hd b h.table, trivial⟩, h.congr (htable b h.table) (hcallers b) htickets,
    hdelivered b⟩

/-- A call is let go. -/
theorem quit (hcall : x.ticketAt handle = some (key, ticket)) :
    x.Leads [.leave key ticket] (x.quit handle key ticket) := by
  intro b _ h
  refine ⟨⟨(h.callers key ticket).mpr ⟨handle, hcall⟩, trivial⟩,
    h.ended hcall ?_ rfl fun n => ticketAt_quit x n, rfl⟩
  rw [Exchange.quit, table_settleTable]
  exact congrArg (fun t => (t.leave key ticket).1) h.table

/-- The call of a number is dropped. -/
theorem vacate (x : Exchange κ (Letter κ α)) (handle : ℕ) :
    x.Leads (x.vacateDeeds handle) (x.vacate handle) := by
  unfold vacateDeeds Exchange.vacate
  cases hcall : x.calls.find? handle with
  | none =>
    simp only [ticketAt, hcall]
    exact refl x
  | some call =>
    cases call with
    | receive k i fired deadline =>
      have hticket := ticketAt_of_find? hcall
      simp only [hticket]
      exact quit hticket
    | next serial single woken =>
      have hticket : x.ticketAt handle = none := by simp [ticketAt, hcall]
      simp only [hticket]
      refine of_same rfl fun n => ?_
      rw [ticketAt_erase]
      split
      · next hn => rw [hn, hticket]
      · rfl

/-- A call under a key asks for the first time. -/
theorem seek (hnone : x.ticketAt handle = none) :
    x.Leads (x.seekDeeds handle key fired deadline now)
      (x.seek handle key fired deadline now).2 := by
  unfold seekDeeds Exchange.seek
  split
  · exact refl x
  · cases hready : x.table.readyAt? key with
    | some items =>
      refine of_deed (fun b hb => ?_) (fun b hb => ?_) (fun _ => rfl) (fun _ => rfl)
        fun _ => rfl
      · rwa [Board.Allows, hb]
      · rw [Board.perform, hb]
    | none =>
      cases hbroken : x.table.broken with
      | some reason => exact refl x
      | none =>
        by_cases hpassed : passed now deadline
        · simp only [hpassed, if_true]
          exact refl x
        · simp only [hpassed, Bool.false_eq_true, if_false]
          intro b hb h
          refine ⟨⟨trivial, trivial⟩, h.started hb hnone ?_ rfl fun n => ?_, rfl⟩
          · exact congrArg (fun t => (t.enter key).2) h.table
          · rw [h.table]
            simp only [ticketAt, Handles.find?_insert]
            split <;> rfl

/-- A call under a key asks again. -/
theorem pollReceive (hcall : x.ticketAt handle = some (key, ticket)) :
    x.Leads (x.pollReceiveDeeds handle key ticket fired deadline now)
      (x.pollReceive handle key ticket fired deadline now).2 := by
  unfold pollReceiveDeeds Exchange.pollReceive
  split
  · exact quit hcall
  · cases htold : x.table.resolved.find? ticket with
    | none =>
      by_cases hpassed : passed now deadline
      · simp only [hpassed, if_true]
        exact quit hcall
      · simp only [hpassed, Bool.false_eq_true, if_false]
        exact refl x
    | some told =>
      cases told with
      | broken reason => exact quit hcall
      | batch batch =>
        intro b _ h
        refine ⟨⟨⟨(h.callers key ticket).mpr ⟨handle, hcall⟩, ?_⟩, trivial⟩,
          h.ended hcall ?_ rfl fun n => ticketAt_erase x handle n, rfl⟩
        · rw [h.table]
          exact htold
        · exact congrArg (fun t => t.collect ticket handle batch) h.table

/-- What has been ready longest is taken. -/
theorem take (x : Exchange κ (Letter κ α)) : x.Leads x.takeDeeds x.take.2 := by
  unfold takeDeeds
  cases hready : x.table.ready with
  | nil => exact of_same (by simp [Exchange.take, Table.takeNext, hready]) fun _ => rfl
  | cons e rest =>
    obtain ⟨key, items⟩ := e
    refine of_deed (fun b hb => ?_) (fun b hb => ?_) (fun _ => rfl) (fun _ => rfl)
      fun _ => rfl
    · rw [Board.Allows, hb, hready, List.head?_cons]
    · rw [Board.perform, hb]
      rfl

/-- Messages that were taken become a batch. -/
theorem hold {items : List (Letter κ α)} (htable : y.table = x.table.holdNew handle items)
    (htickets : ∀ n, y.ticketAt n = x.ticketAt n) : x.Leads [.hold handle items] y :=
  of_deed (fun _ _ => trivial) (fun b hb => by rw [Board.perform, hb, htable]) (fun _ => rfl)
    (fun _ => rfl) htickets

/-- A cursor takes a batch off the table or sleeps. The number of its call is no
caller's. -/
theorem advance {serial : ℕ} (hnone : x.ticketAt handle = none) :
    x.Leads (x.advanceDeeds handle single) (x.advance serial handle single).2 := by
  -- the call of the number ends, but it waited for no key
  have hcalls : ∀ n, (if n = handle then none else x.ticketAt n) = x.ticketAt n := by
    intro n
    split
    · next hn => rw [hn, hnone]
    · rfl
  have taken := take x
  unfold takeDeeds at taken
  unfold advanceDeeds Exchange.advance
  cases hready : x.table.ready with
  | nil =>
    simp only [Exchange.take, Table.takeNext, hready]
    split
    · exact of_same rfl fun n => (ticketAt_erase x handle n).trans (hcalls n)
    · refine of_same rfl fun n => ?_
      simp only [ticketAt, Handles.find?_insert]
      split
      · next hn => simpa [hn, ticketAt] using hnone.symm
      · rfl
  | cons e rest =>
    obtain ⟨key, items⟩ := e
    have hfirst : x.take.1 = some (key, items) := by simp [Exchange.take, Table.takeNext, hready]
    have hpair : x.take = (some (key, items), x.take.2) := Prod.ext hfirst rfl
    simp only [hready] at taken
    rw [hpair]
    cases items with
    | nil =>
      refine taken.trans (hold rfl fun n => ?_)
      exact (ticketAt_erase x handle n).trans (hcalls n)
    | cons item more =>
      cases single
      · refine taken.trans (hold rfl fun n => ?_)
        exact (ticketAt_erase x handle n).trans (hcalls n)
      · refine taken.trans (q := []) (of_same rfl fun n => ?_)
        exact (ticketAt_erase x handle n).trans (hcalls n)

/-- A cursor is asked for the first time. -/
theorem seekNext {cursor : Cursor κ (Letter κ α)} (hnone : x.ticketAt handle = none) :
    x.Leads (x.seekNextDeeds cursor handle single) (x.seekNext cursor handle single).2 := by
  obtain ⟨serial, left⟩ := cursor
  have finish : ∀ left', x.Leads (x.advanceDeeds handle single)
      ((x.leaveOver serial left').advance serial handle single).2 := fun left' =>
    (of_same (x := x) (y := x.leaveOver serial left') rfl fun _ => rfl).trans
      (advance (x := x.leaveOver serial left') hnone)
  cases left with
  | none => exact finish none
  | some e =>
    obtain ⟨key, items⟩ := e
    cases items with
    | nil => exact finish none
    | cons item rest =>
      cases single
      · exact hold rfl fun _ => rfl
      · exact of_same rfl fun _ => rfl

/-- A cursor is asked. -/
theorem next (x : Exchange κ (Letter κ α)) (cursor handle : ℕ) (single : Bool) :
    x.Leads (x.nextDeeds cursor handle single) (x.next cursor handle single).2 := by
  unfold nextDeeds Exchange.next
  cases x.cursors.find? cursor with
  | none => exact refl x
  | some c =>
    cases hbusy : x.isBusy c.serial with
    | true => simpa only [hbusy, if_true] using refl x
    | false =>
      simp only [hbusy, Bool.false_eq_true, if_false]
      exact (vacate x handle).trans (seekNext (ticketAt_vacate x handle))

/-- A cursor is asked without waiting. -/
theorem tryNext (x : Exchange κ (Letter κ α)) (cursor : ℕ) :
    x.Leads (x.tryNextDeeds cursor) (x.tryNext cursor).2 := by
  unfold tryNextDeeds Exchange.tryNext
  cases x.cursors.find? cursor with
  | none => exact refl x
  | some c =>
    cases hbusy : x.isBusy c.serial with
    | true => simpa only [hbusy, if_true] using refl x
    | false =>
      simp only [hbusy, Bool.false_eq_true, if_false]
      have taken := take x
      cases htake : x.take with
      | mk entry y =>
        rw [htake] at taken
        cases entry <;> exact taken

/-- A call of either kind is asked for progress. -/
theorem poll (x : Exchange κ (Letter κ α)) (handle now : ℕ) :
    x.Leads (x.pollDeeds handle now) (x.poll handle now).2 := by
  unfold pollDeeds Exchange.poll
  cases hcall : x.calls.find? handle with
  | none => exact refl x
  | some call =>
    cases call with
    | receive key ticket fired deadline =>
      exact pollReceive (ticketAt_of_find? hcall)
    | next serial single woken =>
      have : x.ticketAt handle = none := by simp [ticketAt, hcall]
      cases woken
      · exact refl x
      · exact advance this

/-- Only what is held changes. -/
theorem held {d : Deed κ α} (hd : ∀ b : Board κ α, b.table = x.table → b.Allows d)
    {held : Handles (Batch (Letter κ α))}
    (hperform : ∀ b : Board κ α, b.table = x.table →
      b.perform d = { b with table := { b.table with held } }) :
    x.Leads [d] { x with table := { x.table with held } } := by
  intro b _ h
  refine ⟨⟨hd b h.table, trivial⟩, h.congr ?_ ?_ fun _ => rfl, ?_⟩ <;>
    rw [Board.after_cons, hperform b h.table, Board.after_nil]
  rw [h.table]

/-- **A move does what its deeds say.** -/
theorem move (x : Exchange κ (Letter κ α)) (now : ℕ) (deadline : Option ℕ) (m : Move κ) :
    x.Leads (x.moveDeeds now deadline m) (x.act now deadline m).2 := by
  cases m with
  | receive handle key fired =>
    exact (vacate x handle).trans (seek (ticketAt_vacate x handle))
  | poll handle => exact poll x handle now
  | next cursor handle single => exact next x cursor handle single
  | tryNext cursor => exact tryNext x cursor
  | openCursor cursor => exact of_same rfl fun _ => rfl
  | closeCursor cursor => exact of_same rfl fun _ => rfl
  | view handle => exact refl x
  | drop handle =>
    simp only [moveDeeds, act, Exchange.drop]
    split
    · exact vacate x handle
    · exact held (d := .release handle) (fun _ _ => trivial) fun b hb => by rw [Board.perform, hb]
  | cancel handle =>
    simp only [moveDeeds, act, Exchange.cancel]
    split
    · next key ticket deadline hcall =>
      refine of_same rfl fun n => ?_
      simp only [ticketAt, Handles.find?_insert]
      split
      · next hn =>
        rw [hn, hcall]
        rfl
      · rfl
    · exact refl x
  | clone handle copy =>
    simp only [moveDeeds, act, cloneDeeds, Exchange.clone]
    cases hheld : x.table.held.find? handle with
    | none => exact refl x
    | some batch =>
      exact held (d := .lend copy batch) (fun b hb => ⟨handle, by rw [hb, hheld]⟩)
        fun b hb => by rw [Board.perform, hb]
  | unwrap handle copies =>
    simp only [moveDeeds, act, unwrapDeeds, Exchange.unwrap]
    cases hheld : x.table.held.find? handle with
    | none => exact refl x
    | some batch =>
      by_cases hfree : copies ∨ x.table.shares batch.serial = 1
      · simp only [if_pos hfree]
        exact held (d := .release handle) (fun _ _ => trivial)
          fun b hb => by rw [Board.perform, hb]
      · simp only [if_neg hfree]
        exact refl x

end Leads

/-! ## Runs -/

/-- **One event does what its deeds say**, its message having the next number. -/
theorem follows_step (hb : b.Sound) (h : b.Follows x) {event : Event κ (Letter κ α)}
    {plain : Event κ α} (hevent : event = plain.stamp b.delivered.length) :
    b.Permits (x.deeds event) ∧ (b.after (x.deeds event)).Follows (x.step event).2 ∧
      (b.after (x.deeds event)).delivered = b.delivered ++ event.message?.toList := by
  subst hevent
  cases plain with
  | deliver key item =>
    refine ⟨⟨rfl, trivial⟩, h.congr ?_ rfl fun n => ticketAt_settleTable _ _ n, rfl⟩
    show _ = (x.settleTable _).table
    rw [table_settleTable, ← h.table]
    rfl
  | fail reason =>
    refine ⟨⟨trivial, trivial⟩, h.congr ?_ rfl fun n => ticketAt_wake _ n,
      (List.append_nil _).symm⟩
    exact congrArg (fun t => (t.fail reason).2) h.table
  | take =>
    have hstep : (x.step (.take : Event κ (Letter κ α))).2 = x.take.2 := by
      rw [step]
      cases x.take with
      | mk entry y => cases entry <;> rfl
    have := Leads.take x b hb h
    rw [← hstep] at this
    exact ⟨this.1, this.2.1, this.2.2.trans (List.append_nil _).symm⟩
  | move now deadline m =>
    obtain ⟨hpermits, hfollows, hsame⟩ := Leads.move x now deadline m b hb h
    exact ⟨hpermits, hfollows, hsame.trans (List.append_nil _).symm⟩

/-- **A run does what its journal says**: the board before the run permits every
deed of it, and follows the exchange after the run. -/
theorem follows_run (hb : b.Sound) (h : b.Follows x) {n : ℕ} (hn : n = b.delivered.length)
    (events : List (Event κ α)) :
    b.Permits (x.journal (stampFrom n events)) ∧
      (b.after (x.journal (stampFrom n events))).Follows (x.run (stampFrom n events)).2 ∧
      (b.after (x.journal (stampFrom n events))).delivered =
        b.delivered ++ (stampFrom n events).filterMap (·.message?) := by
  induction events generalizing b x n with
  | nil => exact ⟨trivial, h, (List.append_nil _).symm⟩
  | cons plain rest ih =>
    -- one event, and the numbers go on where the board has got to
    obtain ⟨hpermits, hfollows, hmore⟩ := follows_step hb h (congrArg plain.stamp hn)
    set event := plain.stamp n with hevent
    set c := b.after (x.deeds event)
    have hsound : c.Sound := hpermits.keeps hb fun _ _ => Board.Sound.perform
    have hcount : plain.next n = c.delivered.length := by
      rw [hmore, List.length_append, ← hn, hevent]
      cases plain <;> rfl
    obtain ⟨hpermits', hfollows', hmore'⟩ := ih hsound hfollows hcount
    rw [stampFrom, journal, Board.after_append, List.filterMap_cons]
    refine ⟨Board.permits_append.mpr ⟨hpermits, hpermits'⟩, hfollows', hmore'.trans ?_⟩
    rw [hmore, List.append_assoc]
    cases event.message? <;> rfl

/-! ## Runs from the beginning -/

theorem permits_journal (events : List (Event κ α)) :
    (Board.empty : Board κ α).Permits (journal empty (stamped events)) :=
  (follows_run Board.Sound.empty Board.Follows.empty rfl events).1

theorem follows_boardAfter (events : List (Event κ α)) :
    (boardAfter events).Follows (run empty (stamped events)).2 :=
  (follows_run Board.Sound.empty Board.Follows.empty rfl events).2.1

theorem delivered_boardAfter (events : List (Event κ α)) :
    (boardAfter events).delivered = delivered events :=
  (follows_run Board.Sound.empty Board.Follows.empty rfl events).2.2

theorem handed_boardAfter (events : List (Event κ α)) :
    (boardAfter events).handed = handed events :=
  Board.handed_after ..

theorem sound_boardAfter (events : List (Event κ α)) : (boardAfter events).Sound :=
  Board.sound_after (permits_journal events)

end Exchange

end FramedDuplex
