import FramedDuplex.Proofs.Exchange.Attended
import FramedDuplex.Proofs.Exchange.Part
import FramedDuplex.Proofs.Exchange.Ended
/-!
# Calls that come to nothing

A call under a key that is cancelled, dropped or timed out before anything was
told to it leaves no trace (`Exchange.no_trace`): everybody else is answered as
if it had never been, and it leaves what would be there without it, but for
the numbers of callers.

As long as it waits, the exchange is what it would be without the call, with one
caller more. So the call is struck out (`Exchange.strike`), which is a matter of
the part of the exchange that all others have, and the run without the call is
followed beside the one with it.
-/

namespace FramedDuplex

variable {κ α : Type}

/-- All but one call, and its ticket. -/
def Part.allBut (handle ticket : ℕ) : Part κ where
  key _ := true
  ticket i := i ≠ ticket
  call n := n ≠ handle
  held _ := true

section AllBut

variable {handle ticket n : ℕ}

@[simp] theorem Part.allBut_ticket :
    (allBut handle ticket : Part κ).ticket n = decide (n ≠ ticket) := rfl

@[simp] theorem Part.allBut_call :
    (allBut handle ticket : Part κ).call n = decide (n ≠ handle) := rfl

end AllBut

namespace Exchange

variable {x y : Exchange κ α} {handle other ticket i : ℕ} {key k : κ} {event : Event κ α}

/-- The exchange without a call and its ticket. -/
def strike (x : Exchange κ α) (handle ticket : ℕ) : Exchange κ α :=
  x.part (.allBut handle ticket)

theorem strike_eq (x : Exchange κ α) (handle ticket : ℕ) : x.strike handle ticket =
    { x with table := x.table.forget ticket, calls := x.calls.erase handle } := by
  have ready : x.table.ready.filter (fun _ => true) = x.table.ready := List.filter_true _
  simp only [strike, part, Table.part, Part.allBut, ready, Handles.only_true]
  rfl

/-- Whether an event is about the call of a number. -/
def Event.isFor (handle : ℕ) : Event κ α → Bool
  | .move _ _ (.poll n) | .move _ _ (.cancel n) | .move _ _ (.drop n) => n = handle
  | _ => false

/-- Whether an event may start another call under a number. -/
def Event.reuses (handle : ℕ) : Event κ α → Bool
  | .move _ _ (.receive n _ _) | .move _ _ (.next _ n _) => n = handle
  | _ => false

/-! ## The call itself -/

variable [DecidableEq κ]

/-- **A call that goes untold takes nothing with it.** -/
theorem quit_eq_strike (h : x.table.resolved.find? ticket = none) (handle : ℕ) (key : κ) :
    x.quit handle key ticket = x.strike handle ticket := by
  have gone : x.table.leave key ticket = (x.table.forget ticket, false) := by
    rw [Table.leave_eq, h]
    rfl
  rw [quit, gone, strike_eq]
  rfl

theorem vacate_eq_strike (h : x.Unanswered handle key ticket) :
    x.vacate handle = x.strike handle ticket := by
  obtain ⟨fired, deadline, hfind⟩ := call_of_ticketAt h.1
  rw [vacate, hfind]
  exact quit_eq_strike h.2 handle key

/-- **What is done for the call is done to it alone**: it goes, or nothing that
others have changes. -/
theorem step_isFor (h : x.Unanswered handle key ticket) (hfor : event.isFor handle) :
    (x.step event).2 = x.strike handle ticket ∨
      ((x.step event).2.strike handle ticket = x.strike handle ticket ∧
        (x.step event).2.ticketAt handle = some (key, ticket)) := by
  obtain ⟨fired, deadline, hfind⟩ := call_of_ticketAt h.1
  have gone := quit_eq_strike h.2 handle key
  cases event with
  | deliver | fail | take => simp [Event.isFor] at hfor
  | move now d m =>
    cases m with
    | poll n =>
      obtain rfl : n = handle := by simpa [Event.isFor] using hfor
      simp only [step, act, poll, hfind, pollReceive, h.2]
      split
      · exact .inl gone
      · split
        · exact .inl gone
        · exact .inr ⟨rfl, h.1⟩
    | cancel n =>
      obtain rfl : n = handle := by simpa [Event.isFor] using hfor
      simp only [step, act, cancel, hfind]
      cases fired with
      | none => exact .inr ⟨rfl, h.1⟩
      | some f =>
        cases f with
        | true => exact .inr ⟨rfl, h.1⟩
        | false =>
          refine .inr ⟨?_, by simp [ticketAt]⟩
          simp only [strike, part, Handles.only_insert]
          simp
    | drop n =>
      obtain rfl : n = handle := by simpa [Event.isFor] using hfor
      have there : x.calls.contains n = true := by simp [Handles.contains, hfind]
      simp only [step, act, drop, there, if_true]
      exact .inl (vacate_eq_strike h)
    | receive | openCursor | closeCursor | next | tryNext | view | clone | unwrap =>
      simp [Event.isFor] at hfor

/-! ## Another call under its number -/

/-- A call that starts under a number does not have a ticket that was given. -/
theorem ticketAt_seek_ne (hnone : x.ticketAt handle = none) (hlt : ticket < x.table.nextTicket)
    (fired : Option Bool) (deadline : Option ℕ) (now : ℕ) :
    (x.seek handle k fired deadline now).2.ticketAt handle ≠ some (key, ticket) := by
  have old : x.ticketAt handle ≠ some (key, ticket) := by simp [hnone]
  unfold seek
  split
  · exact old
  · split
    · exact old
    · exact old
    · split
      · exact old
      · have hne : x.table.nextTicket ≠ ticket := by omega
        simp [ticketAt, Table.enter, hne]

omit [DecidableEq κ] in
theorem ticketAt_advance (x : Exchange κ α) (serial handle : ℕ) (single : Bool) :
    (x.advance serial handle single).2.ticketAt handle = none := by
  unfold advance
  split
  · split <;> simp [ticketAt, leaveOver]
  · simp [ticketAt]
  · split <;> simp [ticketAt]

omit [DecidableEq κ] in
/-- A call on a cursor has no ticket. -/
theorem ticketAt_seekNext (hnone : x.ticketAt handle = none) (c : Cursor κ α) (single : Bool) :
    (x.seekNext c handle single).2.ticketAt handle = none := by
  unfold seekNext
  split
  · split <;> exact hnone
  · exact ticketAt_advance ..

theorem vacate_strike (h : x.Unanswered handle key ticket) :
    (x.strike handle ticket).vacate handle = x.strike handle ticket := by
  rw [← vacate_eq_strike h, vacate_vacate]

theorem ticketAt_strike (h : x.Unanswered handle key ticket) :
    (x.strike handle ticket).ticketAt handle = none := by
  rw [← vacate_eq_strike h, ticketAt_vacate]

omit [DecidableEq κ] in
/-- Calls on cursors are not struck out. -/
theorem cursorsWithin_allBut (hx : x.Attended) (h : x.ticketAt handle = some (key, ticket)) :
    x.CursorsWithin (.allBut handle ticket) := by
  rintro ⟨n, call⟩ he ⟨serial, single, woken, rfl⟩
  obtain ⟨fired, deadline, hfind⟩ := call_of_ticketAt h
  have hother : n ≠ handle := by
    rintro rfl
    simpa [hfind] using Handles.find?_of_mem_entries hx.distinct he
  simpa using hother

/-- **Another call under its number** starts as without it, or does not start. -/
theorem step_reuses (hx : x.Attended) (h : x.Unanswered handle key ticket)
    (hre : event.reuses handle) :
    ((x.strike handle ticket).step event = x.step event ∧
        (x.step event).2.ticketAt handle ≠ some (key, ticket)) ∨
      ((x.step event).2 = x ∧
        (x.strike handle ticket).step event = ((x.step event).1, x.strike handle ticket)) := by
  have hlt := hx.numbered.ticketAt_lt h.1
  have vacated := vacate_eq_strike h
  cases event with
  | deliver | fail | take => simp [Event.reuses] at hre
  | move now d m =>
    cases m with
    | receive n k fired =>
      obtain rfl : n = handle := by simpa [Event.reuses] using hre
      refine .inl ⟨?_, ?_⟩
      · simp only [step, act, receive, vacate_strike h, vacated]
      · simp only [step, act, receive, vacated]
        exact ticketAt_seek_ne (ticketAt_strike h) hlt fired d now
    | next cursor n single =>
      obtain rfl : n = handle := by simpa [Event.reuses] using hre
      have cursors : (x.strike n ticket).cursors = x.cursors := rfl
      have busy : ∀ serial, (x.strike n ticket).isBusy serial = x.isBusy serial :=
        isBusy_part (cursorsWithin_allBut hx h.1)
      simp only [step, act, next, cursors, busy, vacate_strike h, vacated]
      cases x.cursors.find? cursor with
      | none => exact .inr ⟨rfl, rfl⟩
      | some c =>
        cases hbusy : x.isBusy c.serial with
        | true => exact .inr (by simp [hbusy])
        | false =>
          refine .inl (by simp [hbusy, ticketAt_seekNext (ticketAt_strike h)])
    | poll | cancel | drop | openCursor | closeCursor | tryNext | view | clone | unwrap =>
      simp [Event.reuses] at hre

/-! ## What others do -/

omit [DecidableEq κ] in
theorem whole_allBut {t : Table κ α} (hnone : t.resolved.find? ticket = none) (handle serial : ℕ) :
    t.Whole (.allBut handle ticket) serial where
  resolved e he _ _ _ := by simpa using Handles.ne_of_find?_eq_none hnone he
  held _ _ _ := rfl

/-- Answers that tell a caller nothing did not find it waiting. -/
theorem reaches_allBut {t : Table κ α} {f : List α → List α} {items : List α}
    (hnone : (t.put f key items).resolved.find? ticket = none) (handle : ℕ) :
    t.Reaches (.allBut handle ticket) key := by
  intro hready i hi
  have hother : i ≠ ticket := by
    rintro rfl
    have hwaiting : (t.waitingOn key).isEmpty = false := by
      cases hw : t.waitingOn key with
      | nil => simp [hw] at hi
      | cons => rfl
    simp [Table.put, hready, hwaiting, Table.find?_resolve, hi] at hnone
  simpa using hother

/-- **What another caller puts back stays with the others**, where it tells the
call nothing. -/
theorem keeps_allBut (hx : x.Attended) (h : x.Unanswered handle key ticket) (hne : other ≠ handle)
    (hnone : (x.vacate other).table.resolved.find? ticket = none) :
    x.Keeps (.allBut handle ticket) other := by
  intro k i hat
  have hother : i ≠ ticket := by
    rintro rfl
    exact hne (hx.apart other handle k key i hat h.1)
  obtain ⟨fired, deadline, hfind⟩ := call_of_ticketAt hat
  refine ⟨rfl, by simpa using hother, fun batch _ => whole_allBut h.2 handle _,
    fun batch hsent hshares => ?_⟩
  simp only [vacate, hfind, quit, table_settleTable, Table.leave_of_shares k hsent hshares] at hnone
  exact reaches_allBut hnone handle

theorem resolved_seek (x : Exchange κ α) (handle : ℕ) (key : κ) (fired : Option Bool)
    (deadline : Option ℕ) (now : ℕ) :
    (x.seek handle key fired deadline now).2.table.resolved = x.table.resolved := by
  unfold seek
  split
  · rfl
  · split
    · rfl
    · rfl
    · split <;> rfl

omit [DecidableEq κ] in
theorem resolved_advance (x : Exchange κ α) (serial handle : ℕ) (single : Bool) :
    (x.advance serial handle single).2.table.resolved = x.table.resolved := by
  have taken : x.take.2.table.resolved = x.table.resolved :=
    congrArg (·.resolved) x.table.takeNext_snd
  unfold advance
  split
  · next heq =>
    rw [heq] at taken
    split <;> exact taken
  · next heq =>
    rw [heq] at taken
    exact taken
  · split <;> rfl

omit [DecidableEq κ] in
theorem resolved_seekNext (x : Exchange κ α) (c : Cursor κ α) (handle : ℕ) (single : Bool) :
    (x.seekNext c handle single).2.table.resolved = x.table.resolved := by
  unfold seekNext
  split
  · split <;> rfl
  · exact resolved_advance (x.leaveOver c.serial none) ..

/-- **A move of others minds all but the call**, if it tells the call nothing. -/
theorem minds_allBut (hx : x.Attended) (h : x.Unanswered handle key ticket) {move : Move κ}
    {now : ℕ} {deadline : Option ℕ}
    (hfor : (Event.move now deadline move : Event κ α).isFor handle = false)
    (hre : (Event.move now deadline move : Event κ α).reuses handle = false)
    (hnone : (x.act now deadline move).2.table.resolved.find? ticket = none) :
    x.Minds (.allBut handle ticket) move := by
  have cursors := cursorsWithin_allBut hx h.1
  have tickets : ∀ n, n ≠ handle → x.Covers (.allBut handle ticket) n := by
    refine fun n hn k i hat => ⟨rfl, ?_⟩
    have hother : i ≠ ticket := by
      rintro rfl
      exact hn (hx.apart n handle k key i hat h.1)
    simpa using hother
  cases move with
  | receive n k fired =>
    have hn : n ≠ handle := by simpa [Event.reuses] using hre
    simp only [act, receive, resolved_seek] at hnone
    exact ⟨by simpa using hn, rfl, rfl, keeps_allBut hx h hn hnone⟩
  | poll n =>
    have hn : n ≠ handle := by simpa [Event.isFor] using hfor
    refine ⟨by simpa using hn, rfl, tickets n hn, ?_, fun _ _ => rfl⟩
    -- a call whose token was fired goes with this poll
    rintro ⟨k, i, d, hfind⟩
    simp only [act, poll, hfind, pollReceive, if_true] at hnone
    refine keeps_allBut hx h hn ?_
    simp only [vacate, hfind]
    exact hnone
  | cancel n =>
    have hn : n ≠ handle := by simpa [Event.isFor] using hfor
    exact (by simpa using hn : (Part.allBut handle ticket : Part κ).call n = true)
  | drop n =>
    have hn : n ≠ handle := by simpa [Event.isFor] using hfor
    refine ⟨by simpa using hn, rfl, keeps_allBut hx h hn ?_⟩
    by_cases hcall : x.calls.contains n
    · simpa only [act, drop, hcall, if_true] using hnone
    · have hfind : x.calls.find? n = none := by simpa [Handles.contains] using hcall
      simpa only [vacate, hfind] using h.2
  | openCursor | closeCursor => trivial
  | next cursor n single =>
    have hn : n ≠ handle := by simpa [Event.reuses] using hre
    refine ⟨by simpa using hn, rfl, fun _ => rfl, cursors, fun c hfind hidle => ?_⟩
    simp only [act, next, hfind, hidle, Bool.false_eq_true, if_false, resolved_seekNext] at hnone
    exact keeps_allBut hx h hn hnone
  | tryNext cursor => exact ⟨fun _ => rfl, cursors⟩
  | view n => rfl
  | clone n copy => exact ⟨rfl, rfl⟩
  | unwrap n copies => exact ⟨rfl, fun batch _ => whole_allBut h.2 handle _⟩

/-- **What others do, they do as without the call**, if it tells the call
nothing. -/
theorem step_strike (hx : x.Attended) (h : x.Unanswered handle key ticket)
    (hfor : event.isFor handle = false) (hre : event.reuses handle = false)
    (hnone : (x.step event).2.table.resolved.find? ticket = none) :
    (x.strike handle ticket).step event =
      ((x.step event).1, (x.step event).2.strike handle ticket) := by
  cases event with
  | deliver k item =>
    refine congrArg (Prod.mk _) (deliver_part rfl ?_ item)
    simp only [step, deliver, table_settleTable, Table.deliver_eq_put] at hnone
    exact reaches_allBut hnone handle
  | fail reason =>
    -- who waits would be told, so the call does not wait
    have all : x.table.waiting.filter ((Part.allBut handle ticket : Part κ).ticket ·.2) =
        x.table.waiting := by
      refine List.filter_eq_self.mpr fun e he => ?_
      have hother : e.2 ≠ ticket := by
        rintro rfl
        simp only [step, Exchange.fail, Table.resolved_fail, wake, Handles.find?_foldl_insert] at hnone
        rw [if_pos (List.mem_map_of_mem he)] at hnone
        simp at hnone
      simpa using hother
    have count : ((x.strike handle ticket).fail reason).1 = (x.fail reason).1 :=
      congrArg List.length all
    have after := x.fail_part (P := .allBut handle ticket) reason
    simp only [step]
    exact Prod.ext (congrArg Answer.count count) after.symm
  | take =>
    have taken := take_part (P := .allBut handle ticket) (fun _ => rfl) x
    simp only [step, strike, taken]
    obtain ⟨entry, y⟩ := x.take
    cases entry <;> rfl
  | move now deadline m =>
    refine act_part (fun i hi => ?_) (minds_allBut hx h hfor hre hnone) now deadline
    have := hx.numbered.ticketAt_lt h.1
    have hother : i ≠ ticket := by omega
    simpa using hother

/-! ## Two runs -/

/-- A call waits, through events before each of which nothing was told to it, and
the last of which ends it: it is asked or dropped, or its number is given to
another call. -/
inductive GoesUntold (handle : ℕ) (key : κ) (ticket : ℕ) :
    Exchange κ α → List (Event κ α) → Prop where
  | last {x : Exchange κ α} {event : Event κ α} :
      x.Unanswered handle key ticket → event.isFor handle || event.reuses handle →
        (x.step event).2.ticketAt handle ≠ some (key, ticket) → GoesUntold handle key ticket x [event]
  | more {x : Exchange κ α} {event : Event κ α} {rest : List (Event κ α)} :
      x.Unanswered handle key ticket → GoesUntold handle key ticket (x.step event).2 rest →
        GoesUntold handle key ticket x (event :: rest)

/-- The events that are not about a call. -/
def sparing (handle : ℕ) (events : List (Event κ α)) : List (Event κ α) :=
  events.filter (!·.isFor handle)

theorem GoesUntold.unanswered {events : List (Event κ α)}
    (h : GoesUntold handle key ticket x events) : x.Unanswered handle key ticket := by
  cases h <;> assumption

/-- Two exchanges differ in the numbers of callers and batches at most. -/
def SameBut (x y : Exchange κ α) : Prop :=
  ∃ r : Numbering, r.Continues y.table ∧ x = y.renumber r

omit [DecidableEq κ] in
theorem SameBut.refl (x : Exchange κ α) : SameBut x x :=
  ⟨.id, Numbering.continues_id _, (renumber_id x).symm⟩

theorem SameBut.step (h : SameBut x y) (event : Event κ α) :
    (x.step event).1 = (y.step event).1 ∧ SameBut (x.step event).2 (y.step event).2 := by
  obtain ⟨r, hr, rfl⟩ := h
  rw [step_renumber hr]
  exact ⟨rfl, r, hr.step event, rfl⟩

/-- Nobody can tell them apart. -/
theorem SameBut.run (h : SameBut x y) (events : List (Event κ α)) :
    (x.run events).1 = (y.run events).1 := by
  obtain ⟨r, hr, rfl⟩ := h
  rw [run_renumber hr]

/-- The same is ready in the same order, as many wait under the same keys, and the
connection is broken or not. -/
structure SameSlots (t u : Table κ α) : Prop where
  ready : t.ready = u.ready
  waiting : t.waiting.map (·.1) = u.waiting.map (·.1)
  broken : t.broken = u.broken
  pendingCount : t.pendingCount = u.pendingCount
  readyCount : t.readyCount = u.readyCount

theorem SameBut.slots (h : SameBut x y) : SameSlots x.table y.table := by
  obtain ⟨r, hr, rfl⟩ := h
  have entries : (mapEntry id : κ × List α → κ × List α) = id := by
    funext entry
    simp [mapEntry]
  have ready : (y.renumber r).table.ready = y.table.ready := by
    simp [renumber, relabel, Table.relabel, entries]
  have waiting : (y.renumber r).table.waiting.map (·.1) = y.table.waiting.map (·.1) := by
    simp [renumber, relabel, Table.relabel, Function.comp_def]
  exact ⟨ready, waiting, rfl, by rw [Table.pendingCount, waiting, Table.pendingCount],
    congrArg List.length ready⟩

/-- **An event while the call waits**: without the call the exchange goes the same
way. -/
theorem step_untold (hx : x.Attended) (h : x.Unanswered handle key ticket)
    (hsame : SameBut (x.strike handle ticket) y)
    (hafter : (x.step event).2.Unanswered handle key ticket) :
    (event.isFor handle = false → (x.step event).1 = (y.step event).1) ∧
      SameBut ((x.step event).2.strike handle ticket)
        (if event.isFor handle then y else (y.step event).2) := by
  obtain ⟨hanswer, hstep⟩ := hsame.step event
  cases hfor : event.isFor handle with
  | true =>
    refine ⟨by simp, ?_⟩
    rcases step_isFor h hfor with hgone | ⟨hstrike, -⟩
    · simp [Unanswered, hgone, ticketAt_strike h] at hafter
    · rwa [hstrike]
  | false =>
    cases hre : event.reuses handle with
    | true =>
      rcases step_reuses hx h hre with ⟨-, hgone⟩ | ⟨hstay, hstrike⟩
      · exact absurd hafter.1 hgone
      · rw [hstrike] at hanswer hstep
        rw [hstay]
        exact ⟨fun _ => hanswer, hstep⟩
    | false =>
      rw [step_strike hx h hfor hre hafter.2] at hanswer hstep
      exact ⟨fun _ => hanswer, hstep⟩

/-- **The event that ends the call**: it leaves what there is without the call. -/
theorem step_ends (hx : x.Attended) (h : x.Unanswered handle key ticket)
    (hsame : SameBut (x.strike handle ticket) y) (hof : event.isFor handle || event.reuses handle)
    (hafter : (x.step event).2.ticketAt handle ≠ some (key, ticket)) :
    (event.isFor handle = false → (x.step event).1 = (y.step event).1) ∧
      SameBut (x.step event).2 (if event.isFor handle then y else (y.step event).2) := by
  obtain ⟨hanswer, hstep⟩ := hsame.step event
  cases hfor : event.isFor handle with
  | true =>
    refine ⟨by simp, ?_⟩
    rcases step_isFor h hfor with hgone | ⟨-, hstay⟩
    · rwa [hgone]
    · exact absurd hstay hafter
  | false =>
    rcases step_reuses hx h (by simpa [hfor] using hof) with ⟨hstart, -⟩ | ⟨hstay, -⟩
    · rw [hstart] at hanswer hstep
      exact ⟨fun _ => hanswer, hstep⟩
    · rw [hstay] at hafter
      exact absurd h.1 hafter

/-- What a call leaves that came to nothing: `x` is the exchange with the call, `y`
the one without it, and `during` is what happens while it waits. -/
structure NoTrace (handle : ℕ) (x y : Exchange κ α) (during : List (Event κ α)) : Prop where
  /-- Meanwhile others are answered the same, -/
  answers : x.answersTo (!·.isFor handle) during = (y.run (sparing handle during)).1
  /-- and but for one caller, everything is as without the call. -/
  meanwhile : ∀ p, p <+: during → p ≠ during →
    ∃ ticket, SameBut ((x.run p).2.strike handle ticket) (y.run (sparing handle p)).2
  /-- Right after the call, there is what would be there without it. -/
  same : SameBut (x.run during).2 (y.run (sparing handle during)).2

theorem NoTrace.nil (h : SameBut x y) : NoTrace handle x y [] :=
  ⟨rfl, fun _ hp hne => absurd (List.prefix_nil.mp hp) hne, h⟩

/-- One more event in front. -/
theorem NoTrace.cons {rest : List (Event κ α)}
    (hanswer : event.isFor handle = false → (x.step event).1 = (y.step event).1)
    (hstrike : SameBut (x.strike handle ticket) y)
    (h : NoTrace handle (x.step event).2 (if event.isFor handle then y else (y.step event).2) rest) :
    NoTrace handle x y (event :: rest) := by
  have spared : ∀ p : List (Event κ α), (y.run (sparing handle (event :: p))).2 =
      ((if event.isFor handle then y else (y.step event).2).run (sparing handle p)).2 := by
    intro p
    cases hfor : event.isFor handle <;> simp [sparing, hfor, Exchange.run]
  refine ⟨?_, fun p hp hne => ?_, ?_⟩
  · have answers := h.answers
    rw [answersTo_cons]
    cases hfor : event.isFor handle with
    | true => simpa [sparing, hfor] using answers
    | false =>
      simp only [hfor, Bool.false_eq_true, if_false] at answers
      simp [sparing, hfor, Exchange.run, hanswer hfor, answers]
  · cases p with
    | nil => exact ⟨ticket, hstrike⟩
    | cons e q =>
      obtain ⟨rfl, hq⟩ := List.cons_prefix_cons.mp hp
      rw [spared]
      exact h.meanwhile q hq fun heq => hne (heq ▸ rfl)
  · rw [spared]
    exact h.same

theorem GoesUntold.noTrace {during : List (Event κ α)}
    (h : GoesUntold handle key ticket x during) (hx : ∃ events, x = (run empty events).2)
    (hsame : SameBut (x.strike handle ticket) y) : NoTrace handle x y during := by
  induction h generalizing y with
  | @last x event huntold hof hgone =>
    obtain ⟨events, rfl⟩ := hx
    obtain ⟨hanswer, hafter⟩ := step_ends (attended_run events) huntold hsame hof hgone
    exact .cons hanswer hsame (.nil hafter)
  | @more x event rest huntold hrest ih =>
    obtain ⟨events, rfl⟩ := hx
    obtain ⟨hanswer, hafter⟩ := step_untold (attended_run events) huntold hsame hrest.unanswered
    exact .cons hanswer hsame (ih ⟨events ++ [event], (run_append empty events [event]).symm⟩ hafter)

/-! ## From the first question -/

/-- A call under a key that is refused by its token or its deadline at once, or
waits and goes untold. -/
inductive ComesToNothing (x : Exchange κ α) (handle : ℕ) (key : κ) (fired : Option Bool)
    (deadline : Option ℕ) (now : ℕ) : List (Event κ α) → Prop where
  | refused {cause : ClientError} : cause = .cancelled ∨ cause = .timeout →
      (x.receive handle key fired deadline now).1 = .failed cause →
        ComesToNothing x handle key fired deadline now []
  | parked {ticket : ℕ} {during : List (Event κ α)} :
      (x.receive handle key fired deadline now).1 = .pending →
        GoesUntold handle key ticket (x.receive handle key fired deadline now).2 during →
          ComesToNothing x handle key fired deadline now during

section Seek

variable {fired : Option Bool} {deadline : Option ℕ} {now : ℕ}

/-- A call that fails at once leaves everything as it is. -/
theorem seek_of_failed {cause : ClientError}
    (h : (x.seek handle key fired deadline now).1 = .failed cause) :
    (x.seek handle key fired deadline now).2 = x := by
  unfold seek at h ⊢
  split
  · rfl
  · split
    · next hready => simp_all
    · rfl
    · split
      · rfl
      · simp_all

theorem seek_of_pending (h : (x.seek handle key fired deadline now).1 = .pending) :
    (x.seek handle key fired deadline now).2 = { x with
      table := (x.table.enter key).2
      calls := x.calls.insert handle (.receive key x.table.nextTicket fired deadline) } := by
  unfold seek at h ⊢
  split
  · simp_all
  · split
    · simp_all
    · simp_all
    · split
      · simp_all
      · rfl

/-- **A call that has to wait is one caller more.** -/
theorem strike_of_pending (hx : x.Numbered) (hnone : x.calls.find? handle = none)
    (h : (x.seek handle key fired deadline now).1 = .pending)
    (hat : (x.seek handle key fired deadline now).2.ticketAt handle = some (k, ticket)) :
    SameBut ((x.seek handle key fired deadline now).2.strike handle ticket) x := by
  rw [seek_of_pending h] at hat ⊢
  obtain ⟨-, rfl⟩ : key = k ∧ x.table.nextTicket = ticket := by simpa [ticketAt] using hat
  have waiting : (x.table.waiting ++ [(key, x.table.nextTicket)]).filter
      (·.2 ≠ x.table.nextTicket) = x.table.waiting := by
    have old : x.table.waiting.filter (·.2 ≠ x.table.nextTicket) = x.table.waiting :=
      List.filter_eq_self.mpr fun e he => by simpa using Nat.ne_of_lt (hx.waits e he)
    rw [List.filter_append, old]
    simp
  have resolved : x.table.resolved.erase x.table.nextTicket = x.table.resolved :=
    congrArg Handles.mk (List.filter_eq_self.mpr fun e he => by
      simpa using Nat.ne_of_lt (hx.told e he).1)
  refine ⟨Numbering.id.resume x.table (x.table.nextTicket + 1) x.table.nextSerial,
    (Numbering.continues_id _).resume .., ?_⟩
  have resumed := renumber_resume (r := .id) (m := x.table.nextTicket + 1) hx (Nat.le_succ _)
    (Nat.le_refl x.table.nextSerial)
  rw [resumed, renumber_id, strike_eq]
  simp only [Table.enter, Table.forget, waiting, resolved, Handles.erase_insert,
    Handles.erase_of_find?_eq_none hnone]

end Seek

/-- What the run without a call has in its place: if its number names a call, it is
dropped all the same. -/
def clearing (x : Exchange κ α) (handle : ℕ) : List (Event κ α) :=
  if x.calls.contains handle then [.move 0 none (.drop handle)] else []

theorem run_clearing (x : Exchange κ α) (handle : ℕ) :
    (x.run (x.clearing handle)).2 = x.vacate handle := by
  unfold clearing
  by_cases hcall : x.calls.contains handle
  · simp [hcall, run, step, act, drop]
  · have hfind : x.calls.find? handle = none := by simpa [Handles.contains] using hcall
    simp [hcall, run, vacate, hfind]

/-- **A call that comes to nothing leaves no trace.** In every run, the events that
are not about a call that is cancelled, dropped or timed out untold are
answered as in the run without the call, while it waits and ever after. While it
waits, the exchange is but for this caller what it is without the call, and right
after it is that, up to the numbers of callers and batches. And a call whose
token was fired before it began is cancelled and changes nothing, whatever is ready
and whether or not the connection is broken. -/
theorem no_trace (before during : List (Event κ α)) (handle : ℕ) (key : κ) (fired : Option Bool)
    (deadline : Option ℕ) (now : ℕ)
    (h : ComesToNothing (run empty before).2 handle key fired deadline now during) :
    let x := ((run empty before).2.receive handle key fired deadline now).2
    let y := (run empty (before ++ (run empty before).2.clearing handle)).2
    NoTrace handle x y during ∧
    (∀ after, ((x.run during).2.run after).1 = ((y.run (sparing handle during)).2.run after).1) ∧
    SameSlots (x.run during).2.table (y.run (sparing handle during)).2.table ∧
    ∀ (z : Exchange κ α) (handle : ℕ) (key : κ) (deadline : Option ℕ) (now : ℕ),
      z.calls.find? handle = none →
        z.receive handle key (some true) deadline now = (.failed .cancelled, z) := by
  intro x y
  have without : y = (run empty before).2.vacate handle := by
    rw [← run_clearing, ← run_append]
  have trace : NoTrace handle x y during := by
    cases h with
    | refused hcause hfailed =>
      have same : x = y := (seek_of_failed hfailed).trans without.symm
      exact .nil (same ▸ .refl y)
    | parked hpending huntold =>
      refine huntold.noTrace ⟨before ++ [.move now deadline (.receive handle key fired)], ?_⟩ ?_
      · rw [run_append]
        rfl
      · have numbered := (attended_run (before ++ (run empty before).2.clearing handle)).numbered
        change y.Numbered at numbered
        rw [without] at numbered ⊢
        exact strike_of_pending numbered (find?_vacate ..) hpending huntold.unanswered.1
  exact ⟨trace, trace.same.run, trace.same.slots, fun z handle key deadline now hnone => by
    simp [receive, seek, vacate, hnone]⟩

/-- A call between two others on its key is cancelled, and is told so when it asks. -/
theorem no_trace_between :
    let before : List (Event ℕ ℕ) := [.move 0 none (.receive 1 0 none)]
    let during : List (Event ℕ ℕ) :=
      [.move 0 none (.receive 3 0 none), .move 0 none (.cancel 2), .move 0 none (.poll 2)]
    ComesToNothing (run empty before).2 2 0 (some false) none 0 during ∧
      NoTrace 2 ((run empty before).2.receive 2 0 (some false) none 0).2
        (run empty (before ++ (run empty before).2.clearing 2)).2 during := by
  intro before during
  have untold : GoesUntold 2 0 1 ((run empty before).2.receive 2 0 (some false) none 0).2 during :=
    .more ⟨rfl, rfl⟩ (.more ⟨rfl, rfl⟩ (.last ⟨rfl, rfl⟩ rfl (by decide)))
  have nothing : ComesToNothing (run empty before).2 2 0 (some false) none 0 during :=
    .parked rfl untold
  exact ⟨nothing, (no_trace before during 2 0 (some false) none 0 nothing).1⟩

end Exchange

end FramedDuplex
