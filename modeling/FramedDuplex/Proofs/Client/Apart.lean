import FramedDuplex.Proofs.Client.Sent
import FramedDuplex.Proofs.Exchange.Traceless
/-!
# A number names one call

A client keeps two kinds of calls: those whose message waits for room in the send
queue, and those that wait for answers. A number never names one of each
(`Client.Apart`): a call begins to wait for answers when its message is queued, and
whatever call its number had before was dropped when it began.

What is done to a link starts a call under a number in one way only
(`Link.Deed.starts`), so most events need no look at what they do to the table.
-/

namespace FramedDuplex

/-! ## Tickets -/

namespace Exchange

variable {κ α : Type} {x : Exchange κ α} {handle : ℕ}

/-- A call on a cursor gives no number a ticket. -/
theorem advance_ticketless (h : x.ticketAt handle = none) (serial n : ℕ) (single : Bool) :
    (x.advance serial n single).2.ticketAt handle = none := by
  by_cases hn : handle = n
  · subst hn
    exact ticketAt_advance ..
  · unfold advance
    split
    · next key item rest y htake =>
      have hcalls : y.calls = x.calls := congrArg (·.2.calls) htake.symm
      split <;> simpa [ticketAt, leaveOver, Handles.find?_erase, hn, hcalls] using h
    · next key y htake =>
      have hcalls : y.calls = x.calls := congrArg (·.2.calls) htake.symm
      simpa [ticketAt, Handles.find?_erase, hn, hcalls] using h
    · split <;> simpa [ticketAt, Handles.find?_erase, Handles.find?_insert, hn] using h

theorem seekNext_ticketless (h : x.ticketAt handle = none) (c : Cursor κ α) (n : ℕ)
    (single : Bool) : (x.seekNext c n single).2.ticketAt handle = none := by
  unfold seekNext
  split
  · split <;> exact h
  · exact advance_ticketless (x := x.leaveOver c.serial none) h ..

variable [DecidableEq κ]

theorem quit_ticketless (h : x.ticketAt handle = none) (n : ℕ) (key : κ) (ticket : ℕ) :
    (x.quit n key ticket).ticketAt handle = none := by
  rw [ticketAt_quit]
  split
  · rfl
  · exact h

theorem vacate_ticketless (h : x.ticketAt handle = none) (n : ℕ) :
    (x.vacate n).ticketAt handle = none := by
  unfold vacate
  split
  · exact quit_ticketless h ..
  · rw [ticketAt_erase]
    split
    · rfl
    · exact h
  · exact h

theorem seek_ticketless {n : ℕ} (h : x.ticketAt handle = none) (hne : handle ≠ n) (key : κ)
    (fired : Option Bool) (deadline : Option ℕ) (now : ℕ) :
    (x.seek n key fired deadline now).2.ticketAt handle = none := by
  unfold seek
  split
  · exact h
  · split
    · exact h
    · exact h
    · split
      · exact h
      · simpa [ticketAt, Handles.find?_insert, hne] using h

theorem pollReceive_ticketless (h : x.ticketAt handle = none) (n : ℕ) (key : κ) (ticket : ℕ)
    (fired : Option Bool) (deadline : Option ℕ) (now : ℕ) :
    (x.pollReceive n key ticket fired deadline now).2.ticketAt handle = none := by
  unfold pollReceive
  split
  · exact quit_ticketless h ..
  · split
    · simp only [ticketAt, Handles.find?_erase] at h ⊢
      split
      · rfl
      · exact h
    · exact quit_ticketless h ..
    · split
      · exact quit_ticketless h ..
      · exact h

/-- Whether a move starts a call under a key by a number. -/
def Move.starts (handle : ℕ) : Move κ → Bool
  | .receive n _ _ => n = handle
  | _ => false

/-- **No other move gives a number a ticket.** -/
theorem act_ticketless {move : Move κ} (hmove : move.starts handle = false)
    (h : x.ticketAt handle = none) (now : ℕ) (deadline : Option ℕ) :
    (x.act now deadline move).2.ticketAt handle = none := by
  cases move with
  | receive n key fired =>
    have hne : handle ≠ n := by
      rintro rfl
      simp [Move.starts] at hmove
    exact seek_ticketless (vacate_ticketless h n) hne key fired deadline now
  | poll n =>
    simp only [act, poll]
    split
    · exact h
    · exact pollReceive_ticketless h ..
    · split
      · exact advance_ticketless h ..
      · exact h
  | cancel n =>
    simp only [act, cancel]
    split
    · next key ticket d hfind =>
      have hne : handle ≠ n := by
        rintro rfl
        simp [ticketAt, hfind] at h
      simpa [ticketAt, Handles.find?_insert, hne] using h
    · exact h
  | drop n =>
    simp only [act, drop]
    split
    · exact vacate_ticketless h n
    · exact h
  | next cursor n single =>
    simp only [act, next]
    split
    · exact h
    · split
      · exact h
      · exact seekNext_ticketless (vacate_ticketless h n) ..
  | tryNext cursor =>
    simp only [act]
    rcases tryNext_snd x cursor with he | he <;> rw [he] <;> exact h
  | clone n copy =>
    simp only [act, clone]
    split <;> exact h
  | unwrap n copies =>
    simp only [act, unwrap]
    split
    · exact h
    · split <;> exact h
  | openCursor cursor => exact h
  | closeCursor cursor => exact h
  | view n => exact h

end Exchange

/-! ## Deeds -/

variable [OwnTypes]

namespace Link

variable {l : Link} {d : Deed} {handle : ℕ}

/-- Whether a deed starts a call under a key by a number. -/
def Deed.starts (handle : ℕ) : Deed → Bool
  | .act _ _ move => move.starts handle
  | _ => false

/-- What a deed says to the table is a caller's move only if the caller moves. -/
theorem deed_of_move {now : ℕ} {deadline : Option ℕ} {move : Exchange.Move Key}
    (h : l.news d = [.move now deadline move]) : d = .act now deadline move := by
  have hending : ∀ l l' : Link, .move now deadline move ∉ l.ending l' := by
    intro l l'
    unfold ending
    split <;> simp
  have hin : .move now deadline move ∈ l.news d := by simp [h]
  cases d with
  | act => simpa [news, eq_comm] using hin
  | decode =>
    rcases List.mem_append.mp hin with hanswer | hended
    · simp at hanswer
    · exact absurd hended (hending _ _)
  | _ => exact absurd hin (hending _ _)

theorem perform_ticketless (hd : d.starts handle = false) (h : l.exchange.ticketAt handle = none) :
    (l.perform d).exchange.ticketAt handle = none := by
  have hpasses := passes_perform l d
  generalize hsaid : l.news d = said at hpasses
  cases hpasses with
  | nothing _ he => rwa [he]
  | answer _ _ he =>
    rw [he, Exchange.deliver, Exchange.ticketAt_settleTable]
    exact h
  | move _ he =>
    obtain rfl := deed_of_move hsaid
    rw [he]
    exact Exchange.act_ticketless hd h ..
  | ended _ _ he =>
    rw [he, Exchange.fail, Exchange.ticketAt_wake]
    exact h

/-- **A journal that starts no call by a number** leaves it without a ticket. -/
theorem after_ticketless {journal : List Deed} (hstarts : ∀ d ∈ journal, d.starts handle = false)
    (h : l.exchange.ticketAt handle = none) :
    (l.after journal).exchange.ticketAt handle = none := by
  induction journal generalizing l with
  | nil => exact h
  | cons d rest ih =>
    obtain ⟨hd, hrest⟩ := List.forall_mem_cons.mp hstarts
    exact ih hrest (perform_ticketless hd h)

end Link

/-! ## What starts a call -/

namespace Client

variable {c : Client} {handle k : ℕ} {p : Parcel} {request : Option Key}

theorem starts_withdrawDeeds (c : Client) (k : ℕ) :
    ∀ d ∈ c.withdrawDeeds k, d.starts handle = false := by
  unfold withdrawDeeds
  split <;> simp [Link.Deed.starts]

theorem starts_vacateDeeds (c : Client) (k : ℕ) :
    ∀ d ∈ c.vacateDeeds k, d.starts handle = false := by
  refine List.forall_mem_append.mpr ⟨starts_withdrawDeeds c k, ?_⟩
  split <;> simp [Link.Deed.starts, Exchange.Move.starts]

theorem starts_settleDeeds (l : Link) : ∀ d ∈ l.settleDeeds, d.starts handle = false := by
  intro d hd
  have hloop := Link.byLoop_settleDeeds l d hd
  cases d <;> first | rfl | cases hloop

/-- A frame that is queued starts a call if its sender asked for answers. -/
theorem starts_enteredDeeds (h : request = none ∨ k ≠ handle) (entry : Outbox.Entry) :
    ∀ d ∈ c.enteredDeeds k p request entry, d.starts handle = false := by
  unfold enteredDeeds
  split
  · split
    · simp
    · next key =>
      have hne : k ≠ handle := h.resolve_left (by simp)
      simp [actDeed, Link.Deed.starts, Exchange.Move.starts, hne]
  · simp
  · simp [Link.Deed.starts]

theorem starts_submitDeeds (h : request = none ∨ k ≠ handle) (m : Message) (fired : Option Bool) :
    ∀ d ∈ c.submitDeeds k m fired request, d.starts handle = false := by
  unfold submitDeeds
  split
  · simp
  · split
    · simp
    · refine List.forall_mem_cons.mpr ⟨rfl, ?_⟩
      split
      · simp
      · exact List.forall_mem_cons.mpr ⟨rfl, starts_enteredDeeds h _⟩

theorem starts_pollDeeds
    (h : k ≠ handle ∨ ∀ m p fired request,
      c.outgoing.find? k = some ⟨m, .room p fired request⟩ → request = none) :
    ∀ d ∈ c.pollDeeds k, d.starts handle = false := by
  unfold pollDeeds
  split
  · simp [actDeed, Link.Deed.starts, Exchange.Move.starts]
  · simp [actDeed, Link.Deed.starts, Exchange.Move.starts]
  · next m p fired request hfind =>
    split
    · exact starts_withdrawDeeds c k
    · have hentered : request = none ∨ k ≠ handle := by
        rcases h with hne | hnone
        · exact .inr hne
        · exact .inl (hnone m p fired request hfind)
      exact List.forall_mem_cons.mpr ⟨rfl, starts_enteredDeeds hentered _⟩

/-- Several messages are sent without asking for answers. -/
theorem starts_sendNowDeeds (c : Client) (m : Message) :
    ∀ d ∈ c.sendNowDeeds m, d.starts handle = false := by
  refine List.forall_mem_append.mpr ⟨starts_submitDeeds (.inl rfl) m none, ?_⟩
  have hbegun := outcome_submit (find?_unused c.outgoing) m none none
  split
  · next answer d hsubmit =>
    rw [hsubmit] at hbegun
    obtain ⟨q, n, fired, hroom⟩ := hbegun.inRoom rfl
    have hnone : ∀ m p fired request, d.settled.outgoing.find? c.outgoing.unused =
        some ⟨m, .room p fired request⟩ → request = none := by
      intro m p fired request hfind
      have hsame := hroom.symm.trans hfind
      simp at hsame
      exact hsame.2.2.2.symm
    refine List.forall_mem_append.mpr ⟨List.forall_mem_append.mpr
      ⟨starts_settleDeeds _, starts_pollDeeds (.inr hnone)⟩, ?_⟩
    split
    · exact starts_withdrawDeeds _ _
    · simp
  · simp

theorem starts_sendEachDeeds (c : Client) (ms : List Message) :
    ∀ d ∈ c.sendEachDeeds ms, d.starts handle = false := by
  induction ms generalizing c with
  | nil => simp [sendEachDeeds]
  | cons m rest ih => exact List.forall_mem_append.mpr ⟨starts_sendNowDeeds c m, ih _⟩

theorem starts_closeDeeds (c : Client) : ∀ d ∈ c.closeDeeds, d.starts handle = false := by
  unfold closeDeeds
  split
  · simp
  · refine List.forall_mem_cons.mpr ⟨rfl, ?_⟩
    split
    · simp [Link.Deed.starts]
    · refine List.forall_mem_append.mpr ⟨starts_settleDeeds _, ?_⟩
      split <;> simp [Link.Deed.starts]

/-! ## The two kinds -/

/-- **A number names one call**: one that waits for room does not wait for answers. -/
def Apart (c : Client) : Prop :=
  ∀ handle p request, c.InRoom handle p request → c.link.exchange.ticketAt handle = none

/-- Deeds that start no call by a number keep it apart. -/
theorem Apart.ticketless {d : Client} (h : c.Apart) (hold : c.InRoom handle p request)
    {journal : List Link.Deed} (hlink : d.link = c.link.after journal)
    (hstarts : ∀ e ∈ journal, e.starts handle = false) :
    d.link.exchange.ticketAt handle = none := by
  rw [hlink]
  exact Link.after_ticketless hstarts (h handle p request hold)

/-- The call that a number had is dropped. -/
theorem ticketAt_vacate (c : Client) (handle : ℕ) :
    (c.vacate handle).link.exchange.ticketAt handle = none :=
  Exchange.ticketAt_vacate ..

/-- A call that waits for room leaves the table alone. -/
theorem Outcome.ticketless {told : Reply × Client} {frame : Option Bytes} {r : Option Key}
    {frames : List Parcel} (h : c.Outcome handle frame r told frames)
    (hin : told.2.InRoom handle p request) (hnone : c.link.exchange.ticketAt handle = none) :
    told.2.link.exchange.ticketAt handle = none := by
  cases h with
  | queued _ _ hgone => exact absurd hin (hgone p request)
  | waits _ _ _ hkept => rwa [hkept.exchange]
  | failed _ _ hgone _ => exact absurd hin (hgone p request)

theorem Apart.submit (h : c.Apart) (hfree : c.outgoing.find? k = none)
    (hnone : c.link.exchange.ticketAt k = none) (m : Message) (fired : Option Bool)
    (r : Option Key) : (c.submit k m fired r).2.Apart := by
  intro handle p request hin
  by_cases hk : handle = k
  · subst hk
    exact (outcome_submit hfree m fired r).ticketless hin hnone
  · have hold : c.InRoom handle p request := (inRoom_of_submit hin).resolve_right fun e => hk e.1
    exact h.ticketless hold (link_submit ..) (starts_submitDeeds (.inr (Ne.symm hk)) m fired)

theorem Apart.vacate (h : c.Apart) (k : ℕ) : (c.vacate k).Apart := by
  intro handle p request hin
  have hold : c.InRoom handle p request := (inRoom_of_withdraw (k := k) hin).2
  exact h.ticketless hold (link_vacate ..) (starts_vacateDeeds c k)

/-- A move is one call's, and the others are left alone. -/
theorem Apart.move (h : c.Apart) (move : Exchange.Move Key) : (c.react (.move move)).2.Apart := by
  intro handle p request hin
  have hold : c.InRoom handle p request := inRoom_of_move hin
  cases move with
  | receive k key fired =>
    have hne : handle ≠ k := by
      have hsame : (c.react (.move (.receive k key fired))).2.outgoing =
          (c.withdraw k).outgoing := by
        simp only [Client.react, Client.receive]
        split <;> rfl
      obtain ⟨m, fired', hfind⟩ := hin
      exact (inRoom_of_withdraw ⟨m, fired', hsame ▸ hfind⟩).1
    refine h.ticketless hold (link_react ..)
      (List.forall_mem_append.mpr ⟨starts_vacateDeeds c k, ?_⟩)
    unfold receiveDeeds
    split
    · simp
    · simp [actDeed, Link.Deed.starts, Exchange.Move.starts, Ne.symm hne]
  | poll k =>
    by_cases hk : handle = k
    · subst hk
      exact (outcome_poll hold).ticketless hin (h handle p request hold)
    · exact h.ticketless hold (link_poll ..) (starts_pollDeeds (.inl (Ne.symm hk)))
  | next cursor k single =>
    refine h.ticketless hold (link_react ..) (List.forall_mem_cons.mpr ⟨rfl, ?_⟩)
    split
    · simp
    · simp
    · exact starts_withdrawDeeds _ k
  | cancel k =>
    refine h.ticketless hold (link_cancel ..) ?_
    unfold cancelDeeds
    split <;> simp [actDeed, Link.Deed.starts, Exchange.Move.starts]
  | drop k =>
    refine h.ticketless hold (link_drop ..) ?_
    unfold dropDeeds
    split
    · exact starts_withdrawDeeds c k
    · simp [actDeed, Link.Deed.starts, Exchange.Move.starts]
  | _ => exact h.ticketless hold (link_react ..) (List.forall_mem_singleton.mpr rfl)

/-- Whatever begins has its number to itself, and the others are left alone. -/
theorem Apart.react (h : c.Apart) (event : Event) : (c.react event).2.Apart := by
  cases event with
  | send k m fired => exact (h.vacate k).submit (find?_vacate c k) (ticketAt_vacate c k) m fired none
  | request k m =>
    simp only [Client.react, Client.request]
    split
    · exact h.vacate k
    · exact (h.vacate k).submit (find?_vacate c k) (ticketAt_vacate c k) m none _
  | sendEach ms =>
    exact fun handle p request hin =>
      h.ticketless (inRoom_of_sendEach hin) (link_sendEach ..) (starts_sendEachDeeds c ms)
  | close =>
    intro handle p request hin
    rcases inRoom_of_react hin with hold | ⟨m, hbegins, -⟩
    · exact h.ticketless hold (link_close ..) (starts_closeDeeds c)
    · cases hbegins
  | dispose =>
    rintro handle p request ⟨m, fired, hfind⟩
    cases hfind
  | wire event => exact h
  | report => exact h
  | pass ms => exact h
  | move move => exact h.move move

theorem Apart.step (h : c.Apart) (event : Event) : (c.step event).2.Apart := by
  intro handle p request hin
  have hreacted : (c.react event).2.InRoom handle p request := hin
  exact (h.react event).ticketless hreacted (Link.settle_eq_after _) (starts_settleDeeds _)

/-- **In every run a number names one call.** -/
theorem Apart.run (h : c.Apart) (events : List Event) : (c.run events).2.Apart := by
  induction events generalizing c with
  | nil => exact h
  | cons event rest ih => exact ih (h.step event)

end Client

end FramedDuplex
