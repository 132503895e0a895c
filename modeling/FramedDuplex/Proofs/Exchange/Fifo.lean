import FramedDuplex.Proofs.Exchange.Met
import FramedDuplex.Proofs.Exchange.Answers
import FramedDuplex.Proofs.Exchange.Map
/-!
# First in, first out

Under each key, what the table hands out, one batch after the other, and then
what is ready, are the messages that were delivered, in the order of delivery.
That holds as long as no caller goes that still waits or was sent a batch
(`Exchange.Patient`), since then nothing is ever put back.

The table hands out a batch when it lets go of it (`Board.issue?`): to the
callers who wait, when a message arrives, and to whoever takes what is ready. A
batch that several callers share counts once that way, and it counts where it
was sent and not where the last of them collects it.
-/

namespace FramedDuplex

variable {κ α : Type} [DecidableEq κ] {b : Board κ α} {d : Deed κ α} {p q : List (Deed κ α)}
variable {key : κ} {ticket : ℕ} {items : List (Letter κ α)}

/-- The messages that were handed out under a key, in order. -/
def under (key : κ) (issued : List (κ × List (Letter κ α))) : List (Letter κ α) :=
  (issued.filter (·.1 = key)).flatMap (·.2)

@[simp] theorem under_nil (key : κ) : under key ([] : List (κ × List (Letter κ α))) = [] := rfl

theorem under_concat (issued : List (κ × List (Letter κ α))) (key other : κ)
    (items : List (Letter κ α)) :
    under key (issued ++ [(other, items)]) =
      under key issued ++ if other = key then items else [] := by
  by_cases h : other = key <;> simp [under, h]

/-- A caller was told that the connection is broken. -/
def Table.isTurnedAway {β : Type} (t : Table κ β) (ticket : ℕ) : Bool :=
  match t.resolved.find? ticket with
  | some (.broken _) => true
  | _ => false

omit [DecidableEq κ] in
theorem Table.not_sent_of_isTurnedAway {β : Type} {t : Table κ β} {batch : Batch β}
    (h : t.isTurnedAway ticket) : ¬ t.Sent ticket batch := by
  intro hsent
  rw [isTurnedAway, hsent] at h
  simp at h

/-- Nobody goes by a deed but who was told that the connection is broken. -/
def Deed.spares (t : Table κ (Letter κ α)) : Deed κ α → Bool
  | .leave _ ticket => t.isTurnedAway ticket
  | _ => true

namespace Board

/-- The batch that the table lets go of by a deed. -/
def issue? (b : Board κ α) : Deed κ α → Option (κ × List (Letter κ α))
  | .bring m =>
    if b.table.readyAt? m.key = none ∧ b.table.waitingOn m.key ≠ [] then some (m.key, [m]) else none
  | .claim key items _ => some (key, items)
  | .take key items => some (key, items)
  | _ => none

/-- The batches that the table lets go of along a journal, in order. -/
def issues (b : Board κ α) : List (Deed κ α) → List (κ × List (Letter κ α))
  | [] => []
  | d :: rest => (b.issue? d).toList ++ (b.perform d).issues rest

variable {issued : List (κ × List (Letter κ α))}

/-- **What was issued so far is in line with the board**: with what is ready it
makes up what was delivered, and it is what callers got and will get. -/
structure InLine (b : Board κ α) (issued : List (κ × List (Letter κ α))) : Prop where
  whole : ∀ key, under key issued ++ (b.table.readyAt? key).getD [] =
    b.delivered.filter (·.key = key)
  handed : ∀ out ∈ b.handed, (out.key, out.items) ∈ issued
  sent : ∀ key ticket batch, (key, ticket) ∈ b.callers → b.table.Sent ticket batch →
    (key, batch.items) ∈ issued
  reached : ∀ key items, (key, items) ∈ issued →
    (∃ out ∈ b.handed, out.key = key ∧ out.items = items) ∨
      ∃ ticket batch, (key, ticket) ∈ b.callers ∧ b.table.Sent ticket batch ∧ batch.items = items

namespace InLine

theorem empty : (Board.empty : Board κ α).InLine [] where
  whole key := by simp [Board.empty, Table.readyAt?_empty]
  handed out h := by simp [Board.empty] at h
  sent key ticket batch h := by simp [Board.empty] at h
  reached key items h := by simp at h

/-- Nothing is delivered, taken, sent or collected, and who goes was sent
nothing. -/
theorem congr {c : Board κ α} (h : b.InLine issued)
    (hready : ∀ key, c.table.readyAt? key = b.table.readyAt? key)
    (hsent : ∀ ticket batch, c.table.Sent ticket batch ↔ b.table.Sent ticket batch)
    (hcallers : ∀ key ticket batch, b.table.Sent ticket batch →
      ((key, ticket) ∈ c.callers ↔ (key, ticket) ∈ b.callers))
    (hdelivered : c.delivered = b.delivered) (hhanded : c.handed = b.handed) :
    c.InLine issued where
  whole key := by rw [hready, hdelivered, h.whole]
  handed := hhanded ▸ h.handed
  sent k i batch hin hs := by
    have hold := (hsent i batch).mp hs
    exact h.sent k i batch ((hcallers k i batch hold).mp hin) hold
  reached k found hin := by
    rw [hhanded]
    rcases h.reached k found hin with hout | ⟨i, batch, hcaller, hs, hitems⟩
    · exact .inl hout
    · exact .inr ⟨i, batch, (hcallers k i batch hs).mpr hcaller, (hsent i batch).mpr hs, hitems⟩

/-- **A message is delivered.** It joins what is ready or is issued at once. -/
theorem bring (h : b.InLine issued) (hb : b.Sound) (m : Letter κ α) :
    (b.perform (.bring m)).InLine (issued ++ (b.issue? (.bring m)).toList) := by
  have grown : ∀ key, (b.delivered ++ [m]).filter (·.key = key) =
      b.delivered.filter (·.key = key) ++ if m.key = key then [m] else [] := by
    intro key
    by_cases hk : m.key = key <;> simp [hk]
  rw [perform, Table.deliver_eq_put]
  rcases b.table.put_cases (· ++ [m]) m.key [m] with
    ⟨old, hold, he⟩ | ⟨hnone, hfree, he⟩ | ⟨hnone, ⟨waiter, hwaiter⟩, he⟩ <;> rw [he]
  · have hissue : b.issue? (.bring m) = none := by simp [issue?, hold]
    rw [hissue, Option.toList_none, List.append_nil]
    refine ⟨fun key => ?_, h.handed, h.sent, h.reached⟩
    rw [grown, ← h.whole, Table.readyAt?_changeReady]
    by_cases hk : key = m.key
    · subst hk
      simp [hold]
    · simp [hk, Ne.symm hk]
  · have hwaiting : b.table.waitingOn m.key = [] :=
      List.eq_nil_iff_forall_not_mem.mpr fun i hi => hfree i (Table.mem_waitingOn.mp hi)
    have hissue : b.issue? (.bring m) = none := by simp [issue?, hwaiting]
    rw [hissue, Option.toList_none, List.append_nil]
    refine ⟨fun key => ?_, h.handed, h.sent, h.reached⟩
    rw [grown, ← h.whole, Table.readyAt?_start hnone]
    by_cases hk : key = m.key
    · subst hk
      simp [hnone]
    · simp [hk, Ne.symm hk]
  · have hwaiting : b.table.waitingOn m.key ≠ [] :=
      List.ne_nil_of_mem (Table.mem_waitingOn.mpr hwaiter)
    have hissue : b.issue? (.bring m) = some (m.key, [m]) := by simp [issue?, hnone, hwaiting]
    rw [hissue, Option.toList_some]
    refine ⟨fun key => ?_, fun out hout => List.mem_append_left _ (h.handed out hout),
      fun k i batch hin hs => ?_, fun k found hin => ?_⟩
    · rw [grown, ← h.whole, under_concat]
      show _ ++ (b.table.readyAt? key).getD [] = _
      by_cases hk : m.key = key
      · subst hk
        simp [hnone]
      · simp [hk]
    -- the new batch goes to callers of the message's key
    · rcases (Table.sent_resolve hb.manned.free).mp hs with hold | ⟨hw, rfl⟩
      · exact List.mem_append_left _ (h.sent k i batch hin hold)
      · obtain rfl := hb.manned.one (hb.manned.waits _ i hw) hin
        simp
    · rcases List.mem_append.mp hin with hold | hnew
      · rcases h.reached k found hold with hout | ⟨i, batch, hcaller, hs, hitems⟩
        · exact .inl hout
        · exact .inr ⟨i, batch, hcaller, (Table.sent_resolve hb.manned.free).mpr (.inl hs), hitems⟩
      · obtain ⟨rfl, rfl⟩ : k = m.key ∧ found = [m] := by simpa using hnew
        refine .inr ⟨waiter, _, hb.manned.waits _ waiter hwaiter,
          (Table.sent_resolve hb.manned.free).mpr (.inr ⟨hwaiter, rfl⟩), rfl⟩

/-- **What is ready under a key is issued as a whole.** -/
theorem of_taken (h : b.InLine issued) {u : Table κ (Letter κ α)}
    (hitems : b.table.readyAt? key = some items) (htaken : b.table.Taken u key) :
    InLine { b with table := u, handed := b.handed ++ [.ready key items] }
      (issued ++ [(key, items)]) where
  whole other := by
    rw [← h.whole, under_concat, htaken.ready]
    by_cases hk : other = key
    · subst hk
      simp [hitems]
    · simp [hk, Ne.symm hk]
  handed out hout := by
    rcases List.mem_append.mp hout with hold | hnew
    · exact List.mem_append_left _ (h.handed out hold)
    · obtain rfl := List.mem_singleton.mp hnew
      simp [Handout.key, Handout.items]
  sent k i batch hin hs := List.mem_append_left _ (h.sent k i batch hin (htaken.sent.mp hs))
  reached k found hin := by
    rcases List.mem_append.mp hin with hold | hnew
    · rcases h.reached k found hold with ⟨out, hout, hwhat⟩ | ⟨i, batch, hcaller, hs, hwhat⟩
      · exact .inl ⟨out, List.mem_append_left _ hout, hwhat⟩
      · exact .inr ⟨i, batch, hcaller, htaken.sent.mpr hs, hwhat⟩
    · obtain ⟨rfl, rfl⟩ : k = key ∧ found = items := by simpa using hnew
      exact .inl ⟨.ready k found, by simp, rfl, rfl⟩

/-- A caller collects a batch that was issued before. -/
theorem collect (h : b.InLine issued) {batch : Batch (Letter κ α)}
    (hin : (key, ticket) ∈ b.callers) (hsent : b.table.Sent ticket batch) (hb : b.Sound)
    (handle : ℕ) : (b.perform (.collect key ticket batch handle)).InLine issued where
  whole := h.whole
  handed out hout := by
    rcases List.mem_append.mp hout with hold | hnew
    · exact h.handed out hold
    · obtain rfl := List.mem_singleton.mp hnew
      exact h.sent key ticket batch hin hsent
  sent k i a hcaller hs :=
    h.sent k i a (List.mem_filter.mp hcaller).1 (Table.sent_forget.mp hs).1
  reached k found hissued := by
    rcases h.reached k found hissued with ⟨out, hout, hwhat⟩ | ⟨i, a, hcaller, hs, hwhat⟩
    · exact .inl ⟨out, List.mem_append_left _ hout, hwhat⟩
    · by_cases hi : i = ticket
      · subst hi
        obtain rfl := hs.unique hsent
        obtain rfl := hb.manned.one hin hcaller
        exact .inl ⟨.share k i a, List.mem_append_right _ (by simp), rfl, hwhat⟩
      · exact .inr ⟨i, a, List.mem_filter.mpr ⟨hcaller, by simpa using hi⟩,
          Table.sent_forget.mpr ⟨hs, hi⟩, hwhat⟩

/-- A caller goes that was told that the connection is broken. -/
theorem leave (h : b.InLine issued) (hspares : b.table.isTurnedAway ticket) :
    (b.perform (.leave key ticket)).InLine issued := by
  have hother : ∀ i batch, b.table.Sent i batch → i ≠ ticket := by
    rintro i batch hs rfl
    exact Table.not_sent_of_isTurnedAway hspares hs
  have hleave : (b.table.leave key ticket).1 = b.table.forget ticket := by
    rcases b.table.leave_cases key ticket with ⟨he, -⟩ | ⟨batch, hs, -⟩
    · exact he
    · exact absurd rfl (hother ticket batch hs)
  rw [Board.perform, hleave]
  refine h.congr (fun _ => rfl) (fun i batch => ?_) (fun k i batch hs => ?_) rfl rfl
  · rw [Table.sent_forget]
    exact and_iff_left_of_imp (hother i batch)
  · simp [hother i batch hs]

/-- A caller comes. Its ticket was nobody's, so nothing was sent to it. -/
theorem enter (h : b.InLine issued) (hb : b.Sound) (key : κ) :
    (b.perform (.enter key)).InLine issued := by
  refine h.congr (fun _ => rfl) (fun _ _ => .rfl) (fun k i batch hs => ?_) rfl rfl
  have hne : i ≠ b.table.nextTicket := by
    rintro rfl
    simp [Table.Sent, hb.manned.untold_next] at hs
  simp [Board.perform, hne]

/-- **A permitted deed that spares the callers keeps the board in line.** -/
theorem perform (h : b.InLine issued) (hb : b.Sound) (hd : b.Allows d)
    (hspares : d.spares b.table) :
    (b.perform d).InLine (issued ++ (b.issue? d).toList) := by
  have quiet : ∀ {c : Board κ α}, c.InLine issued → c.InLine (issued ++ []) := fun hc => by
    rwa [List.append_nil]
  cases d with
  | bring m => exact h.bring hb m
  | claim key items handle => exact h.of_taken hd (b.table.taken_takeReady key handle items)
  | take key items =>
    exact h.of_taken (Table.readyAt?_of_mem hb.tidy (List.mem_of_mem_head? hd))
      (Table.taken_takeNext hb.tidy hd)
  | collect key ticket batch handle => exact quiet (h.collect hd.1 hd.2 hb handle)
  | fail reason =>
    exact quiet (h.congr (fun _ => rfl) (fun _ _ => Table.sent_fail hb.manned.free)
      (fun _ _ _ _ => .rfl) rfl rfl)
  | leave key ticket => exact quiet (h.leave hspares)
  | enter key => exact quiet (h.enter hb key)
  | hold handle items =>
    exact quiet (h.congr (fun _ => rfl) (fun _ _ => .rfl) (fun _ _ _ _ => .rfl) rfl rfl)
  | lend copy batch =>
    exact quiet (h.congr (fun _ => rfl) (fun _ _ => .rfl) (fun _ _ _ _ => .rfl) rfl rfl)
  | release handle =>
    exact quiet (h.congr (fun _ => rfl) (fun _ _ => .rfl) (fun _ _ _ _ => .rfl) rfl rfl)

/-- So does a journal of such deeds. -/
theorem after (h : b.InLine issued) (hb : b.Sound) (hq : b.Permits q) 
    (hs : b.Each (fun c d => d.spares c.table) q) :
    (b.after q).InLine (issued ++ b.issues q) := by
  induction q generalizing b issued with
  | nil => rwa [issues, List.append_nil]
  | cons d rest ih =>
    rw [issues, ← List.append_assoc]
    exact ih (h.perform hb hq.1 hs.1) (hb.perform hq.1) hq.2 hs.2

end InLine

end Board

namespace Exchange

variable {x : Exchange κ (Letter κ α)} {handle : ℕ}

/-- The batches that the table lets go of along a run, in order. -/
def issued (events : List (Event κ α)) : List (κ × List (Letter κ α)) :=
  Board.empty.issues (journal empty (stamped events))

/-- An event makes no call go that still waits for its answers or was sent them. -/
def Spares (x : Exchange κ (Letter κ α)) (event : Event κ (Letter κ α)) : Prop :=
  ∀ d ∈ x.deeds event, d.spares x.table

instance (x : Exchange κ (Letter κ α)) (event : Event κ (Letter κ α)) :
    Decidable (x.Spares event) :=
  inferInstanceAs (Decidable (∀ d ∈ x.deeds event, d.spares x.table))

/-- **No call is dropped, cancelled or late** before it was told its answers, or
that there will be none. -/
def Patient (events : List (Event κ α)) : Prop :=
  (empty : Exchange κ (Letter κ α)).Throughout Spares (stamped events)

instance (events : List (Event κ α)) : Decidable (Patient events) :=
  instDecidableThroughout Spares empty (stamped events)

theorem spares_journal {events : List (Event κ α)} (h : Patient events) :
    (Board.empty : Board κ α).Each (fun b d => d.spares b.table)
      (journal empty (stamped events)) := by
  refine each_journal (fun b x event hb hfollows hspares => ?_) Board.Sound.empty
    Board.Follows.empty rfl events h
  refine each_deeds hb hfollows event (fun c d hd => ?_) (fun key ticket hin => ?_)
    fun _ _ _ _ => rfl
  · cases d <;> first | rfl | simp [Deed.isPlain] at hd
  · rw [hfollows.table]
    exact hspares _ hin

/-! ## One delivery, one receive -/

/-- **A message resolves all calls that wait for its key**, and no other, with
one batch. -/
structure Resolves (x : Exchange κ (Letter κ α)) (m : Letter κ α)
    (batch : Batch (Letter κ α)) : Prop where
  items : batch.items = [m]
  all : ∀ handle ticket, x.Unanswered handle m.key ticket →
    (x.deliver m.key m).table.Sent ticket batch
  others : ∀ ticket, (∀ handle, ¬ x.Unanswered handle m.key ticket) →
    (x.deliver m.key m).table.resolved.find? ticket = x.table.resolved.find? ticket
  left : ∀ handle key ticket, (x.deliver m.key m).Unanswered handle key ticket ↔
    x.Unanswered handle key ticket ∧ key ≠ m.key
  ready : (x.deliver m.key m).table.ready = x.table.ready

theorem resolves (hb : b.Sound) (h : b.Follows x) (hmet : Met b.table b.callers) {m : Letter κ α}
    (hwaits : ∃ handle ticket, x.Unanswered handle m.key ticket) :
    x.Resolves m ⟨x.table.nextSerial, [m]⟩ := by
  have waits : ∀ {key ticket}, x.table.Waits key ticket ↔ ∃ handle, x.Unanswered handle key ticket :=
    h.table ▸ waits_iff_unanswered hb h hmet
  have free : x.table.Untold := h.table ▸ hb.manned.free
  obtain ⟨waiter, i, hwaiter⟩ := hwaits
  have hwait : x.table.Waits m.key i := waits.mpr ⟨waiter, hwaiter⟩
  have htable : (x.deliver m.key m).table = x.table.resolve m.key [m] := by
    have hnone : x.table.readyAt? m.key = none := (h.table ▸ hmet).apart m.key i hwait
    rw [deliver, table_settleTable, Table.deliver_eq_put]
    rcases x.table.put_cases (· ++ [m]) m.key [m] with ⟨old, hold, -⟩ | ⟨-, hfree, -⟩ | ⟨-, -, he⟩
    · simp [hnone] at hold
    · exact absurd hwait (hfree i)
    · exact he
  have hcalls : ∀ n, (x.deliver m.key m).ticketAt n = x.ticketAt n := fun n =>
    ticketAt_settleTable x _ n
  have told : ∀ ticket, (x.table.resolve m.key [m]).resolved.find? ticket =
      if ticket ∈ x.table.waitingOn m.key then some (.batch ⟨x.table.nextSerial, [m]⟩)
      else x.table.resolved.find? ticket := fun _ => Table.find?_resolve
  refine ⟨rfl, fun handle ticket hcall => ?_, fun ticket hnot => ?_, fun handle key ticket => ?_, ?_⟩
  · rw [htable, Table.Sent, told, if_pos]
    exact Table.mem_waitingOn.mpr (waits.mpr ⟨handle, hcall⟩)
  · rw [htable, told, if_neg]
    intro hin
    obtain ⟨handle, hcall⟩ := waits.mp (Table.mem_waitingOn.mp hin)
    exact hnot handle hcall
  · rw [Unanswered, hcalls, htable, told]
    constructor
    · rintro ⟨hcall, hnone⟩
      split at hnone
      · simp at hnone
      · next hother =>
        refine ⟨⟨hcall, hnone⟩, ?_⟩
        rintro rfl
        exact hother (Table.mem_waitingOn.mpr (waits.mpr ⟨handle, hcall, hnone⟩))
    · rintro ⟨⟨hcall, hnone⟩, hne⟩
      -- a ticket is one call's, so it is not among those of another key
      have hother : ticket ∉ x.table.waitingOn m.key := by
        intro hin
        obtain ⟨n, hn, -⟩ := waits.mp (Table.mem_waitingOn.mp hin)
        obtain rfl := h.apart n handle m.key key ticket hn hcall
        rw [hcall] at hn
        simp [hne] at hn
      exact ⟨hcall, by rwa [if_neg hother]⟩
  · rw [htable]
    rfl

/-- **A receive takes all that is ready under its key**, and leaves the key with
nothing ready and nobody waiting. -/
structure TakesAll (x : Exchange κ (Letter κ α)) (key : κ) (items : List (Letter κ α))
    (result : Answer κ (Letter κ α) × Exchange κ (Letter κ α)) : Prop where
  answer : result.1 = .batch items
  ready : ∀ other, result.2.table.readyAt? other =
    if other = key then none else x.table.readyAt? other
  nobody : result.2.table.waitingOn key = []
  waiting : result.2.table.waiting = x.table.waiting

theorem takesAll (hb : b.Sound) (h : b.Follows x) (hmet : Met b.table b.callers)
    {fired : Option Bool} (hfired : fired ≠ some true)
    (hitems : (x.vacate handle).table.readyAt? key = some items) (deadline : Option ℕ) (now : ℕ) :
    (x.vacate handle).TakesAll key items (x.receive handle key fired deadline now) := by
  -- callers and answers are still met when the number is vacated
  obtain ⟨hpermits, hfollows, -⟩ := Leads.vacate x handle b hb h
  have hleft : Met (x.vacate handle).table (b.after (x.vacateDeeds handle)).callers :=
    hfollows.table ▸ Board.met_after hmet hb hpermits (each_vacateDeeds fun _ _ _ => trivial)
  have hseek : x.receive handle key fired deadline now = (.batch items,
      { x.vacate handle with
        table := ((x.vacate handle).table.takeReady key).holdNew handle items }) := by
    rw [receive, seek, if_neg hfired, hitems]
  rw [hseek]
  exact ⟨rfl, fun _ => Table.readyAt?_takeReady, hleft.nobody hitems, rfl⟩

/-! ## Runs -/

/-- **A run hands out in the order of delivery.** The run without the numbers of
the messages is the run, and its answers report what is handed out. -/
structure HandsOutInOrder (events : List (Event κ α)) : Prop where
  same : (run empty (stamped events)).map (·.map (·.map Letter.item)) (·.map Letter.item) =
    run empty events
  reports : ReportsAll empty (stamped events) (run empty (stamped events)).1 (handed events)
  /-- What was issued under a key and what is ready is what was delivered. -/
  whole : ∀ key, under key (issued events) ++ ((stateAfter events).table.readyAt? key).getD [] =
    (delivered events).filter (·.key = key)
  /-- What callers got was issued. -/
  handed : ∀ out ∈ handed events, (out.key, out.items) ∈ issued events
  /-- What was issued a caller got, or is yet to collect. -/
  reached : ∀ key items, (key, items) ∈ issued events →
    (∃ out ∈ Exchange.handed events, out.key = key ∧ out.items = items) ∨
      ∃ handle ticket batch, (stateAfter events).ticketAt handle = some (key, ticket) ∧
        (stateAfter events).table.Sent ticket batch ∧ batch.items = items
  answered : ∀ m, (∃ handle ticket, (stateAfter events).Unanswered handle m.key ticket) →
    ∃ batch, (stateAfter events).Resolves m batch
  taken : ∀ handle key fired deadline now items, fired ≠ some true →
    ((stateAfter events).vacate handle).table.readyAt? key = some items →
      ((stateAfter events).vacate handle).TakesAll key items
        ((stateAfter events).receive handle key fired deadline now)

/-- **First in, first out, key by key**, along every run in which no call goes
before it was told something. -/
theorem handsOutInOrder_of_patient {events : List (Event κ α)} (h : Patient events) :
    HandsOutInOrder events := by
  have sound := sound_boardAfter events
  have follows : (boardAfter events).Follows (stateAfter events) := follows_boardAfter events
  have met := met_boardAfter events
  have line : (boardAfter events).InLine (issued events) :=
    Board.InLine.empty.after Board.Sound.empty (permits_journal events) (spares_journal h)
  have hhanded := handed_boardAfter events
  refine ⟨run_stamped events, reports_run empty (stamped events), fun key => ?_, fun out hout => ?_,
    fun key items hin => ?_, fun m hwaits => ⟨_, resolves sound follows met hwaits⟩,
    fun handle key fired deadline now items hfired hitems =>
      takesAll sound follows met hfired hitems deadline now⟩
  · rw [← follows.table, ← delivered_boardAfter]
    exact line.whole key
  · exact line.handed out (hhanded ▸ hout)
  · rcases line.reached key items hin with hout | ⟨ticket, batch, hcaller, hsent, hitems⟩
    · exact .inl (hhanded ▸ hout)
    · obtain ⟨handle, hcall⟩ := (follows.callers key ticket).mp hcaller
      exact .inr ⟨handle, ticket, batch, hcall, follows.table ▸ hsent, hitems⟩

/-- Two callers share what they waited for, another takes what is ready, a batch
is taken without a caller, and a caller is turned away. -/
def patientEvents : List (Event ℕ ℕ) :=
  [.move 0 none (.receive 1 0 none), .move 0 none (.receive 2 0 none), .deliver 0 10,
    .deliver 0 11, .deliver 1 20, .deliver 0 12, .move 0 none (.receive 3 0 none),
    .move 0 none (.poll 1), .deliver 0 13, .take, .move 0 none (.receive 4 2 none),
    .fail .disposed, .move 0 none (.poll 4), .move 0 none (.poll 2)]

theorem handsOutInOrder_patientEvents :
    Patient patientEvents ∧ HandsOutInOrder patientEvents :=
  have patient : Patient patientEvents := by decide
  ⟨patient, handsOutInOrder_of_patient patient⟩

end Exchange

end FramedDuplex
