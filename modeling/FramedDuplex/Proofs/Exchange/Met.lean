import FramedDuplex.Proofs.Exchange.Follow
/-!
# Callers and answers that have met

A key has answers ready or callers waiting, and never both; a caller that was
told nothing waits, and is listed once; nobody waits when the connection is
broken (`Met`). Every run keeps this (`Exchange.met_boardAfter`), because a caller
begins to wait only when it has to (`Board.Warrants`): with nothing ready for it
and the connection standing.

That is the one thing that `Board.Allows` does not ask of a deed. It is read off
the exchange here, along with what else the deeds of an event have at the board
they are done on (`Exchange.each_deeds`).
-/

namespace FramedDuplex

variable {κ α : Type} [DecidableEq κ] {t u : Table κ α} {callers : List (κ × ℕ)}
variable {key : κ} {items : List α} {f : List α → List α}

/-- **Callers and answers have met**: what waits, waits for what is not there. -/
structure Met (t : Table κ α) (callers : List (κ × ℕ)) : Prop where
  apart : ∀ key ticket, t.Waits key ticket → t.readyAt? key = none
  once : (t.waiting.map (·.2)).Nodup
  waits : ∀ key ticket, (key, ticket) ∈ callers → t.resolved.find? ticket = none →
    t.Waits key ticket
  closed : t.broken.isSome → t.waiting = []

namespace Met

theorem empty : Met (Table.empty : Table κ α) [] where
  apart _ _ h := absurd h Table.not_waits_empty
  once := List.nodup_nil
  waits _ _ h := by simp at h
  closed _ := rfl

/-- Nobody waits where something is ready. -/
theorem nobody (h : Met t callers) (hitems : t.readyAt? key = some items) :
    t.waitingOn key = [] := by
  refine List.eq_nil_iff_forall_not_mem.mpr fun i hi => ?_
  have hnone := h.apart key i (Table.mem_waitingOn.mp hi)
  simp [hnone] at hitems

/-- An arrival under a key. -/
theorem put (h : Met t callers) : Met (t.put f key items) callers := by
  rcases t.put_cases f key items with ⟨old, hold, he⟩ | ⟨hnone, hfree, he⟩ | ⟨-, -, he⟩ <;> rw [he]
  · refine ⟨fun k i hw => ?_, h.once, h.waits, h.closed⟩
    rw [Table.readyAt?_changeReady]
    split
    · next hk =>
      have hnone := h.apart k i hw
      rw [hk, hold] at hnone
      simp at hnone
    · exact h.apart k i hw
  · refine ⟨fun k i hw => ?_, h.once, h.waits, h.closed⟩
    rw [Table.readyAt?_start hnone]
    split
    · next hk => exact absurd (hk ▸ hw) (hfree i)
    · exact h.apart k i hw
  · refine ⟨fun k i hw => h.apart k i (Table.waits_resolve.mp hw).1,
      h.once.sublist (List.filter_sublist.map _), fun k i hin hnone => ?_, fun hover => ?_⟩
    -- who still was told nothing waited, and not on this key
    · rw [Table.find?_resolve] at hnone
      split at hnone
      · simp at hnone
      · next hother =>
        have hwait := h.waits k i hin hnone
        refine Table.waits_resolve.mpr ⟨hwait, ?_⟩
        rintro rfl
        exact hother (Table.mem_waitingOn.mpr hwait)
    · have hnil : t.waiting = [] := h.closed hover
      simp [Table.resolve, hnil]

/-- A caller goes. -/
theorem forget (h : Met t callers) (ticket : ℕ) :
    Met (t.forget ticket) (callers.filter (·.2 ≠ ticket)) where
  apart k i hw := h.apart k i (Table.waits_forget.mp hw).1
  once := h.once.sublist (List.filter_sublist.map _)
  waits k i hin hnone := by
    obtain ⟨hcaller, hne⟩ := List.mem_filter.mp hin
    have hne : i ≠ ticket := by simpa using hne
    rw [Table.forget, Handles.find?_erase, if_neg hne] at hnone
    exact Table.waits_forget.mpr ⟨h.waits k i hcaller hnone, hne⟩
  closed hover := by
    have hnil : t.waiting = [] := h.closed hover
    simp [Table.forget, hnil]

/-- The connection ends: all who wait are told so. -/
theorem fail (h : Met t callers) (reason : BrokenReason) : Met (t.fail reason).2 callers where
  apart _ _ hw := absurd hw Table.not_waits_fail
  once := List.nodup_nil
  waits k i hin hnone := by
    rw [Table.resolved_fail, Handles.find?_foldl_insert] at hnone
    split at hnone
    · simp at hnone
    · next hother =>
      have hwait := h.waits k i hin hnone
      exact absurd (List.mem_map.mpr ⟨(k, i), hwait, rfl⟩) hother
  closed _ := rfl

/-- A caller comes that has to wait. Its ticket is nobody's. -/
theorem enter (h : Met t callers) (hnone : t.readyAt? key = none) (hopen : t.broken = none)
    (hnew : ∀ k, ¬ t.Waits k t.nextTicket) :
    Met (t.enter key).2 (callers ++ [(key, t.nextTicket)]) where
  apart k i hw := by
    rcases List.mem_append.mp hw with hold | hlast
    · exact h.apart k i hold
    · obtain ⟨rfl, -⟩ : k = key ∧ i = t.nextTicket := by simpa using hlast
      exact hnone
  once := by
    rw [Table.enter, List.map_append]
    refine List.Nodup.append h.once (by simp) ?_
    simp only [List.map_cons, List.map_nil, List.disjoint_singleton, List.mem_map, not_exists]
    rintro ⟨k, _⟩ ⟨hw, rfl⟩
    exact hnew k hw
  waits k i hin hnone := by
    rcases List.mem_append.mp hin with hold | hlast
    · exact List.mem_append.mpr (.inl (h.waits k i hold hnone))
    · exact List.mem_append.mpr (.inr hlast)
  closed hover := by simp [Table.enter, hopen] at hover

/-- What is ready under a key is taken. -/
theorem of_taken (h : Met t callers) (htaken : t.Taken u key) (hbroken : u.broken = t.broken) :
    Met u callers where
  apart k i hw := by
    rw [Table.Waits, htaken.waiting] at hw
    rw [htaken.ready]
    split
    · rfl
    · exact h.apart k i hw
  once := htaken.waiting ▸ h.once
  waits k i hin hnone := by
    rw [Table.Waits, htaken.waiting]
    exact h.waits k i hin (htaken.resolved ▸ hnone)
  closed hover := by
    rw [htaken.waiting]
    exact h.closed (hbroken ▸ hover)

/-- A caller collects its batch. -/
theorem collect (h : Met t callers) (ticket handle : ℕ) (batch : Batch α) :
    Met (t.collect ticket handle batch) (callers.filter (·.2 ≠ ticket)) := by
  have left := h.forget ticket
  refine ⟨h.apart, h.once, fun k i hin hnone => ?_, h.closed⟩
  exact (Table.waits_forget.mp (left.waits k i hin hnone)).1

end Met

namespace Board

variable {b : Board κ α} {d : Deed κ α} {p q : List (Deed κ α)}
variable {P : Board κ α → Deed κ α → Prop}

/-- Each deed of a journal has a property at the board it is done on. -/
def Each (P : Board κ α → Deed κ α → Prop) (b : Board κ α) : List (Deed κ α) → Prop
  | [] => True
  | d :: rest => P b d ∧ (b.perform d).Each P rest

theorem each_append : b.Each P (p ++ q) ↔ b.Each P p ∧ (b.after p).Each P q := by
  induction p generalizing b with
  | nil => simp [Each]
  | cons d rest ih => simp [Each, ih, and_assoc]

theorem Each.at (h : b.Each P q) (hp : p ++ [d] <+: q) : P (b.after p) d := by
  obtain ⟨rest, rfl⟩ := hp
  exact (each_append.mp (each_append.mp h).1).2.1

theorem each_of_forall (h : ∀ d ∈ q, ∀ c, P c d) : b.Each P q := by
  induction q generalizing b with
  | nil => trivial
  | cons d rest ih =>
    exact ⟨h d (by simp) b, ih fun d' hd' => h d' (List.mem_cons_of_mem _ hd')⟩

/-- **A caller begins to wait only when it has to**: nothing is ready for it and
the connection stands. -/
def Warrants (b : Board κ α) : Deed κ α → Prop
  | .enter key => b.table.readyAt? key = none ∧ b.table.broken = none
  | _ => True

/-- **A warranted deed keeps callers and answers met.** -/
theorem met_perform (h : Met b.table b.callers) (hb : b.Sound) (hd : b.Allows d)
    (hw : b.Warrants d) : Met (b.perform d).table (b.perform d).callers := by
  cases d with
  | bring message =>
    rw [perform, Table.deliver_eq_put]
    exact h.put
  | fail reason => exact h.fail reason
  | enter key =>
    refine h.enter hw.1 hw.2 fun k hwait => ?_
    exact Nat.lt_irrefl _ (hb.manned.early k _ (hb.manned.waits k _ hwait))
  | leave key ticket =>
    rw [perform]
    rcases b.table.leave_cases key ticket with ⟨he, -⟩ | ⟨batch, -, -, he⟩ <;> rw [he]
    · exact h.forget ticket
    · exact (h.forget ticket).put
  | claim key items handle => exact h.of_taken (b.table.taken_takeReady key handle items) rfl
  | take key items =>
    refine h.of_taken (Table.taken_takeNext hb.tidy hd) ?_
    rw [perform, Table.takeNext_snd]
  | collect key ticket batch handle => exact h.collect ticket handle batch
  | hold handle items => exact ⟨h.apart, h.once, h.waits, h.closed⟩
  | lend copy batch => exact ⟨h.apart, h.once, h.waits, h.closed⟩
  | release handle => exact ⟨h.apart, h.once, h.waits, h.closed⟩

/-- So does a journal of such deeds. -/
theorem met_after (h : Met b.table b.callers) (hb : b.Sound) (hq : b.Permits q)
    (hw : b.Each Warrants q) : Met (b.after q).table (b.after q).callers := by
  induction q generalizing b with
  | nil => exact h
  | cons d rest ih => exact ih (met_perform h hb hq.1 hw.1) (hb.perform hq.1) hq.2 hw.2

end Board

/-! ## The deeds of an event at the board they are done on -/

/-- A caller neither comes nor goes by a deed. -/
def Deed.isPlain : Deed κ α → Bool
  | .enter _ => false
  | .leave .. => false
  | _ => true

namespace Exchange

variable {x : Exchange κ (Letter κ α)} {b : Board κ α} {handle : ℕ} {d : Deed κ α}
variable {P : Board κ α → Deed κ α → Prop}

omit [DecidableEq κ] in
theorem isPlain_takeDeeds (h : d ∈ x.takeDeeds) : d.isPlain := by
  unfold takeDeeds at h
  split at h
  · simp at h
  · obtain rfl := List.mem_singleton.mp h
    rfl

omit [DecidableEq κ] in
theorem isPlain_advanceDeeds {single : Bool} (h : d ∈ x.advanceDeeds handle single) :
    d.isPlain := by
  unfold advanceDeeds at h
  split at h
  · simp at h
  · rcases List.mem_pair.mp h with rfl | rfl <;> rfl
  · split at h
    · obtain rfl := List.mem_singleton.mp h
      rfl
    · rcases List.mem_pair.mp h with rfl | rfl <;> rfl

omit [DecidableEq κ] in
theorem isPlain_seekNextDeeds {cursor : Cursor κ (Letter κ α)} {single : Bool}
    (h : d ∈ x.seekNextDeeds cursor handle single) : d.isPlain := by
  unfold seekNextDeeds at h
  split at h
  · split at h
    · simp at h
    · obtain rfl := List.mem_singleton.mp h
      rfl
  · exact isPlain_advanceDeeds h

/-- A caller that goes by a deed of a new call had the call's number. -/
theorem each_vacateDeeds (hleave : ∀ key ticket, .leave key ticket ∈ x.vacateDeeds handle →
    P b (.leave key ticket)) : b.Each P (x.vacateDeeds handle) := by
  unfold vacateDeeds at hleave ⊢
  split
  · next key ticket hticket =>
    exact ⟨hleave key ticket (by simp [hticket]), trivial⟩
  · trivial

/-- A caller comes where nothing is ready for it and the connection stands. -/
theorem each_seekDeeds (h : b.Follows x) (hplain : ∀ c d, d.isPlain → P c d)
    (henter : ∀ key, b.table.readyAt? key = none → b.table.broken = none → P b (.enter key))
    (key : κ) (fired : Option Bool) (deadline : Option ℕ) (now : ℕ) :
    b.Each P (x.seekDeeds handle key fired deadline now) := by
  unfold seekDeeds
  split
  · trivial
  · cases hready : x.table.readyAt? key with
    | some items => exact ⟨hplain b _ rfl, trivial⟩
    | none =>
      cases hbroken : x.table.broken with
      | some reason => trivial
      | none =>
        by_cases hpassed : passed now deadline
        · simp only [hpassed, if_true]
          trivial
        · simp only [hpassed, Bool.false_eq_true, if_false]
          exact ⟨henter key (h.table ▸ hready) (h.table ▸ hbroken), trivial⟩

theorem each_pollReceiveDeeds {key : κ} {ticket : ℕ} {fired : Option Bool} {deadline : Option ℕ}
    {now : ℕ} (hplain : ∀ c d, d.isPlain → P c d)
    (hleave : ∀ k i, .leave k i ∈ x.pollReceiveDeeds handle key ticket fired deadline now →
      P b (.leave k i)) :
    b.Each P (x.pollReceiveDeeds handle key ticket fired deadline now) := by
  unfold pollReceiveDeeds at hleave ⊢
  split
  · next hfired => exact ⟨hleave key ticket (by simp [hfired]), trivial⟩
  · next hfired =>
    simp only [if_neg hfired] at hleave
    split
    · exact ⟨hplain b _ rfl, trivial⟩
    · next htold => exact ⟨hleave key ticket (by simp [htold]), trivial⟩
    · next htold =>
      split
      · next hpassed => exact ⟨hleave key ticket (by simp [htold, hpassed]), trivial⟩
      · trivial

/-- **What the deeds of an event have** at the board they are done on: what all
plain deeds have, what those who go have, and what a caller has that waits for
nothing ready on a standing connection. -/
theorem each_deeds (hb : b.Sound) (h : b.Follows x) (event : Event κ (Letter κ α))
    (hplain : ∀ c d, d.isPlain → P c d)
    (hleave : ∀ key ticket, .leave key ticket ∈ x.deeds event → P b (.leave key ticket))
    (henter : ∀ c key, c.table.readyAt? key = none → c.table.broken = none → P c (.enter key)) :
    b.Each P (x.deeds event) := by
  have all : ∀ {c : Board κ α} {q}, (∀ d ∈ q, d.isPlain) → c.Each P q := fun hq =>
    Board.each_of_forall fun d hd c => hplain c d (hq d hd)
  cases event with
  | deliver key message => exact ⟨hplain b _ rfl, trivial⟩
  | fail reason => exact ⟨hplain b _ rfl, trivial⟩
  | take => exact all fun _ => isPlain_takeDeeds
  | move now deadline move =>
    cases move with
    | receive handle key fired =>
      have gone : b.Each P (x.vacateDeeds handle) :=
        each_vacateDeeds fun k i hin => hleave k i (List.mem_append.mpr (.inl hin))
      -- the first question is asked after the number was vacated
      obtain ⟨-, hfollows, -⟩ := Leads.vacate x handle b hb h
      exact Board.each_append.mpr
        ⟨gone, each_seekDeeds hfollows hplain (henter _) key fired deadline now⟩
    | poll handle =>
      simp only [deeds, moveDeeds, pollDeeds] at hleave ⊢
      cases hcall : x.calls.find? handle with
      | none => trivial
      | some call =>
        cases call with
        | next serial single woken =>
          cases woken
          · trivial
          · exact all fun _ => isPlain_advanceDeeds
        | receive key ticket fired until_ =>
          simp only [hcall] at hleave
          exact each_pollReceiveDeeds hplain hleave
    | drop handle =>
      simp only [deeds, moveDeeds] at hleave ⊢
      split
      · next hcall => exact each_vacateDeeds fun k i hin => hleave k i (by rwa [if_pos hcall])
      · exact ⟨hplain b _ rfl, trivial⟩
    | next cursor handle single =>
      simp only [deeds, moveDeeds, nextDeeds] at hleave ⊢
      split
      · trivial
      · split
        · trivial
        · next c hcursor hbusy =>
          simp only [hcursor, if_neg hbusy, List.mem_append] at hleave
          exact Board.each_append.mpr ⟨each_vacateDeeds fun k i hin => hleave k i (.inl hin),
            all fun _ => isPlain_seekNextDeeds⟩
    | tryNext cursor =>
      simp only [deeds, moveDeeds, tryNextDeeds]
      split
      · trivial
      · split
        · trivial
        · exact all fun _ => isPlain_takeDeeds
    | clone handle copy =>
      simp only [deeds, moveDeeds, cloneDeeds]
      split
      · trivial
      · exact ⟨hplain b _ rfl, trivial⟩
    | unwrap handle copies =>
      simp only [deeds, moveDeeds, unwrapDeeds]
      split
      · trivial
      · split
        · exact ⟨hplain b _ rfl, trivial⟩
        · trivial
    | cancel handle => trivial
    | openCursor cursor => trivial
    | closeCursor cursor => trivial
    | view handle => trivial

/-! ## Runs -/

/-- Each event of a run has a property at the exchange it happens to. -/
def Throughout {β : Type} (Q : Exchange κ β → Event κ β → Prop) (x : Exchange κ β) :
    List (Event κ β) → Prop
  | [] => True
  | event :: rest => Q x event ∧ (x.step event).2.Throughout Q rest

instance instDecidableThroughout {β : Type} (Q : Exchange κ β → Event κ β → Prop)
    [∀ x event, Decidable (Q x event)] :
    ∀ (x : Exchange κ β) (events : List (Event κ β)), Decidable (x.Throughout Q events)
  | _, [] => inferInstanceAs (Decidable True)
  | x, event :: rest =>
    have := instDecidableThroughout Q (x.step event).2 rest
    inferInstanceAs (Decidable (Q x event ∧ (x.step event).2.Throughout Q rest))

theorem throughout_of_forall {β : Type} {Q : Exchange κ β → Event κ β → Prop}
    (h : ∀ x event, Q x event) (x : Exchange κ β) (events : List (Event κ β)) :
    x.Throughout Q events := by
  induction events generalizing x with
  | nil => trivial
  | cons event rest ih => exact ⟨h x event, ih _⟩

/-- **What the events of a run give their deeds, the journal has.** -/
theorem each_journal {Q : Exchange κ (Letter κ α) → Event κ (Letter κ α) → Prop}
    (hstep : ∀ (b : Board κ α) x event, b.Sound → b.Follows x → Q x event →
      b.Each P (x.deeds event))
    (hb : b.Sound) (h : b.Follows x) {n : ℕ} (hn : n = b.delivered.length)
    (events : List (Event κ α)) (hQ : x.Throughout Q (stampFrom n events)) :
    b.Each P (x.journal (stampFrom n events)) := by
  induction events generalizing b x n with
  | nil => trivial
  | cons plain rest ih =>
    obtain ⟨hpermits, hfollows, hmore⟩ := follows_step hb h (congrArg plain.stamp hn)
    have hsound := hpermits.keeps hb fun _ _ => Board.Sound.perform
    have hcount : plain.next n = (b.after (x.deeds (plain.stamp n))).delivered.length := by
      rw [hmore, List.length_append, ← hn]
      cases plain <;> rfl
    rw [stampFrom, journal]
    exact Board.each_append.mpr ⟨hstep b x _ hb h hQ.1, ih hsound hfollows hcount hQ.2⟩

/-- **Along every run a caller begins to wait only when it has to.** -/
theorem warrants_journal (events : List (Event κ α)) :
    (Board.empty : Board κ α).Each Board.Warrants (journal empty (stamped events)) := by
  refine each_journal (Q := fun _ _ => True) (fun b x event hb h _ => ?_) Board.Sound.empty
    Board.Follows.empty rfl events (throughout_of_forall (fun _ _ => trivial) _ _)
  refine each_deeds hb h event (fun c d hd => ?_) (fun _ _ _ => trivial)
    fun c key hnone hopen => ⟨hnone, hopen⟩
  cases d <;> trivial

/-- **Callers and answers are met** after every run. -/
theorem met_boardAfter (events : List (Event κ α)) :
    Met (boardAfter events).table (boardAfter events).callers :=
  Board.met_after Met.empty Board.Sound.empty (permits_journal events) (warrants_journal events)

/-- The exchange after a run from the beginning. -/
def stateAfter (events : List (Event κ α)) : Exchange κ (Letter κ α) :=
  (run empty (stamped events)).2

/-! ## Calls that were told nothing -/

/-- A call waits for a key and was told nothing. -/
def Unanswered {β : Type} (x : Exchange κ β) (handle : ℕ) (key : κ) (ticket : ℕ) : Prop :=
  x.ticketAt handle = some (key, ticket) ∧ x.table.resolved.find? ticket = none

/-- **The table lists exactly the calls that were told nothing.** -/
theorem waits_iff_unanswered (hb : b.Sound) (h : b.Follows x) (hmet : Met b.table b.callers)
    {key : κ} {ticket : ℕ} :
    b.table.Waits key ticket ↔ ∃ handle, x.Unanswered handle key ticket := by
  constructor
  · intro hw
    obtain ⟨handle, hcall⟩ := (h.callers key ticket).mp (hb.manned.waits key ticket hw)
    exact ⟨handle, hcall, h.table ▸ hb.manned.free key ticket hw⟩
  · rintro ⟨handle, hcall, hnone⟩
    exact hmet.waits key ticket ((h.callers key ticket).mpr ⟨handle, hcall⟩) (h.table ▸ hnone)

end Exchange

end FramedDuplex
