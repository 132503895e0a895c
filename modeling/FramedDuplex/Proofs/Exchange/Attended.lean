import FramedDuplex.Proofs.Exchange.Map
import FramedDuplex.Proofs.Exchange.Shift
/-!
# Who is at an exchange

After every run, a number names one call, each call that waits for a key has a
ticket of its own, and the table knows no other tickets; all of them were given
(`Exchange.Attended`).
Boards tell this of numbered runs, and a run without numbers is one with the
numbers forgotten.
-/

namespace FramedDuplex

variable {κ α β : Type}

namespace Exchange

/-- A number names one call at most after every run. -/
theorem distinct_run [DecidableEq κ] {x : Exchange κ α} (h : x.calls.Distinct)
    (events : List (Event κ α)) : (x.run events).2.calls.Distinct := by
  have free : ∀ (y : Exchange κ α) (move : Move κ),
      y.Confined (fun _ => True) (fun _ => True) move := by
    intro y move
    cases move <;> simp [Confined]
  induction events generalizing x with
  | nil => exact h
  | cons event rest ih =>
    have shifts : x.Shifts _ _ (x.step event).2 := shifts_step fun _ _ move _ => free x move
    exact ih (shifts.distinct h)

/-- **Calls and tickets match.** A number names one call, a ticket was given to
one call, and who waits or was told something is a call. -/
structure Attended (x : Exchange κ α) : Prop where
  numbered : x.Numbered
  distinct : x.calls.Distinct
  apart : ∀ handle other key k ticket, x.ticketAt handle = some (key, ticket) →
    x.ticketAt other = some (k, ticket) → handle = other
  waits : ∀ key ticket, x.table.Waits key ticket → ∃ handle, x.ticketAt handle = some (key, ticket)
  told : ∀ ticket told, x.table.resolved.find? ticket = some told →
    ∃ handle key, x.ticketAt handle = some (key, ticket)

variable {x : Exchange κ α}

/-- The ticket of a call was given. -/
theorem Numbered.ticketAt_lt (h : x.Numbered) {handle : ℕ} {key : κ} {ticket : ℕ}
    (hat : x.ticketAt handle = some (key, ticket)) : ticket < x.table.nextTicket := by
  obtain ⟨fired, deadline, hfind⟩ := call_of_ticketAt hat
  exact h.calls _ (Handles.mem_entries_of_find? hfind) key ticket fired deadline rfl

/-- With other messages it is attended by the same. -/
theorem Attended.map (h : x.Attended) (f : α → β) : (x.map f).Attended where
  numbered := by
    refine ⟨h.numbered.waits, fun e he => ?_, fun e he => ?_, h.numbered.calls⟩
    · obtain ⟨⟨i, told⟩, hin, rfl⟩ := List.mem_map.mp he
      refine ⟨(h.numbered.told _ hin).1, fun batch hbatch => ?_⟩
      cases told with
      | broken reason => simp [Resolution.map, Resolution.batch?] at hbatch
      | batch b =>
        obtain rfl : b.map f = batch := by simpa [Resolution.map, Resolution.batch?] using hbatch
        exact (h.numbered.told _ hin).2 b rfl
    · obtain ⟨⟨n, b⟩, hin, rfl⟩ := List.mem_map.mp he
      exact h.numbered.held _ hin
  distinct := h.distinct
  apart := h.apart
  waits := h.waits
  told ticket told htold := by
    simp only [Exchange.map, Table.map, Handles.find?_map, Option.map_eq_some_iff] at htold
    obtain ⟨old, hold, -⟩ := htold
    exact h.told ticket old hold

variable [DecidableEq κ]

/-- A board that follows an exchange knows its numbers. -/
theorem numbered_of_follows {b : Board κ α} {x : Exchange κ (Letter κ α)} (hb : b.Sound)
    (h : b.Follows x) (distinct : x.calls.Distinct) : x.Numbered := by
  obtain ⟨manned, serials, tidy⟩ := (⟨hb.manned, hb.serials, hb.tidy⟩ : _ ∧ _ ∧ _)
  rw [h.table] at manned serials tidy
  refine ⟨fun e he => ?_, fun e he => ⟨?_, fun batch hbatch => ?_⟩, fun e he => ?_,
    fun e he key ticket fired deadline hcall => ?_⟩
  · exact manned.early _ _ (manned.waits e.1 e.2 he)
  · obtain ⟨key, hin⟩ := manned.told _ _ (Handles.find?_of_mem_entries tidy.resolved he)
    exact manned.early key _ hin
  · have htold := Handles.find?_of_mem_entries tidy.resolved he
    have hsent : x.table.Sent e.1 batch :=
      Table.bind_batch?_eq_some.mp (by rw [htold]; exact hbatch)
    exact serials.early batch (.inl ⟨e.1, hsent⟩)
  · exact serials.heldEarly _ _ (Handles.find?_of_mem_entries tidy.held he)
  · have hfind := Handles.find?_of_mem_entries distinct he
    rw [hcall] at hfind
    exact manned.early key ticket ((h.callers key ticket).mpr ⟨e.1, ticketAt_of_find? hfind⟩)

/-- **Every run leaves an exchange attended.** -/
theorem attended_run (events : List (Event κ α)) : (run empty events).2.Attended := by
  have numbered : (run empty (stamped events)).2.Attended := by
    have h := follows_boardAfter events
    have distinct := distinct_run (x := (empty : Exchange κ (Letter κ α))) Handles.distinct_empty
      (stamped events)
    have manned := (sound_boardAfter events).manned
    rw [h.table] at manned
    refine ⟨numbered_of_follows (sound_boardAfter events) h distinct, distinct, h.apart,
      fun key ticket hw => (h.callers key ticket).mp (manned.waits key ticket hw),
      fun ticket told htold => ?_⟩
    obtain ⟨key, hin⟩ := manned.told ticket told htold
    obtain ⟨handle, hat⟩ := (h.callers key ticket).mp hin
    exact ⟨handle, key, hat⟩
  have plain := congrArg Prod.snd (run_stamped events)
  rw [← plain]
  exact numbered.map Letter.item

end Exchange

end FramedDuplex
