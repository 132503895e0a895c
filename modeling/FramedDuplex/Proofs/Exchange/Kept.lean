import FramedDuplex.Proofs.Exchange.Answers
import FramedDuplex.Proofs.Exchange.Follow
import FramedDuplex.Proofs.Exchange.Map
/-!
# No message is lost

Whatever callers do, a message that was delivered is ready under its key, or on
its way to a caller of the key, or was handed out
(`Exchange.no_message_lost`). It never is ready and on its way at once, and never
ready twice. Messages are numbered for that, so that two that carry the same item
are still two; the run is the same run without the numbers.
-/

namespace FramedDuplex

variable {κ α : Type} [DecidableEq κ] {b : Board κ α} {m : Letter κ α}

namespace Board.Sound

/-- What is ready under a key came under it. -/
theorem ready_of_at (h : b.Sound) {key : κ} (hat : b.table.At m (.ready key)) :
    b.table.At m (.ready m.key) := by
  obtain ⟨items, hitems, hm⟩ := hat
  rw [h.manned.ready key items hitems m hm]
  exact ⟨items, hitems, hm⟩

/-- What was sent and not collected was sent to a caller of its key. -/
theorem caller_of_at (h : b.Sound) {serial : ℕ} (hat : b.table.At m (.sent serial)) :
    ∃ ticket batch, (m.key, ticket) ∈ b.callers ∧ b.table.Sent ticket batch ∧ m ∈ batch.items := by
  obtain ⟨ticket, batch, hsent, -, hm⟩ := hat
  obtain ⟨key, hin⟩ := h.manned.told ticket _ hsent
  have hkey := h.manned.sent key ticket batch hin hsent m hm
  exact ⟨ticket, batch, hkey ▸ hin, hsent, hm⟩

/-- All that is ready, key by key, is in one place once. -/
theorem nodup_ready (h : b.Sound) : (b.table.ready.flatMap (·.2)).Nodup := by
  rw [List.nodup_flatMap]
  refine ⟨fun e he => (h.placed.plain.1 e.1 e.2 (Table.readyAt?_of_mem h.tidy he)).1, ?_⟩
  have keys := List.pairwise_map.mp h.tidy.ready
  refine keys.imp_of_mem fun {e e'} he he' hne m hm hm' => hne ?_
  have hat : b.table.At m (.ready e.1) := ⟨e.2, Table.readyAt?_of_mem h.tidy he, hm⟩
  have hat' : b.table.At m (.ready e'.1) := ⟨e'.2, Table.readyAt?_of_mem h.tidy he', hm'⟩
  simpa using h.placed.one m _ _ hat hat'

end Board.Sound

namespace Exchange

/-- **No message is lost.** At every point of every run, each message that was
delivered is ready under its key, or in a batch that was sent to a live call for
that key and is not collected yet, or was handed out, which callers were told.
None is ready and in such a batch at once, and none is ready twice. The numbers
of the messages change nothing. -/
theorem no_message_lost (events : List (Event κ α)) :
    let answers := (run empty (stamped events)).1
    let x := (run empty (stamped events)).2
    (answers.map (·.map Letter.item), x.map Letter.item) = run empty events ∧
    ReportsAll empty (stamped events) answers (handed events) ∧
    (∀ m ∈ delivered events,
      (∃ items, x.table.readyAt? m.key = some items ∧ m ∈ items) ∨
      (∃ handle ticket fired deadline batch,
        x.calls.find? handle = some (.receive m.key ticket fired deadline) ∧
          x.table.resolved.find? ticket = some (.batch batch) ∧ m ∈ batch.items) ∨
      ∃ out ∈ handed events, m ∈ out.items) ∧
    (∀ key items ticket batch, x.table.readyAt? key = some items →
      x.table.resolved.find? ticket = some (.batch batch) → ∀ m ∈ items, m ∉ batch.items) ∧
    (x.table.ready.flatMap (·.2)).Nodup := by
  intro answers x
  have sound := sound_boardAfter events
  have follows : (boardAfter events).Follows x := follows_boardAfter events
  rw [← follows.table]
  refine ⟨run_stamped events, reports_run empty (stamped events), fun m hm => ?_,
    fun key items ticket batch hitems hsent m hm hin => ?_, sound.nodup_ready⟩
  · rw [← delivered_boardAfter] at hm
    rcases sound.kept m hm with ⟨place, hat⟩ | ⟨out, hout, hin⟩
    · cases place with
      | ready key => exact .inl (sound.ready_of_at hat)
      | sent serial =>
        obtain ⟨ticket, batch, hcaller, hsent, hin⟩ := sound.caller_of_at hat
        obtain ⟨handle, hticket⟩ := (follows.callers m.key ticket).mp hcaller
        obtain ⟨fired, deadline, hcall⟩ := call_of_ticketAt hticket
        exact .inr (.inl ⟨handle, ticket, fired, deadline, batch, hcall, hsent, hin⟩)
    · rw [handed_boardAfter] at hout
      exact .inr (.inr ⟨out, hout, hin⟩)
  · have hready : (boardAfter events).table.At m (.ready key) := ⟨items, hitems, hm⟩
    have hsent : (boardAfter events).table.At m (.sent batch.serial) :=
      ⟨ticket, batch, hsent, rfl, hin⟩
    have hsame := sound.placed.one m _ _ hready hsent
    exact absurd hsame (by simp)

end Exchange

end FramedDuplex
