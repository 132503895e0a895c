import FramedDuplex.Proofs.Exchange.Traceless
/-!
# What a call leaves when it fails

A call under a key that fails is let go: by its token, by its deadline or by the
end of the connection. A batch that was sent to it and to nobody else is not lost
(`Table.PutBack`): those who wait under the key by then share it, and else it is
ready, in front of what has come since. Everything else stays
(`Exchange.LetsGo`).

This needs what every run keeps: no caller is listed that was told something, or
beside answers that are ready (`Exchange.letsGo_quit`).
-/

namespace FramedDuplex

variable {κ α : Type}

namespace Table

variable {t u : Table κ α} {key : κ} {items : List α} {ticket : ℕ} {batch : Batch α}

/-- A caller was sent a batch, and nobody else has a share of it. -/
structure SoleShare (t : Table κ α) (ticket : ℕ) (batch : Batch α) : Prop where
  sent : t.Sent ticket batch
  callers : ∀ other b, t.Sent other b → b.serial = batch.serial → other = ticket
  holders : ∀ handle b, t.held.find? handle = some b → b.serial ≠ batch.serial

/-- It is the share whose batch goes back. -/
theorem soleShare_iff (h : t.Tidy) (hsent : t.Sent ticket batch) :
    t.SoleShare ticket batch ↔ (t.forget ticket).shares batch.serial = 0 := by
  rw [shares_eq_zero_iff (h.forget ticket)]
  constructor
  · intro hsole
    refine ⟨fun other b hb hserial => ?_, hsole.holders⟩
    obtain ⟨hb, hne⟩ := sent_forget.mp hb
    exact hne (hsole.callers other b hb hserial)
  · rintro ⟨hcallers, hholders⟩
    refine ⟨hsent, fun other b hb hserial => ?_, hholders⟩
    by_contra hne
    exact hcallers other b (sent_forget.mpr ⟨hb, hne⟩) hserial

theorem Tidy.map {β : Type} (h : t.Tidy) (f : α → β) : (t.map f).Tidy := by
  refine ⟨?_, ?_, ?_⟩
  · simpa [Table.map, mapEntry, Function.comp_def] using h.ready
  · simpa [Table.map, Handles.map, Handles.Distinct, Function.comp_def] using h.resolved
  · simpa [Table.map, Handles.map, Handles.Distinct, Function.comp_def] using h.held

/-- A caller that was told something is not listed, so others wait under a key
with or without it. -/
theorem waits_forget_iff (free : t.Untold) (hsent : t.Sent ticket batch) {other : ℕ} :
    (t.forget ticket).Waits key other ↔ t.Waits key other := by
  rw [waits_forget, and_iff_left_iff_imp]
  rintro hwaits rfl
  rw [Sent, free key other hwaits] at hsent
  cases hsent

variable [DecidableEq κ]

/-- **Answers came back** under a key: to those who wait under it, or else in front
of what is ready. -/
structure PutBack (t u : Table κ α) (key : κ) (items : List α) : Prop where
  ready : (∀ ticket, ¬ t.Waits key ticket) →
    u.readyAt? key = some (items ++ (t.readyAt? key).getD [])
  callers : ∃ serial, ∀ ticket, t.Waits key ticket →
    u.Sent ticket ⟨serial, items⟩ ∧ ¬ u.Waits key ticket

theorem putBack_put (apart : ∀ ticket, t.Waits key ticket → t.readyAt? key = none)
    (items : List α) : t.PutBack (t.put (items ++ ·) key items) key items := by
  rcases put_cases t (items ++ ·) key items with ⟨old, hold, he⟩ | ⟨hnone, hnobody, he⟩ |
    ⟨-, ⟨other, hother⟩, he⟩
  · refine ⟨fun _ => ?_, 0, fun ticket hwaits => ?_⟩
    · rw [he, readyAt?_changeReady, if_pos rfl, hold]
      rfl
    · rw [apart ticket hwaits] at hold
      cases hold
  · refine ⟨fun _ => ?_, 0, fun ticket hwaits => absurd hwaits (hnobody ticket)⟩
    rw [he, readyAt?_start hnone, if_pos rfl, hnone]
    simp
  · refine ⟨fun hnobody => absurd hother (hnobody other), t.nextSerial, fun ticket hwaits => ?_⟩
    rw [he]
    refine ⟨?_, fun h => (waits_resolve.mp h).2 rfl⟩
    rw [Sent, find?_resolve, if_pos (mem_waitingOn.mpr hwaits)]

/-- Whose share goes back makes no difference to where it goes. -/
theorem PutBack.of_forget (free : t.Untold) (hsent : t.Sent ticket batch)
    (h : (t.forget ticket).PutBack u key items) : t.PutBack u key items where
  ready hnobody := h.ready fun other hwaits => hnobody other ((waits_forget_iff free hsent).mp hwaits)
  callers := by
    obtain ⟨serial, hcallers⟩ := h.callers
    exact ⟨serial, fun other hwaits => hcallers other ((waits_forget_iff free hsent).mpr hwaits)⟩

/-- A caller that has left is neither listed nor told anything. -/
theorem gone_of_leave (t : Table κ α) (key : κ) (ticket : ℕ) :
    (∀ k, ¬ (t.leave key ticket).1.Waits k ticket) ∧
      (t.leave key ticket).1.resolved.find? ticket = none := by
  have hunlisted : ∀ k, ¬ (t.forget ticket).Waits k ticket := fun k h => (waits_forget.mp h).2 rfl
  have huntold : (t.forget ticket).resolved.find? ticket = none := Handles.find?_erase_self ..
  rcases t.leave_cases key ticket with ⟨he, -⟩ | ⟨batch, -, -, he⟩ <;> rw [he]
  · exact ⟨hunlisted, huntold⟩
  · refine ⟨fun k h => hunlisted k (waits_of_put h), ?_⟩
    rcases put_cases (t.forget ticket) (batch.items ++ ·) key batch.items with
      ⟨old, -, he⟩ | ⟨-, -, he⟩ | ⟨-, -, he⟩ <;> rw [he]
    · exact huntold
    · exact huntold
    · rw [find?_resolve, if_neg fun h => hunlisted key (mem_waitingOn.mp h), huntold]

theorem held_leave (t : Table κ α) (key : κ) (ticket : ℕ) :
    (t.leave key ticket).1.held = t.held := by
  rcases t.leave_cases key ticket with ⟨he, -⟩ | ⟨batch, -, -, he⟩ <;> rw [he]
  · rfl
  · rcases put_cases (t.forget ticket) (batch.items ++ ·) key batch.items with
      ⟨old, -, he⟩ | ⟨-, -, he⟩ | ⟨-, -, he⟩ <;> rw [he] <;> rfl

end Table

namespace Exchange

variable {x y : Exchange κ α} {handle ticket : ℕ} {key : κ}
variable [DecidableEq κ]

theorem tidy_run (events : List (Event κ α)) :
    (run (empty : Exchange κ α) events).2.table.Tidy := by
  have htidy := (sound_boardAfter events).tidy
  rw [(follows_boardAfter events).table] at htidy
  rw [run_eq_map]
  exact htidy.map Letter.item

/-- **A call was let go**, and with it nothing but its own place. -/
structure LetsGo (x y : Exchange κ α) (handle : ℕ) (key : κ) (ticket : ℕ) : Prop where
  call : y.calls.find? handle = none
  unlisted : ∀ k, ¬ y.table.Waits k ticket
  untold : y.table.resolved.find? ticket = none
  others : ∀ other, other ≠ handle → y.ticketAt other = x.ticketAt other
  cursors : y.cursors = x.cursors
  held : y.table.held = x.table.held
  /-- The connection is as it was. -/
  broken : y.table.broken = x.table.broken
  /-- A batch that was sent to the call alone is back. -/
  back : ∀ batch, x.table.SoleShare ticket batch → x.table.PutBack y.table key batch.items
  /-- If there was none, nothing comes back. -/
  nothing : (∀ batch, ¬ x.table.SoleShare ticket batch) → y.table = x.table.forget ticket

theorem letsGo_quit {events : List (Event κ α)} (hx : x = (run empty events).2) (handle : ℕ)
    (key : κ) (ticket : ℕ) : x.LetsGo (x.quit handle key ticket) handle key ticket := by
  have htidy : x.table.Tidy := hx ▸ tidy_run events
  have free : x.table.Untold := hx ▸ untold_run events
  have apart : ∀ other, x.table.Waits key other → x.table.readyAt? key = none := by
    subst hx
    exact fun other h => (alone_of_waits h).1
  have htable : (x.quit handle key ticket).table = (x.table.leave key ticket).1 := by
    rw [quit, table_settleTable]
  have hlater : x.table.Later (x.quit handle key ticket).table :=
    .turns (turns_quit (P := .all) rfl rfl x handle)
  obtain ⟨hunlisted, huntold⟩ := x.table.gone_of_leave key ticket
  exact {
    call := find?_quit ..
    unlisted := by rwa [htable]
    untold := by rwa [htable]
    others := fun other hne => by rw [ticketAt_quit, if_neg hne]
    cursors := by
      rw [quit, settleTable]
      cases (x.table.leave key ticket).2 <;> rfl
    held := by rw [htable, Table.held_leave]
    broken := hlater.broken
    back := by
      intro batch hsole
      have hshares := (Table.soleShare_iff htidy hsole.sent).mp hsole
      rw [htable, Table.leave_of_shares key hsole.sent hshares]
      refine (Table.putBack_put (fun other hwaits => ?_) batch.items).of_forget free hsole.sent
      exact apart other ((Table.waits_forget_iff free hsole.sent).mp hwaits)
    nothing := by
      intro hnone
      rw [htable]
      rcases x.table.leave_cases key ticket with ⟨he, -⟩ | ⟨batch, hsent, hshares, -⟩
      · exact he
      · exact absurd ((Table.soleShare_iff htidy hsent).mpr hshares) (hnone batch) }

/-- A call that fails is let go. -/
theorem pollReceive_of_failed {fired : Option Bool} {deadline : Option ℕ} {now : ℕ}
    {cause : ClientError}
    (h : (x.pollReceive handle key ticket fired deadline now).1 = .failed cause) :
    (x.pollReceive handle key ticket fired deadline now).2 = x.quit handle key ticket := by
  unfold pollReceive at h ⊢
  split at h
  · next hfired => rw [if_pos hfired]
  · next hfired =>
    rw [if_neg hfired]
    split at h
    · simp at h
    · rfl
    · split at h
      · next hpassed => rw [if_pos hpassed]
      · simp at h

end Exchange

end FramedDuplex
