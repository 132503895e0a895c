import FramedDuplex.Proofs.Exchange.Map
import FramedDuplex.Proofs.Exchange.Met
/-!
# Nobody sleeps beside what it waits for

A call for a key that was told nothing has nothing ready under its key, and a
call on a cursor that nobody has woken has nothing ready under any key; the
connection stands for both (`Exchange.Alert`). The callers of a key are the
table's own affair (`Met`). The cursors are not listed anywhere: they sleep until
an operation that makes a key ready, or ends the connection, says so and wakes
them all. So what has to be shown of every other operation is that it leaves
nothing ready where nothing was (`Table.Quiet`).
-/

namespace FramedDuplex

variable {κ α : Type}

namespace Table

variable {t u : Table κ α} {key : κ} {items : List α} {ticket : ℕ}

/-- Nothing becomes ready that a sleeper would have to be told of, and the
connection stands or not as before. -/
structure Quiet (t u : Table κ α) : Prop where
  ready : t.ready = [] → u.ready = []
  broken : u.broken = t.broken

namespace Quiet

theorem refl (t : Table κ α) : t.Quiet t := ⟨id, rfl⟩

theorem trans {v : Table κ α} (h : t.Quiet u) (h' : u.Quiet v) : t.Quiet v :=
  ⟨fun hnil => h'.ready (h.ready hnil), h'.broken.trans h.broken⟩

theorem holdNew (t : Table κ α) (handle : ℕ) (items : List α) : t.Quiet (t.holdNew handle items) :=
  ⟨id, rfl⟩

theorem takeNext (t : Table κ α) : t.Quiet t.takeNext.2 := by
  rw [takeNext_snd]
  refine ⟨fun hnil => ?_, rfl⟩
  show t.ready.tail = []
  rw [hnil]
  rfl

variable [DecidableEq κ]

theorem takeReady (t : Table κ α) (key : κ) : t.Quiet (t.takeReady key) := by
  refine ⟨fun hnil => ?_, rfl⟩
  show t.ready.filter _ = []
  rw [hnil]
  rfl

/-- An arrival that does not say that a key became ready is quiet. -/
theorem deliver (h : (t.deliver key items).2 = false) : t.Quiet (t.deliver key items).1 := by
  unfold Table.deliver at h ⊢
  split at h
  · next hready =>
    rw [if_pos hready]
    refine ⟨fun hnil => ?_, rfl⟩
    show t.ready.map _ = []
    rw [hnil]
    rfl
  · next hready =>
    rw [if_neg hready]
    split at h
    · simp at h
    · next hwaiting =>
      rw [if_neg hwaiting]
      exact ⟨id, rfl⟩

theorem restore (h : (t.restore key items).2 = false) : t.Quiet (t.restore key items).1 := by
  unfold Table.restore at h ⊢
  split at h
  · next hready =>
    rw [if_pos hready]
    refine ⟨fun hnil => ?_, rfl⟩
    show t.ready.map _ = []
    rw [hnil]
    rfl
  · next hready =>
    rw [if_neg hready]
    exact deliver h

/-- So is a departure that does not say so. -/
theorem leave (h : (t.leave key ticket).2 = false) : t.Quiet (t.leave key ticket).1 := by
  have hforget : t.Quiet (t.forget ticket) := ⟨id, rfl⟩
  rw [leave_eq] at h ⊢
  split at h
  · exact hforget
  · split at h
    · next hshares =>
      rw [if_pos hshares]
      exact hforget.trans (restore h)
    · next hshares =>
      rw [if_neg hshares]
      exact hforget

end Quiet

end Table

namespace Exchange

variable {x y : Exchange κ α} {handle serial ticket : ℕ} {key : κ}

/-! ## Cursors -/

/-- The call of a number sleeps on a cursor, and nobody has woken it. -/
def Sleeps (x : Exchange κ α) (handle : ℕ) : Prop :=
  ∃ serial single, x.calls.find? handle = some (.next serial single false)

/-- Whoever sleeps on a cursor has missed nothing. -/
def Watched (x : Exchange κ α) : Prop :=
  ∀ handle, x.Sleeps handle → x.table.ready = [] ∧ x.table.broken = none

namespace Watched

theorem empty : (empty : Exchange κ α).Watched := by
  rintro handle ⟨serial, single, hcall⟩
  simp [Exchange.empty] at hcall

/-- No call falls asleep, and the table stays quiet. -/
theorem mono (h : x.Watched) (hcalls : ∀ n, y.Sleeps n → x.Sleeps n) (hquiet : x.table.Quiet y.table) :
    y.Watched := by
  intro n hn
  obtain ⟨hready, hbroken⟩ := h n (hcalls n hn)
  exact ⟨hquiet.ready hready, hquiet.broken.trans hbroken⟩

/-- **Where all are woken, nobody sleeps.** -/
theorem wake (x : Exchange κ α) : x.wake.Watched := by
  rintro n ⟨serial, single, hcall⟩
  simp only [Exchange.wake, Handles.find?_map] at hcall
  cases hold : x.calls.find? n with
  | none => simp [hold] at hcall
  | some call => cases call <;> simp [hold] at hcall

/-- A table is put in place that says when sleepers have to be told. -/
theorem settleTable (h : x.Watched) {t : Table κ α × Bool} (hquiet : t.2 = false → x.table.Quiet t.1) :
    (x.settleTable t).Watched := by
  obtain ⟨table, became⟩ := t
  cases became with
  | true => exact wake _
  | false => exact h.mono (fun _ => id) (hquiet rfl)

end Watched

/-- Ending a call lets no other fall asleep. -/
theorem sleeps_of_erase {n : ℕ}
    (h : ({ x with calls := x.calls.erase handle } : Exchange κ α).Sleeps n) : x.Sleeps n := by
  obtain ⟨serial, single, hcall⟩ := h
  rw [Handles.find?_erase] at hcall
  split at hcall
  · simp at hcall
  · exact ⟨serial, single, hcall⟩

/-- Nor does starting or changing one that waits for a key. -/
theorem sleeps_of_insert {n : ℕ} {fired : Option Bool} {deadline : Option ℕ}
    (h : ({ x with calls := x.calls.insert handle (.receive key ticket fired deadline) } :
      Exchange κ α).Sleeps n) : x.Sleeps n := by
  obtain ⟨serial, single, hcall⟩ := h
  rw [Handles.find?_insert] at hcall
  split at hcall
  · simp at hcall
  · exact ⟨serial, single, hcall⟩

namespace Watched

/-- **A cursor falls asleep only where there is nothing for it**: it has just
looked, and nothing is ready under any key. -/
theorem advance (h : x.Watched) (serial handle : ℕ) (single : Bool) :
    (x.advance serial handle single).2.Watched := by
  have hquiet : x.table.Quiet x.table.takeNext.2 := .takeNext x.table
  unfold Exchange.advance Exchange.take
  cases hready : x.table.ready with
  | cons entry rest =>
    obtain ⟨key, items⟩ := entry
    have htake : x.table.takeNext = (some (key, items), x.table.takeNext.2) := by
      simp [Table.takeNext, hready]
    rw [htake]
    have hended : ∀ n, ({ x with calls := x.calls.erase handle } : Exchange κ α).Sleeps n →
        x.Sleeps n := fun n => sleeps_of_erase
    cases items with
    | nil => exact h.mono hended (hquiet.trans (.holdNew ..))
    | cons item more =>
      cases single with
      | true => exact h.mono hended hquiet
      | false => exact h.mono hended (hquiet.trans (.holdNew ..))
  | nil =>
    have htake : x.table.takeNext = (none, x.table) := by simp [Table.takeNext, hready]
    rw [htake]
    by_cases hbroken : x.table.broken.isSome
    · simp only [hbroken, if_true]
      exact h.mono (fun n => sleeps_of_erase) (.refl _)
    · simp only [hbroken, if_false, Bool.false_eq_true]
      intro n _
      exact ⟨hready, by simpa using hbroken⟩

theorem leaveOver (h : x.Watched) (serial : ℕ) (rest : Option (κ × List α)) :
    (x.leaveOver serial rest).Watched :=
  h.mono (fun _ => id) (.refl _)

theorem seekNext (h : x.Watched) (c : Cursor κ α) (handle : ℕ) (single : Bool) :
    (x.seekNext c handle single).2.Watched := by
  obtain ⟨serial, left⟩ := c
  match left with
  | none => exact (h.leaveOver serial none).advance serial handle single
  | some (key, []) => exact (h.leaveOver serial none).advance serial handle single
  | some (key, item :: rest) =>
    cases single with
    | true => exact h.leaveOver serial (some (key, rest))
    | false => exact h.mono (fun _ => id) (.holdNew ..)

theorem take (h : x.Watched) : x.take.2.Watched :=
  h.mono (fun _ => id) (.takeNext x.table)

variable [DecidableEq κ]

/-! ## All else that can happen -/

theorem quit (h : x.Watched) (handle : ℕ) (key : κ) (ticket : ℕ) :
    (x.quit handle key ticket).Watched := by
  have hended : ({ x with calls := x.calls.erase handle } : Exchange κ α).Watched :=
    h.mono (fun n => sleeps_of_erase) (.refl _)
  exact hended.settleTable .leave

theorem vacate (h : x.Watched) (handle : ℕ) : (x.vacate handle).Watched := by
  unfold Exchange.vacate
  split
  · exact h.quit handle _ _
  · exact h.mono (fun n => sleeps_of_erase) (.refl _)
  · exact h

theorem seek (h : x.Watched) (handle : ℕ) (key : κ) (fired : Option Bool) (deadline : Option ℕ)
    (now : ℕ) : (x.seek handle key fired deadline now).2.Watched := by
  unfold Exchange.seek
  split
  · exact h
  · split
    · exact h.mono (fun _ => id) ((Table.Quiet.takeReady x.table key).trans (.holdNew ..))
    · exact h
    · split
      · exact h
      · have hquiet : x.table.Quiet (x.table.enter key).2 := ⟨id, rfl⟩
        exact h.mono (fun n => sleeps_of_insert) hquiet

theorem pollReceive (h : x.Watched) (handle : ℕ) (key : κ) (ticket : ℕ) (fired : Option Bool)
    (deadline : Option ℕ) (now : ℕ) :
    (x.pollReceive handle key ticket fired deadline now).2.Watched := by
  unfold Exchange.pollReceive
  split
  · exact h.quit handle key ticket
  · split
    · next batch _ =>
      have hquiet : x.table.Quiet (x.table.collect ticket handle batch) := ⟨id, rfl⟩
      exact h.mono (fun n => sleeps_of_erase) hquiet
    · exact h.quit handle key ticket
    · split
      · exact h.quit handle key ticket
      · exact h

theorem act (h : x.Watched) (now : ℕ) (deadline : Option ℕ) (move : Move κ) :
    (x.act now deadline move).2.Watched := by
  cases move with
  | receive handle key fired => exact (h.vacate handle).seek handle key fired deadline now
  | poll handle =>
    simp only [Exchange.act, Exchange.poll]
    split
    · exact h
    · exact h.pollReceive handle _ _ _ _ now
    · split
      · exact h.advance _ handle _
      · exact h
  | cancel handle =>
    simp only [Exchange.act, Exchange.cancel]
    split
    · exact h.mono (fun n => sleeps_of_insert) (.refl _)
    · exact h
  | drop handle =>
    simp only [Exchange.act, Exchange.drop]
    split
    · exact h.vacate handle
    · exact h.mono (fun _ => id) ⟨id, rfl⟩
  | openCursor cursor => exact h.mono (fun _ => id) (.refl _)
  | closeCursor cursor => exact h.mono (fun _ => id) (.refl _)
  | next cursor handle single =>
    simp only [Exchange.act, Exchange.next]
    split
    · exact h
    · split
      · exact h
      · exact (h.vacate handle).seekNext _ handle single
  | tryNext cursor =>
    rw [Exchange.act]
    rcases x.tryNext_snd cursor with heq | heq
    · exact heq.symm ▸ h
    · exact heq ▸ h.take
  | view handle => exact h
  | clone handle copy =>
    simp only [Exchange.act, Exchange.clone]
    split
    · exact h
    · exact h.mono (fun _ => id) ⟨id, rfl⟩
  | unwrap handle copies =>
    simp only [Exchange.act, Exchange.unwrap]
    split
    · exact h
    · split
      · exact h.mono (fun _ => id) ⟨id, rfl⟩
      · exact h

/-- **No event lets a cursor sleep through something.** -/
theorem step (h : x.Watched) (event : Event κ α) : (x.step event).2.Watched := by
  cases event with
  | deliver key item => exact h.settleTable .deliver
  | fail reason => exact wake _
  | take => exact x.step_take_snd ▸ h.take
  | move now deadline move => exact h.act now deadline move

theorem run (h : x.Watched) (events : List (Event κ α)) : (x.run events).2.Watched := by
  induction events generalizing x with
  | nil => exact h
  | cons event rest ih => exact ih (h.step event)

end Watched

/-! ## Callers of a key -/

variable [DecidableEq κ]

omit [DecidableEq κ] in
/-- The numbers of the messages do not matter for who was told what. -/
theorem unanswered_map {β : Type} {f : α → β} :
    (x.map f).Unanswered handle key ticket ↔ x.Unanswered handle key ticket := by
  have hresolved : (x.map f).table.resolved.find? ticket =
      (x.table.resolved.find? ticket).map (Resolution.map f) := Handles.find?_map ..
  unfold Unanswered
  rw [hresolved, Option.map_eq_none_iff]
  rfl

/-- A run is the numbered run with the numbers forgotten. -/
theorem run_eq_map (events : List (Event κ α)) :
    (run (empty : Exchange κ α) events).2 = (stateAfter events).map Letter.item :=
  congrArg Prod.snd (run_stamped events).symm

/-- **The table lists a call that was told nothing**, in every run. -/
theorem waits_run {events : List (Event κ α)}
    (h : (run (empty : Exchange κ α) events).2.Unanswered handle key ticket) :
    (run (empty : Exchange κ α) events).2.table.Waits key ticket := by
  rw [run_eq_map, unanswered_map] at h
  have hfollows : (boardAfter events).Follows (stateAfter events) := follows_boardAfter events
  have hwaits : (boardAfter events).table.Waits key ticket :=
    (waits_iff_unanswered (sound_boardAfter events) hfollows (met_boardAfter events)).mpr
      ⟨handle, h⟩
  rw [run_eq_map]
  rwa [hfollows.table] at hwaits

/-- **Callers of a key are alert** after every run: one that the table lists has
nothing ready under its key, and the connection stands. -/
theorem alone_of_waits {events : List (Event κ α)}
    (h : (run (empty : Exchange κ α) events).2.table.Waits key ticket) :
    (run (empty : Exchange κ α) events).2.table.readyAt? key = none ∧
      (run (empty : Exchange κ α) events).2.table.broken = none := by
  rw [run_eq_map] at h ⊢
  have hfollows : (boardAfter events).Follows (stateAfter events) := follows_boardAfter events
  have hmet := met_boardAfter events
  have hwaits : (boardAfter events).table.Waits key ticket := by
    rw [hfollows.table]
    exact h
  constructor
  · have hnone := hmet.apart key ticket hwaits
    rw [hfollows.table] at hnone
    show ((stateAfter events).table.map Letter.item).readyAt? key = none
    rw [Table.readyAt?_map, hnone]
    rfl
  · show (stateAfter events).table.broken = none
    rw [← hfollows.table]
    by_contra hbroken
    have hnil := hmet.closed (Option.isSome_iff_ne_none.mpr hbroken)
    rw [Table.Waits, hnil] at hwaits
    simp at hwaits

/-- Nobody whom the table lists was told anything, in any run. -/
theorem untold_run (events : List (Event κ α)) :
    (run (empty : Exchange κ α) events).2.table.Untold := by
  intro key ticket hwaits
  rw [run_eq_map] at hwaits ⊢
  have hfollows : (boardAfter events).Follows (stateAfter events) := follows_boardAfter events
  have hlisted : (boardAfter events).table.Waits key ticket := by
    rw [hfollows.table]
    exact hwaits
  have hfree := (sound_boardAfter events).manned.free key ticket hlisted
  rw [hfollows.table] at hfree
  have hresolved : ((stateAfter events).map Letter.item).table.resolved.find? ticket =
      ((stateAfter events).table.resolved.find? ticket).map (Resolution.map Letter.item) :=
    Handles.find?_map ..
  rw [hresolved, hfree]
  rfl

/-! ## Everybody -/

/-- **Nobody sleeps beside what it waits for**: neither a call for a key that
was told nothing, nor a call on a cursor that nobody has woken. -/
structure Alert (x : Exchange κ α) : Prop where
  callers : ∀ handle key ticket, x.Unanswered handle key ticket →
    x.table.readyAt? key = none ∧ x.table.broken = none
  cursors : ∀ handle, x.Sleeps handle →
    (∀ key, x.table.readyAt? key = none) ∧ x.table.broken = none

/-- **Every run leaves everybody alert.** -/
theorem alert_run (events : List (Event κ α)) : (run (empty : Exchange κ α) events).2.Alert where
  callers _ _ _ h := alone_of_waits (waits_run h)
  cursors handle h := by
    obtain ⟨hnil, hopen⟩ := Watched.empty.run events handle h
    refine ⟨fun key => ?_, hopen⟩
    rw [Table.readyAt?, hnil]
    rfl

end Exchange

end FramedDuplex
