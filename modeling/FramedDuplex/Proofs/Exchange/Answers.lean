import FramedDuplex.Proofs.Exchange.Journal
/-!
# Answers and what is handed out

The journal says which batches a run hands out, and callers are told of exactly
these (`Exchange.reports_run`): every batch that is handed out is answered, whole
or by its first message, and an answer with messages that comes without one takes
them from a batch that is held or from what a cursor has left.
-/

namespace FramedDuplex

namespace Exchange

variable {κ α : Type} {x y : Exchange κ (Letter κ α)}

/-- Whether an answer has no messages. -/
def Answer.isPlain {β : Type} : Answer κ β → Bool
  | batch _ => false
  | keyed _ _ => false
  | message _ => false
  | _ => true

/-- **An answer reports the batches that are handed out with it.** A batch is
answered whole or by its first message, of which a cursor keeps the rest. Without
a batch the messages of an answer are held or left over already. -/
inductive Reports (x : Exchange κ (Letter κ α)) :
    Answer κ (Letter κ α) → List (Handout κ α) → Prop where
  | batch (out : Handout κ α) : Reports x (.batch out.items) [out]
  | keyed (key : κ) (out : Handout κ α) : Reports x (.keyed key out.items) [out]
  | first (out : Handout κ α) {m : Letter κ α} {rest : List (Letter κ α)} :
      out.items = m :: rest → Reports x (.message m) [out]
  | held {handle : ℕ} {batch : Batch (Letter κ α)} :
      x.table.held.find? handle = some batch → Reports x (.batch batch.items) []
  | left {cursor : ℕ} {c : Cursor κ (Letter κ α)} {key : κ} {items : List (Letter κ α)} :
      x.cursors.find? cursor = some c → c.left = some (key, items) →
        Reports x (.keyed key items) []
  | leftFirst {cursor : ℕ} {c : Cursor κ (Letter κ α)} {key : κ} {m : Letter κ α}
      {rest : List (Letter κ α)} :
      x.cursors.find? cursor = some c → c.left = some (key, m :: rest) →
        Reports x (.message m) []
  | plain {a : Answer κ (Letter κ α)} : a.isPlain → Reports x a []

@[simp] theorem handouts_vacate (x : Exchange κ (Letter κ α)) (handle : ℕ) (p : List (Deed κ α)) :
    Deed.handouts (x.vacateDeeds handle ++ p) = Deed.handouts p := by
  unfold Deed.handouts vacateDeeds
  rw [List.filterMap_append]
  split <;> rfl

theorem reports_advance (serial handle : ℕ) (single : Bool) :
    Reports x (y.advance serial handle single).1
      (Deed.handouts (y.advanceDeeds handle single)) := by
  unfold advance advanceDeeds
  cases hready : y.table.ready with
  | nil =>
    simp only [take, Table.takeNext, hready]
    split <;> exact .plain rfl
  | cons e rest =>
    obtain ⟨key, items⟩ := e
    simp only [take, Table.takeNext, hready]
    cases items with
    | nil => exact .keyed key (.ready key [])
    | cons m more =>
      cases single
      · exact .keyed key (.ready key (m :: more))
      · exact .first (.ready key (m :: more)) rfl

theorem reports_seekNext {cursor : ℕ} {c : Cursor κ (Letter κ α)}
    (hcursor : x.cursors.find? cursor = some c) (handle : ℕ) (single : Bool) :
    Reports x (y.seekNext c handle single).1 (Deed.handouts (y.seekNextDeeds c handle single)) := by
  obtain ⟨serial, left⟩ := c
  cases left with
  | none => exact reports_advance (y := y.leaveOver serial none) serial handle single
  | some e =>
    obtain ⟨key, items⟩ := e
    cases items with
    | nil => exact reports_advance (y := y.leaveOver serial none) serial handle single
    | cons m rest =>
      cases single
      · exact .left hcursor rfl
      · exact .leftFirst hcursor rfl

variable [DecidableEq κ]

theorem reports_seek (handle : ℕ) (key : κ) (fired : Option Bool) (deadline : Option ℕ) (now : ℕ) :
    Reports x (y.seek handle key fired deadline now).1
      (Deed.handouts (y.seekDeeds handle key fired deadline now)) := by
  unfold seek seekDeeds
  split
  · exact .plain rfl
  · cases y.table.readyAt? key with
    | some items => exact .batch (.ready key items)
    | none =>
      cases y.table.broken with
      | some reason => exact .plain rfl
      | none =>
        by_cases hpassed : passed now deadline
        · simpa only [hpassed, if_true] using .plain rfl
        · simpa only [hpassed, if_false] using .plain rfl

theorem reports_pollReceive (handle : ℕ) (key : κ) (ticket : ℕ) (fired : Option Bool)
    (deadline : Option ℕ) (now : ℕ) :
    Reports x (y.pollReceive handle key ticket fired deadline now).1
      (Deed.handouts (y.pollReceiveDeeds handle key ticket fired deadline now)) := by
  unfold pollReceive pollReceiveDeeds
  split
  · exact .plain rfl
  · cases y.table.resolved.find? ticket with
    | none =>
      by_cases hpassed : passed now deadline
      · simpa only [hpassed, if_true] using .plain rfl
      · simpa only [hpassed, if_false] using .plain rfl
    | some told =>
      cases told with
      | batch batch => exact .batch (.share key ticket batch)
      | broken reason => exact .plain rfl

theorem reports_take (x : Exchange κ (Letter κ α)) :
    Reports x (x.step .take).1 (Deed.handouts x.takeDeeds) := by
  unfold step takeDeeds take
  cases hready : x.table.ready with
  | nil =>
    simp only [Table.takeNext, hready]
    exact .plain rfl
  | cons e rest =>
    obtain ⟨key, items⟩ := e
    simp only [Table.takeNext, hready]
    exact .keyed key (.ready key items)

theorem reports_move (x : Exchange κ (Letter κ α)) (now : ℕ) (deadline : Option ℕ) (move : Move κ) :
    Reports x (x.act now deadline move).1 (Deed.handouts (x.moveDeeds now deadline move)) := by
  cases move with
  | receive handle key fired =>
    rw [moveDeeds, handouts_vacate]
    exact reports_seek (y := x.vacate handle) handle key fired deadline now
  | poll handle =>
    simp only [moveDeeds, act, pollDeeds, poll]
    cases x.calls.find? handle with
    | none => exact .plain rfl
    | some call =>
      cases call with
      | receive key ticket fired deadline => exact reports_pollReceive handle key ticket fired _ now
      | next serial single woken =>
        cases woken
        · exact .plain rfl
        · exact reports_advance serial handle single
  | drop handle =>
    have none : Deed.handouts (x.vacateDeeds handle) = [] := by
      rw [← List.append_nil (x.vacateDeeds handle), handouts_vacate]
      rfl
    simp only [moveDeeds, act, drop]
    split
    · rw [none]
      exact .plain rfl
    · exact .plain rfl
  | next cursor handle single =>
    simp only [moveDeeds, act, nextDeeds, next]
    cases hcursor : x.cursors.find? cursor with
    | none => exact .plain rfl
    | some c =>
      cases hbusy : x.isBusy c.serial with
      | true => simpa only [hbusy, if_true] using .plain rfl
      | false =>
        simp only [hbusy, Bool.false_eq_true, if_false, handouts_vacate]
        exact reports_seekNext hcursor handle single
  | tryNext cursor =>
    simp only [moveDeeds, act, tryNextDeeds, tryNext]
    cases x.cursors.find? cursor with
    | none => exact .plain rfl
    | some c =>
      cases hbusy : x.isBusy c.serial with
      | true => simpa only [hbusy, if_true] using .plain rfl
      | false =>
        simp only [hbusy, Bool.false_eq_true, if_false]
        exact reports_take x
  | clone handle copy =>
    simp only [moveDeeds, act, cloneDeeds, clone]
    cases x.table.held.find? handle <;> exact .plain rfl
  | unwrap handle copies =>
    simp only [moveDeeds, act, unwrapDeeds, unwrap]
    cases hheld : x.table.held.find? handle with
    | none => exact .plain rfl
    | some batch =>
      by_cases hfree : copies ∨ x.table.shares batch.serial = 1
      · simpa only [if_pos hfree] using .held hheld
      · simpa only [if_neg hfree] using .plain rfl
  | view handle =>
    simp only [moveDeeds, act, view]
    cases hheld : x.table.held.find? handle with
    | none => exact .plain rfl
    | some batch => exact .held hheld
  | cancel handle => exact .plain rfl
  | openCursor cursor => exact .plain rfl
  | closeCursor cursor => exact .plain rfl

/-- **Every event answers with what it hands out.** -/
theorem reports_step (x : Exchange κ (Letter κ α)) (event : Event κ (Letter κ α)) :
    Reports x (x.step event).1 (Deed.handouts (x.deeds event)) := by
  cases event with
  | deliver key message => exact .plain rfl
  | fail reason => exact .plain rfl
  | take => exact reports_take x
  | move now deadline move => exact reports_move x now deadline move

/-- The answers of a run report batches one event after the other. -/
inductive ReportsAll : Exchange κ (Letter κ α) → List (Event κ (Letter κ α)) →
    List (Answer κ (Letter κ α)) → List (Handout κ α) → Prop where
  | nil (x : Exchange κ (Letter κ α)) : ReportsAll x [] [] []
  | cons {x : Exchange κ (Letter κ α)} {event : Event κ (Letter κ α)}
      {rest : List (Event κ (Letter κ α))} {answer : Answer κ (Letter κ α)}
      {answers : List (Answer κ (Letter κ α))} {outs more : List (Handout κ α)} :
      Reports x answer outs → ReportsAll (x.step event).2 rest answers more →
        ReportsAll x (event :: rest) (answer :: answers) (outs ++ more)

/-- **So does a run**: what its journal hands out is what its answers report. -/
theorem reports_run (x : Exchange κ (Letter κ α)) (events : List (Event κ (Letter κ α))) :
    ReportsAll x events (x.run events).1 (Deed.handouts (x.journal events)) := by
  induction events generalizing x with
  | nil => exact .nil x
  | cons event rest ih =>
    rw [journal, Deed.handouts, List.filterMap_append]
    exact .cons (reports_step x event) (ih (x.step event).2)

end Exchange

end FramedDuplex
