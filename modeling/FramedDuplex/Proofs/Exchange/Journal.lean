import FramedDuplex.Exchange.Run
import FramedDuplex.Proofs.Exchange.Board
/-!
# The journal of a run

Every event of a run comes down to deeds on the table (`Exchange.deeds`), and a
whole run to a journal of them (`Exchange.journal`). A call that starts under
the number of another drops that one first; the deeds show the two apart.
-/

namespace FramedDuplex

namespace Exchange

variable {κ α : Type} [DecidableEq κ]

/-- The key and the ticket of the call that has a number, if it waits for a
key. -/
def ticketAt {β : Type} (x : Exchange κ β) (handle : ℕ) : Option (κ × ℕ) :=
  (x.calls.find? handle).bind fun
    | .receive key ticket _ _ => some (key, ticket)
    | .next .. => none

/-! ## What an event does to the table -/

/-- The deeds of dropping the call of a number. -/
def vacateDeeds (x : Exchange κ (Letter κ α)) (handle : ℕ) : List (Deed κ α) :=
  match x.ticketAt handle with
  | some (key, ticket) => [.leave key ticket]
  | none => []

/-- The deeds of a call's first question. -/
def seekDeeds (x : Exchange κ (Letter κ α)) (handle : ℕ) (key : κ) (fired : Option Bool)
    (deadline : Option ℕ) (now : ℕ) : List (Deed κ α) :=
  if fired = some true then []
  else
    match x.table.readyAt? key, x.table.broken with
    | some items, _ => [.claim key items handle]
    | none, some _ => []
    | none, none => if passed now deadline then [] else [.enter key]

/-- The deeds of a later question. -/
def pollReceiveDeeds (x : Exchange κ (Letter κ α)) (handle : ℕ) (key : κ) (ticket : ℕ)
    (fired : Option Bool) (deadline : Option ℕ) (now : ℕ) : List (Deed κ α) :=
  if fired = some true then [.leave key ticket]
  else
    match x.table.resolved.find? ticket with
    | some (.batch batch) => [.collect key ticket batch handle]
    | some (.broken _) => [.leave key ticket]
    | none => if passed now deadline then [.leave key ticket] else []

/-- The deed of taking what has been ready longest. -/
def takeDeeds (x : Exchange κ (Letter κ α)) : List (Deed κ α) :=
  match x.table.ready with
  | [] => []
  | (key, items) :: _ => [.take key items]

/-- The deeds of a cursor that has nothing left. -/
def advanceDeeds (x : Exchange κ (Letter κ α)) (handle : ℕ) (single : Bool) : List (Deed κ α) :=
  match x.table.ready with
  | [] => []
  | (key, []) :: _ => [.take key [], .hold handle []]
  | (key, item :: rest) :: _ =>
    if single then [.take key (item :: rest)]
    else [.take key (item :: rest), .hold handle (item :: rest)]

/-- The deeds of a cursor's first question. -/
def seekNextDeeds (x : Exchange κ (Letter κ α)) (cursor : Cursor κ (Letter κ α)) (handle : ℕ)
    (single : Bool) : List (Deed κ α) :=
  match cursor.left with
  | some (_, item :: rest) => if single then [] else [.hold handle (item :: rest)]
  | _ => x.advanceDeeds handle single

/-- The deeds of asking a cursor. -/
def nextDeeds (x : Exchange κ (Letter κ α)) (cursor handle : ℕ) (single : Bool) :
    List (Deed κ α) :=
  match x.cursors.find? cursor with
  | none => []
  | some c =>
    if x.isBusy c.serial then []
    else x.vacateDeeds handle ++ (x.vacate handle).seekNextDeeds c handle single

/-- The deeds of asking a cursor without waiting. -/
def tryNextDeeds (x : Exchange κ (Letter κ α)) (cursor : ℕ) : List (Deed κ α) :=
  match x.cursors.find? cursor with
  | none => []
  | some c => if x.isBusy c.serial then [] else x.takeDeeds

/-- The deeds of asking a call for progress. -/
def pollDeeds (x : Exchange κ (Letter κ α)) (handle now : ℕ) : List (Deed κ α) :=
  match x.calls.find? handle with
  | none => []
  | some (.receive key ticket fired deadline) =>
    x.pollReceiveDeeds handle key ticket fired deadline now
  | some (.next _ single woken) => if woken then x.advanceDeeds handle single else []

/-- The deeds of giving a batch a second number. -/
def cloneDeeds (x : Exchange κ (Letter κ α)) (handle copy : ℕ) : List (Deed κ α) :=
  match x.table.held.find? handle with
  | none => []
  | some batch => [.lend copy batch]

/-- The deeds of taking the items out of a batch. -/
def unwrapDeeds (x : Exchange κ (Letter κ α)) (handle : ℕ) (copies : Bool) : List (Deed κ α) :=
  match x.table.held.find? handle with
  | none => []
  | some batch => if copies ∨ x.table.shares batch.serial = 1 then [.release handle] else []

/-- The deeds of a move. -/
def moveDeeds (x : Exchange κ (Letter κ α)) (now : ℕ) (deadline : Option ℕ) :
    Move κ → List (Deed κ α)
  | .receive handle key fired =>
    x.vacateDeeds handle ++ (x.vacate handle).seekDeeds handle key fired deadline now
  | .poll handle => x.pollDeeds handle now
  | .drop handle => if x.calls.contains handle then x.vacateDeeds handle else [.release handle]
  | .next cursor handle single => x.nextDeeds cursor handle single
  | .tryNext cursor => x.tryNextDeeds cursor
  | .clone handle copy => x.cloneDeeds handle copy
  | .unwrap handle copies => x.unwrapDeeds handle copies
  | .cancel _ => []
  | .openCursor _ => []
  | .closeCursor _ => []
  | .view _ => []

/-- The deeds of an event. -/
def deeds (x : Exchange κ (Letter κ α)) : Event κ (Letter κ α) → List (Deed κ α)
  | .deliver _ message => [.bring message]
  | .fail reason => [.fail reason]
  | .take => x.takeDeeds
  | .move now deadline move => x.moveDeeds now deadline move

/-- The deeds of a run, in order. -/
def journal (x : Exchange κ (Letter κ α)) : List (Event κ (Letter κ α)) → List (Deed κ α)
  | [] => []
  | event :: rest => x.deeds event ++ (x.step event).2.journal rest

/-! ## Runs in parts -/

theorem run_append {β : Type} (x : Exchange κ β) (p q : List (Event κ β)) :
    (x.run (p ++ q)).2 = ((x.run p).2.run q).2 := by
  induction p generalizing x with
  | nil => rfl
  | cons event rest ih => exact ih (x.step event).2

/-- What a run answers to some of its events. -/
def answersTo {β : Type} (x : Exchange κ β) (p : Event κ β → Bool) (events : List (Event κ β)) :
    List (Answer κ β) :=
  ((events.zip (x.run events).1).filter (p ·.1)).map (·.2)

theorem answersTo_cons {β : Type} (x : Exchange κ β) (p : Event κ β → Bool) (event : Event κ β)
    (rest : List (Event κ β)) :
    x.answersTo p (event :: rest) =
      if p event then (x.step event).1 :: (x.step event).2.answersTo p rest
      else (x.step event).2.answersTo p rest := by
  by_cases hp : p event
  · simp [answersTo, run, hp]
  · simp [answersTo, run, hp]

/-! ## Numbered messages -/

/-- The event, with the number `n` for a message that it delivers. -/
def Event.stamp (n : ℕ) : Event κ α → Event κ (Letter κ α)
  | .deliver key item => .deliver key ⟨n, key, item⟩
  | .fail reason => .fail reason
  | .take => .take
  | .move now deadline m => .move now deadline m

/-- The number of the next message, if it was `n` before the event. -/
def Event.next {β : Type} (n : ℕ) : Event κ β → ℕ
  | .deliver .. => n + 1
  | _ => n

/-- The message that an event delivers. -/
def Event.message? : Event κ (Letter κ α) → Option (Letter κ α)
  | .deliver _ message => some message
  | _ => none

/-- Events with their messages numbered from `n` on. -/
def stampFrom (n : ℕ) : List (Event κ α) → List (Event κ (Letter κ α))
  | [] => []
  | event :: rest => event.stamp n :: stampFrom (event.next n) rest

/-- Events with their messages numbered in the order of delivery. -/
def stamped (events : List (Event κ α)) : List (Event κ (Letter κ α)) :=
  stampFrom 0 events

/-- The messages that events deliver, in order. -/
def delivered (events : List (Event κ α)) : List (Letter κ α) :=
  (stamped events).filterMap (·.message?)

/-- The batches that a run hands out, in order. -/
def handed (events : List (Event κ α)) : List (Handout κ α) :=
  Deed.handouts (journal empty (stamped events))

/-- The board after a run from the beginning. -/
def boardAfter (events : List (Event κ α)) : Board κ α :=
  Board.empty.after (journal empty (stamped events))

end Exchange

end FramedDuplex
