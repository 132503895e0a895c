import FramedDuplex.Exchange.Basic
/-!
# Runs of an exchange

What can happen to an exchange, one event after the other, and what each event
answers. The order of events is the only order there is.

What callers do is a `Move`; the exchange does a move at a time and with the
deadline that a call started by it has (`Exchange.act`). Answers, the end of
the connection and taking a batch without a cursor are events besides.
-/

namespace FramedDuplex

namespace Exchange

variable {κ α : Type} [DecidableEq κ]

/-- What a caller does. -/
inductive Move (κ : Type) where
  /-- Starts a call under a key. `fired` is there if a token can cancel the
  call, and says whether it did. -/
  | receive (handle : Nat) (key : κ) (fired : Option Bool)
  | poll (handle : Nat)
  | cancel (handle : Nat)
  | drop (handle : Nat)
  | openCursor (cursor : Nat)
  | closeCursor (cursor : Nat)
  | next (cursor handle : Nat) (single : Bool)
  | tryNext (cursor : Nat)
  | view (handle : Nat)
  | clone (handle copy : Nat)
  | unwrap (handle : Nat) (copies : Bool)

/-- What can happen to an exchange. -/
inductive Event (κ α : Type) where
  | deliver (key : κ) (item : α)
  | fail (reason : BrokenReason)
  | take
  | move (now : Nat) (deadline : Option Nat) (move : Move κ)

/-- One move, and its answer. A call that it starts has the deadline. -/
def act (x : Exchange κ α) (now : Nat) (deadline : Option Nat) :
    Move κ → Answer κ α × Exchange κ α
  | .receive handle key fired => x.receive handle key fired deadline now
  | .poll handle => x.poll handle now
  | .cancel handle =>
    let (done, x) := x.cancel handle
    (.flag done, x)
  | .drop handle =>
    let (done, x) := x.drop handle
    (.flag done, x)
  | .openCursor cursor => (.nothing, x.openCursor cursor)
  | .closeCursor cursor =>
    (.flag (x.cursors.contains cursor), { x with cursors := x.cursors.erase cursor })
  | .next cursor handle single => x.next cursor handle single
  | .tryNext cursor => x.tryNext cursor
  | .view handle => (x.view handle, x)
  | .clone handle copy => x.clone handle copy
  | .unwrap handle copies => x.unwrap handle copies

/-- Lets go of everything that has a number: the calls, the cursors, the batches. -/
def clear (x : Exchange κ α) : Exchange κ α :=
  let moves : List (Move κ) := x.calls.entries.map (.drop ·.1) ++
    x.cursors.entries.map (.closeCursor ·.1) ++ x.table.held.entries.map (.drop ·.1)
  moves.foldl (fun x move => (x.act 0 none move).2) x

/-- One event, and its answer. -/
def step (x : Exchange κ α) : Event κ α → Answer κ α × Exchange κ α
  | .deliver key item => (.nothing, x.deliver key item)
  | .fail reason =>
    let (count, x) := x.fail reason
    (.count count, x)
  | .take =>
    match x.take with
    | (some (key, items), x) => (.keyed key items, x)
    | (none, x) => (.nothing, x)
  | .move now deadline move => x.act now deadline move

theorem step_take_snd (x : Exchange κ α) : (x.step .take).2 = x.take.2 := by
  rw [step]
  split <;> simp_all

/-- Events one after the other, with the answer of each. -/
def run (x : Exchange κ α) : List (Event κ α) → List (Answer κ α) × Exchange κ α
  | [] => ([], x)
  | event :: rest =>
    let (answer, x) := x.step event
    let (answers, x) := run x rest
    (answer :: answers, x)

end Exchange

end FramedDuplex
