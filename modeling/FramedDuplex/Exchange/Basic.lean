import FramedDuplex.Exchange.Table
import FramedDuplex.Link.Error
/-!
# Calls on the table

A caller starts a call, asks it for progress (`Exchange.poll`) and may cancel
or drop it. Nothing happens between the questions except what others do to the
table.

A call waits for the answers under its key, with a token that cancels it or a
deadline or neither. At each question the first of these that holds decides:
the token was fired, the call was answered, the connection is broken, the
deadline has passed.

A cursor hands out the ready batches of all keys, the oldest first, in whole or
message by message. A call on a cursor that finds nothing sleeps until a key
becomes ready or the connection breaks, and the cursor is busy meanwhile. The
call keeps its cursor even if the cursor's number is given to another one.

A number names one call at most: a call that starts under it takes the place of
the call before, which is dropped.
-/

namespace FramedDuplex

/-- A call that has not come to an end. -/
inductive Call (κ : Type) where
  /-- Waits for the answers under a key. `fired` is there if a token can cancel
  the call, and says whether it did. -/
  | receive (key : κ) (ticket : Nat) (fired : Option Bool) (deadline : Option Nat)
  /-- Waits on the cursor with a serial number, for a batch or for a `single`
  message. -/
  | next (serial : Nat) (single : Bool) (woken : Bool)
deriving DecidableEq

/-- A cursor, and what it has left of the batch it is taking apart. -/
structure Cursor (κ α : Type) where
  serial : Nat
  left : Option (κ × List α)

/-- The table with the calls and cursors on it. -/
structure Exchange (κ α : Type) where
  table : Table κ α
  calls : Handles (Call κ)
  cursors : Handles (Cursor κ α)
  /-- The serial number of the next cursor. -/
  nextCursor : Nat

namespace Exchange

/-- What a caller is told. -/
inductive Answer (κ α : Type) where
  | nothing
  | flag (value : Bool)
  | count (number : Nat)
  | pending
  | batch (items : List α)
  | keyed (key : κ) (items : List α)
  | message (item : α)
  | ended
  | failed (cause : ClientError)
  /-- No call, batch or cursor has that number. -/
  | absent
  /-- Another call is waiting on the cursor. -/
  | busy
  /-- Others have a share of the batch. -/
  | shared

variable {κ α : Type} [DecidableEq κ]

/-- Nobody has come and nothing has arrived. -/
def empty : Exchange κ α := ⟨.empty, .empty, .empty, 0⟩

/-- Wakes the calls that sleep on a cursor. -/
def wake (x : Exchange κ α) : Exchange κ α :=
  { x with calls := x.calls.map fun
      | .next serial single _ => .next serial single true
      | call => call }

/-- Puts a table in place, and wakes the cursors if a key became ready. -/
def settleTable (x : Exchange κ α) : Table κ α × Bool → Exchange κ α
  | (table, became) => if became then { x with table }.wake else { x with table }

/-- Brings an answer. -/
def deliver (x : Exchange κ α) (key : κ) (item : α) : Exchange κ α :=
  x.settleTable (x.table.deliver key [item])

/-- Breaks the connection for all who wait, and tells how many callers waited
on a key. -/
def fail (x : Exchange κ α) (reason : BrokenReason) : Nat × Exchange κ α :=
  let (count, table) := x.table.fail reason
  (count, { x with table }.wake)

/-- Takes the batch that has been ready longest. -/
def take (x : Exchange κ α) : Option (κ × List α) × Exchange κ α :=
  let (entry, table) := x.table.takeNext
  (entry, { x with table })

/-! ## Calls that wait for a key -/

/-- Whether a deadline has passed. -/
def passed (now : Nat) (deadline : Option Nat) : Bool :=
  deadline.any (· ≤ now)

/-- Lets the call of a number go, with what that does to the table. -/
def quit (x : Exchange κ α) (handle : Nat) (key : κ) (ticket : Nat) : Exchange κ α :=
  { x with calls := x.calls.erase handle }.settleTable (x.table.leave key ticket)

/-- Drops the call of a number, if there is one. -/
def vacate (x : Exchange κ α) (handle : Nat) : Exchange κ α :=
  match x.calls.find? handle with
  | some (.receive key ticket _ _) => x.quit handle key ticket
  | some (.next ..) => { x with calls := x.calls.erase handle }
  | none => x

/-- Asks for the answers under a key for the first time. -/
def seek (x : Exchange κ α) (handle : Nat) (key : κ) (fired : Option Bool)
    (deadline : Option Nat) (now : Nat) : Answer κ α × Exchange κ α :=
  if fired = some true then
    (.failed .cancelled, x)
  else
    match x.table.readyAt? key, x.table.broken with
    | some items, _ =>
      (.batch items, { x with table := (x.table.takeReady key).holdNew handle items })
    | none, some reason => (.failed (.connectionBroken reason), x)
    | none, none =>
      if passed now deadline then
        (.failed .timeout, x)
      else
        let (ticket, table) := x.table.enter key
        (.pending, { x with table, calls := x.calls.insert handle (.receive key ticket fired deadline) })

/-- Starts a call under a key and asks it for the first time. -/
def receive (x : Exchange κ α) (handle : Nat) (key : κ) (fired : Option Bool)
    (deadline : Option Nat) (now : Nat) : Answer κ α × Exchange κ α :=
  (x.vacate handle).seek handle key fired deadline now

/-- Asks a call under a key again. -/
def pollReceive (x : Exchange κ α) (handle : Nat) (key : κ) (ticket : Nat) (fired : Option Bool)
    (deadline : Option Nat) (now : Nat) : Answer κ α × Exchange κ α :=
  if fired = some true then
    (.failed .cancelled, x.quit handle key ticket)
  else
    match x.table.resolved.find? ticket with
    | some (.batch batch) =>
      (.batch batch.items,
        { x with
          table := x.table.collect ticket handle batch
          calls := x.calls.erase handle })
    | some (.broken reason) => (.failed (.connectionBroken reason), x.quit handle key ticket)
    | none =>
      if passed now deadline then
        (.failed .timeout, x.quit handle key ticket)
      else
        (.pending, x)

/-! ## Calls on a cursor -/

/-- Opens a cursor under a number. -/
def openCursor (x : Exchange κ α) (cursor : Nat) : Exchange κ α :=
  { x with
    cursors := x.cursors.insert cursor ⟨x.nextCursor, none⟩
    nextCursor := x.nextCursor + 1 }

/-- Whether a call is waiting on the cursor with a serial number. -/
def isBusy (x : Exchange κ α) (serial : Nat) : Bool :=
  x.calls.any fun
    | .next s _ _ => s = serial
    | .receive .. => false

/-- Lets the cursor with a serial number have something left, if a number still
names it. -/
def leaveOver (x : Exchange κ α) (serial : Nat) (rest : Option (κ × List α)) : Exchange κ α :=
  { x with cursors := x.cursors.map fun c => if c.serial = serial then ⟨serial, rest⟩ else c }

/-- Takes the next batch off the table for a cursor, or lets the call sleep. -/
def advance (x : Exchange κ α) (serial handle : Nat) (single : Bool) :
    Answer κ α × Exchange κ α :=
  match x.take with
  | (some (key, item :: rest), y) =>
    if single then
      (.message item, { y with calls := y.calls.erase handle }.leaveOver serial (some (key, rest)))
    else
      (.keyed key (item :: rest),
        { y with
          table := y.table.holdNew handle (item :: rest)
          calls := y.calls.erase handle })
  | (some (key, []), y) =>
    (.keyed key [],
      { y with table := y.table.holdNew handle [], calls := y.calls.erase handle })
  | (none, _) =>
    if x.table.broken.isSome then
      (.ended, { x with calls := x.calls.erase handle })
    else
      (.pending, { x with calls := x.calls.insert handle (.next serial single false) })

/-- Asks a cursor for the first time. What it has left of a batch comes before
any other batch. -/
def seekNext (x : Exchange κ α) (cursor : Cursor κ α) (handle : Nat) (single : Bool) :
    Answer κ α × Exchange κ α :=
  match cursor.left with
  | some (key, item :: rest) =>
    if single then
      (.message item, x.leaveOver cursor.serial (some (key, rest)))
    else
      let y := x.leaveOver cursor.serial none
      (.keyed key (item :: rest), { y with table := y.table.holdNew handle (item :: rest) })
  | _ => (x.leaveOver cursor.serial none).advance cursor.serial handle single

/-- Starts a call on a cursor and asks it for the first time. -/
def next (x : Exchange κ α) (cursor handle : Nat) (single : Bool) : Answer κ α × Exchange κ α :=
  match x.cursors.find? cursor with
  | none => (.absent, x)
  | some c =>
    if x.isBusy c.serial then (.busy, x) else (x.vacate handle).seekNext c handle single

/-- Takes the oldest ready batch without waiting for one. -/
def tryNext (x : Exchange κ α) (cursor : Nat) : Answer κ α × Exchange κ α :=
  match x.cursors.find? cursor with
  | none => (.absent, x)
  | some c =>
    if x.isBusy c.serial then
      (.busy, x)
    else
      match x.take with
      | (some (key, items), x) => (.keyed key items, x)
      | (none, x) => (.nothing, x)

omit [DecidableEq κ] in
/-- At most, the batch goes off the table. -/
theorem tryNext_snd (x : Exchange κ α) (cursor : Nat) :
    (x.tryNext cursor).2 = x ∨ (x.tryNext cursor).2 = x.take.2 := by
  unfold tryNext
  split
  · exact .inl rfl
  · split
    · exact .inl rfl
    · split <;> simp_all

/-! ## Calls of either kind -/

/-- Asks a call for progress. -/
def poll (x : Exchange κ α) (handle now : Nat) : Answer κ α × Exchange κ α :=
  match x.calls.find? handle with
  | none => (.absent, x)
  | some (.receive key ticket fired deadline) =>
    x.pollReceive handle key ticket fired deadline now
  | some (.next serial single woken) =>
    if woken then x.advance serial handle single else (.pending, x)

/-- Fires the token of a call, and tells whether there was one to fire. -/
def cancel (x : Exchange κ α) (handle : Nat) : Bool × Exchange κ α :=
  match x.calls.find? handle with
  | some (.receive key ticket (some false) deadline) =>
    (true,
      { x with calls := x.calls.insert handle (.receive key ticket (some true) deadline) })
  | _ => (false, x)

/-- Drops a call that has not come to an end, or else a batch, and tells whether
there was one. -/
def drop (x : Exchange κ α) (handle : Nat) : Bool × Exchange κ α :=
  if x.calls.contains handle then
    (true, x.vacate handle)
  else
    (x.table.held.contains handle,
      { x with table := { x.table with held := x.table.held.erase handle } })

/-! ## Batches in a caller's hands -/

/-- The items of a batch. -/
def view (x : Exchange κ α) (handle : Nat) : Answer κ α :=
  match x.table.held.find? handle with
  | none => .absent
  | some batch => .batch batch.items

/-- Gives a second number a share of a batch. -/
def clone (x : Exchange κ α) (handle copy : Nat) : Answer κ α × Exchange κ α :=
  match x.table.held.find? handle with
  | none => (.absent, x)
  | some batch =>
    (.nothing,
      { x with table := { x.table with held := x.table.held.insert copy batch } })

/-- Takes the items out of a batch. Unless it `copies` them, nobody else may
have a share of the batch. -/
def unwrap (x : Exchange κ α) (handle : Nat) (copies : Bool) : Answer κ α × Exchange κ α :=
  match x.table.held.find? handle with
  | none => (.absent, x)
  | some batch =>
    if copies ∨ x.table.shares batch.serial = 1 then
      (.batch batch.items,
        { x with table := { x.table with held := x.table.held.erase handle } })
    else
      (.shared, x)

end Exchange

end FramedDuplex
