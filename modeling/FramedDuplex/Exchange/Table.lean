import FramedDuplex.Link.Lifecycle
import FramedDuplex.Handles
/-!
# The correlation table

Answers and callers meet here under a key. A key has answers that nobody asked
for yet, in the order of their arrival (`ready`), or callers that nobody
answered yet (`waiting`), and never both.

An answer that finds callers resolves all of them: they share one batch, which
each of them collects later (`resolved`). A batch that was collected is held
until its holder drops it. A caller that goes away without collecting puts its
batch back if nobody else has a share of it (`Table.leave`), in front of what
has come since.

Keys become ready in an order, which `Table.takeNext` follows.
-/

namespace FramedDuplex

/-- Answers that are handed out together. Shares of one batch have one serial
number. -/
structure Batch (α : Type) where
  serial : Nat
  items : List α

/-- What a waiting caller is told. -/
inductive Resolution (α : Type) where
  | batch (batch : Batch α)
  | broken (reason : BrokenReason)

namespace Resolution

variable {α : Type}

/-- The batch that a caller is told to collect. -/
def batch? : Resolution α → Option (Batch α)
  | batch b => some b
  | broken _ => none

end Resolution

/-- Callers and answers that have not met, and batches on their way. -/
structure Table (κ α : Type) where
  /-- Answers without a caller, the key that became ready first in front. -/
  ready : List (κ × List α)
  /-- Callers without an answer and their tickets, in the order they came. -/
  waiting : List (κ × Nat)
  /-- Callers, by their tickets, that were answered and have not collected. -/
  resolved : Handles (Resolution α)
  /-- Batches that were collected, by the numbers of their holders. -/
  held : Handles (Batch α)
  /-- Why no more answers will come. -/
  broken : Option BrokenReason
  nextTicket : Nat
  nextSerial : Nat

namespace Table

variable {κ α : Type} [DecidableEq κ]

/-- Nobody has come and nothing has arrived. -/
def empty : Table κ α := ⟨[], [], .empty, .empty, none, 0, 0⟩

/-- The answers that are ready under a key. -/
def readyAt? (t : Table κ α) (key : κ) : Option (List α) :=
  (t.ready.find? (·.1 = key)).map (·.2)

/-- The tickets of the callers that wait on a key. -/
def waitingOn (t : Table κ α) (key : κ) : List Nat :=
  (t.waiting.filter (·.1 = key)).map (·.2)

/-- How many keys have a waiting caller. -/
def pendingCount (t : Table κ α) : Nat :=
  (t.waiting.map (·.1)).eraseDups.length

/-- How many keys have answers ready. -/
def readyCount (t : Table κ α) : Nat := t.ready.length

/-- How many callers have a share of a batch: those that will collect it and
those that hold it. -/
def shares (t : Table κ α) (serial : Nat) : Nat :=
  (t.resolved.things.filterMap (·.batch?)).countP (·.serial = serial) +
    t.held.things.countP (·.serial = serial)

/-- Takes the answers that are ready under a key. -/
def takeReady (t : Table κ α) (key : κ) : Table κ α :=
  { t with ready := t.ready.filter (·.1 ≠ key) }

/-- Takes the answers of the key that has been ready longest. -/
def takeNext (t : Table κ α) : Option (κ × List α) × Table κ α :=
  match t.ready with
  | [] => (none, t)
  | entry :: rest => (some entry, { t with ready := rest })

/-- Changes the answers that are ready under a key. -/
def changeReady (t : Table κ α) (key : κ) (f : List α → List α) : Table κ α :=
  { t with ready := t.ready.map fun (k, items) => (k, if k = key then f items else items) }

/-- Tells all callers on a key to collect one batch. -/
def resolve (t : Table κ α) (key : κ) (items : List α) : Table κ α :=
  { t with
    waiting := t.waiting.filter (·.1 ≠ key)
    resolved :=
      (t.waitingOn key).foldl (·.insert · (.batch ⟨t.nextSerial, items⟩)) t.resolved
    nextSerial := t.nextSerial + 1 }

/-- Brings answers: to those ready under the key, else to the callers that wait
on it, else the key becomes ready, which is what the flag tells. -/
def deliver (t : Table κ α) (key : κ) (items : List α) : Table κ α × Bool :=
  if (t.readyAt? key).isSome then (t.changeReady key (· ++ items), false)
  else if (t.waitingOn key).isEmpty then
    ({ t with ready := t.ready ++ [(key, items)] }, true)
  else (t.resolve key items, false)

/-- Puts answers back that are older than those ready under the key. -/
def restore (t : Table κ α) (key : κ) (items : List α) : Table κ α × Bool :=
  if (t.readyAt? key).isSome then (t.changeReady key (items ++ ·), false)
  else t.deliver key items

/-- Lets a caller wait on a key and gives it a ticket. -/
def enter (t : Table κ α) (key : κ) : Nat × Table κ α :=
  (t.nextTicket,
    { t with
      waiting := t.waiting ++ [(key, t.nextTicket)]
      nextTicket := t.nextTicket + 1 })

/-- Lets the caller with a ticket go. One that was answered and has not
collected leaves its batch to those who share it, and else puts it back; the
flag tells whether that made a key ready. -/
def leave (t : Table κ α) (key : κ) (ticket : Nat) : Table κ α × Bool :=
  let gone :=
    { t with
      waiting := t.waiting.filter (·.2 ≠ ticket)
      resolved := t.resolved.erase ticket }
  match (t.resolved.find? ticket).bind (·.batch?) with
  | none => (gone, false)
  | some batch =>
    if gone.shares batch.serial = 0 then gone.restore key batch.items else (gone, false)

/-- Lets nobody wait any more. Those who wait are told the reason given now;
those who come later are told the first. Answers that are ready stay. -/
def fail (t : Table κ α) (reason : BrokenReason) : Nat × Table κ α :=
  (t.waiting.length,
    { t with
      broken := t.broken.or (some reason)
      waiting := []
      resolved := t.waiting.foldl (fun r (_, ticket) => r.insert ticket (.broken reason))
        t.resolved })

/-- Makes items a batch that a number holds. -/
def holdNew (t : Table κ α) (handle : Nat) (items : List α) : Table κ α :=
  { t with
    held := t.held.insert handle ⟨t.nextSerial, items⟩
    nextSerial := t.nextSerial + 1 }

/-- Lets a number hold the batch that the caller with a ticket collects. -/
def collect (t : Table κ α) (ticket handle : Nat) (batch : Batch α) : Table κ α :=
  { t with resolved := t.resolved.erase ticket, held := t.held.insert handle batch }

end Table

end FramedDuplex
