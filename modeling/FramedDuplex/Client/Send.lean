import FramedDuplex.Client.Basic
import FramedDuplex.Codec.Serialize
/-!
# Sending

Sending writes a message to a frame and queues the frame for the writer. It
fails at once when the connection is broken, before the message is touched.

A request checks the key of its message first, sends the message, and then waits
for the answers under the key; only then does its time begin to run.
-/

namespace FramedDuplex

variable [OwnTypes]

namespace Client

/-- The end of a call that sent a message. -/
def failed (cause : ClientError) (m : Message) : Reply := .sending (some (.failed cause)) m

/-- Puts a send queue in place. -/
def withOutbox (c : Client) (outbox : Outbox) : Client :=
  { c with link := { c.link with outbox } }

/-- Keeps the message of a call that waits. -/
def keep (c : Client) (handle : Nat) (m : Message) (stage : Stage) : Client :=
  { c with outgoing := c.outgoing.insert handle ⟨m, stage⟩ }

/-- A call that sends a message has ended, or goes on. -/
def letGo (c : Client) (handle : Nat) : Client :=
  { c with outgoing := c.outgoing.erase handle }

/-- Drops the call of a number, if there is one that sends a message and still
waits for room. -/
def withdraw (c : Client) (handle : Nat) : Client :=
  match c.outgoing.find? handle with
  | some ⟨_, .room ..⟩ => (c.letGo handle).withOutbox (c.link.outbox.abandon handle)
  | _ => c.letGo handle

/-- Drops the call of a number, of whatever kind it is. -/
def vacate (c : Client) (handle : Nat) : Client :=
  let c := c.withdraw handle
  { c with link := { c.link with exchange := c.link.exchange.vacate handle } }

/-- Asks the table about the answers to a request, and keeps the message until
they are there. -/
def await (c : Client) (handle : Nat) (m : Message) (move : Exchange.Move Key) : Reply × Client :=
  match c.act move with
  | (.pending, c) => (.answer .pending, c.keep handle m .answers)
  | (answer, c) => (.sending (some answer) m, c)

/-- A frame was brought to the send queue for the message of a call. -/
def entered (c : Client) (handle : Nat) (m : Message) (p : Parcel) (fired : Option Bool)
    (request : Option Key) : Outbox.Entry × Outbox → Reply × Client
  | (.queued, outbox) =>
    match request with
    | none => (.sending none m, c.withOutbox outbox)
    | some key => (c.withOutbox outbox).await handle m (.receive handle key none)
  | (.waits, outbox) =>
    (.answer .pending, (c.withOutbox outbox).keep handle m (.room p fired request))
  | (.refused, outbox) =>
    (failed (brokenError c.link) m,
      { c with link := { c.link with outbox, pool := c.link.pool.releaseAll p.buffers } })

/-- Writes a message and brings its frame to the send queue, for a request if
there is a key. -/
def submit (c : Client) (handle : Nat) (m : Message) (fired : Option Bool)
    (request : Option Key) : Reply × Client :=
  if fired = some true then
    (failed .cancelled m, c)
  else if c.link.isBroken then
    (failed (brokenError c.link) m, c)
  else
    let written := c.link.codec.serialize c.requests m
    let (buffers, pool) := c.link.pool.acquireAll written.acquired
    let c := { c with link := { c.link with pool } }
    match written.outcome with
    | .error fault => (failed (.codec fault) written.message, c)
    | .ok frame =>
      let p : Parcel := ⟨frame.bytes, buffers⟩
      c.entered handle written.message p fired request (c.link.outbox.offer handle p)

/-- Starts a call that sends a message. -/
def send (c : Client) (handle : Nat) (m : Message) (fired : Option Bool) : Reply × Client :=
  (c.vacate handle).submit handle m fired none

/-- Starts a call that sends a message and waits for the answers under its key. -/
def request (c : Client) (handle : Nat) (m : Message) : Reply × Client :=
  let c := c.vacate handle
  let key := c.requests.keyOf m
  match keyFault? c.link.schema key with
  | some fault => (failed fault m, c)
  | none => c.submit handle m none (some key)

/-! ## Calls that have started -/

/-- Asks a call for progress. -/
def poll (c : Client) (handle : Nat) : Reply × Client :=
  match c.outgoing.find? handle with
  | none =>
    let (answer, c) := c.act (.poll handle)
    (.answer answer, c)
  | some ⟨m, .answers⟩ => (c.letGo handle).await handle m (.poll handle)
  | some ⟨m, .room p fired request⟩ =>
    if fired = some true then
      (failed .cancelled m, c.withdraw handle)
    else
      (c.letGo handle).entered handle m p fired request (c.link.outbox.retry handle p)

/-- Fires the token of a call, and tells whether there was one to fire. -/
def cancel (c : Client) (handle : Nat) : Reply × Client :=
  match c.outgoing.find? handle with
  | some ⟨m, .room p (some false) request⟩ =>
    (.answer (.flag true), c.keep handle m (.room p (some true) request))
  | some _ => (.answer (.flag false), c)
  | none =>
    let (answer, c) := c.act (.cancel handle)
    (.answer answer, c)

/-- Drops a call that has not come to an end, or else a batch, and tells whether
there was one. -/
def drop (c : Client) (handle : Nat) : Reply × Client :=
  match c.outgoing.find? handle with
  | some ⟨_, .room ..⟩ => (.answer (.flag true), c.withdraw handle)
  | _ =>
    let (answer, c) := (c.letGo handle).act (.drop handle)
    (.answer answer, c)

/-! ## Several messages -/

/-- Sends a message and waits until it is queued: if there is no room, the loops
run, and a message for which there is no room even then is given up. -/
def sendNow (c : Client) (m : Message) : Reply × Client :=
  let handle := c.outgoing.unused
  match c.submit handle m none none with
  | (.answer _, c) =>
    match { c with link := c.link.settle }.poll handle with
    | (.answer answer, c) => (.answer answer, c.withdraw handle)
    | ended => ended
  | ended => ended

/-- Sends messages one after the other. -/
def sendEach (c : Client) : List Message → List Reply × Client
  | [] => ([], c)
  | m :: rest =>
    let (reply, c) := c.sendNow m
    let (replies, c) := c.sendEach rest
    (reply :: replies, c)

end Client

end FramedDuplex
