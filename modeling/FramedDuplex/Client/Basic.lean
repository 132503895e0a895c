import FramedDuplex.Link.Settle
import FramedDuplex.Exchange.Run
/-!
# Clients

A client sends requests over a link and waits for the answers under a key. It
can be made if the requests can be written and the answers can be written and
read (`Client.open`).

A call that sends a message may have to wait for room in the send queue, and a
request waits for its answers after that; the client keeps the message of such
a call, as writing left it, until the call ends (`Outgoing`).
-/

namespace FramedDuplex

variable [OwnTypes]

/-- What a call that sends a message waits for. -/
inductive Stage
  /-- Room in the send queue. `fired` is there if a token can cancel the call,
  and says whether it did; a request goes on with its key. -/
  | room (parcel : Parcel) (fired : Option Bool) (request : Option Key)
  | answers

/-- A call that sends a message. -/
structure Outgoing where
  message : Message
  stage : Stage

/-- A client and the link that it uses. -/
structure Client where
  config : LinkConfig
  /-- What requests look like. -/
  requests : Schema
  link : Link
  /-- The calls that send a message and have not ended. -/
  outgoing : Handles Outgoing
  /-- The time, in milliseconds. -/
  now : Nat
  /-- How many of the bytes on the wire have been shown. -/
  shown : Nat
  closed : Bool

namespace Client

/-- A client on a fresh link. Its limit on bodies is that of the configuration. -/
def make (config : LinkConfig) (registry : Registry) (requests answers : Layout) :
    Except ClientError Client :=
  let codec : Codec := ⟨registry, config.maxBody.toNat⟩
  match codec.prepare requests with
  | .error fault => .error (.codec (.schema fault))
  | .ok requests =>
    match codec.prepareDecoder answers with
    | .error fault => .error (.codec (.schema fault))
    | .ok answers =>
      .ok ⟨config, requests, .new config codec answers, .empty, 0, 0, false⟩

/-- Lets the loops run until all wait. The clock goes on by a millisecond. -/
def rest (c : Client) : Client :=
  { c with link := c.link.settle, now := c.now + 1 }

/-! ## What a caller is told -/

abbrev Answer := Exchange.Answer Key Message

/-- What a caller is told. -/
inductive Reply where
  | answer (answer : Answer)
  /-- The end of a call that sent a message: its answer, or none if the message
  was queued and no answer was asked for, and the message as writing left it. -/
  | sending (answer : Option Answer) (message : Message)
  /-- The end of several sends one after the other. -/
  | each (replies : List Reply)
  /-- Bytes that came on the wire since this was asked last. -/
  | shown (bs : Bytes)

/-- A caller is told nothing. -/
def Reply.nothing : Reply := .answer .nothing

/-- Why nothing can be sent any more. -/
def brokenError (l : Link) : ClientError :=
  .connectionBroken (l.lifecycle.reason.getD .disposed)

/-! ## Waiting for answers -/

/-- What is wrong with waiting for answers under a key. -/
def keyFault? (s : Schema) (key : Key) : Option ClientError :=
  match s.identifier?.map (·.2), key.type? with
  | none, none => none
  | some _, none => some (.invalidKey s!"{s.name} has an identifier; receive by key")
  | none, some _ => some (.invalidKey s!"{s.name} has no identifier; use receive_next")
  | some expected, some actual =>
    if expected = actual then none
    else
      some (.invalidKey
        s!"key {key.render} does not match the identifier type of {s.name}")

/-- When a call that starts now has waited long enough. -/
def deadline (c : Client) : Option Nat :=
  c.config.receiveTimeout.map fun ms => c.now + ms.toNat

/-- Lets a caller do something with the table. -/
def act (c : Client) (move : Exchange.Move Key) : Answer × Client :=
  let (answer, exchange) := c.link.exchange.act c.now c.deadline move
  (answer, { c with link := { c.link with exchange } })

/-- Starts a call that waits for the answers under a key. -/
def receive (c : Client) (handle : Nat) (key : Key) (fired : Option Bool) : Answer × Client :=
  match keyFault? c.link.schema key with
  | some fault => (.failed fault, c)
  | none => c.act (.receive handle key fired)

end Client

end FramedDuplex
