import FramedDuplex.Client.Send
/-!
# Runs of a client

What can happen to a client, one event after the other: what its callers do,
what the peer and the network do to the wire, and that time passes. After each
event the loops run until all wait; the reply is what the caller was told before
that.
-/

namespace FramedDuplex

variable [OwnTypes]

namespace Client

/-! ## The end of a client -/

/-- Ends the connection and waits for the loops. A flush that does not end in
time is given up, and with no time to wait every loop is. Closing again changes
nothing. -/
def close (c : Client) : Client :=
  if c.closed then
    c
  else
    let link := c.link.breakOff .disposed
    if c.config.shutdownTimeout = 0 then
      { c with closed := true, link := link.abort }
    else
      let link := link.settle
      if link.hasStopped then
        { c with closed := true, link }
      else
        { c with
          closed := true
          link := link.abort
          now := c.now + c.config.shutdownTimeout.toNat }

/-- Drops all calls, cursors and batches, and ends the connection. The loops are
left to themselves, and answers that were ready stay with the table. -/
def dispose (c : Client) : Client :=
  let outbox := c.outgoing.entries.foldl (fun o (handle, _) => o.abandon handle) c.link.outbox
  { c with
    outgoing := .empty
    link := { c.link with outbox, exchange := c.link.exchange.clear }.breakOff .disposed }

/-! ## Events -/

/-- What can happen to a client. -/
inductive Event where
  | move (move : Exchange.Move Key)
  | send (handle : Nat) (message : Message) (fired : Option Bool)
  | request (handle : Nat) (message : Message)
  | sendEach (messages : List Message)
  | close
  | dispose
  | wire (event : Wire.Event)
  /-- Asks for the bytes that came on the wire since it was asked last. -/
  | report
  /-- So many milliseconds pass. -/
  | pass (ms : Nat)

/-- What an event does before the loops run, and what the caller is told. -/
def react (c : Client) : Event → Reply × Client
  | .move (.receive handle key fired) =>
    let (answer, c) := (c.vacate handle).receive handle key fired
    (.answer answer, c)
  | .move (.next cursor handle single) =>
    match c.act (.next cursor handle single) with
    | (.absent, c) => (.answer .absent, c)
    | (.busy, c) => (.answer .busy, c)
    | (answer, c) => (.answer answer, c.withdraw handle)
  | .move (.poll handle) => c.poll handle
  | .move (.cancel handle) => c.cancel handle
  | .move (.drop handle) => c.drop handle
  | .move move =>
    let (answer, c) := c.act move
    (.answer answer, c)
  | .send handle m fired => c.send handle m fired
  | .request handle m => c.request handle m
  | .sendEach ms =>
    let (replies, c) := c.sendEach ms
    (.each replies, c)
  | .close => (.nothing, c.close)
  | .dispose => (.nothing, c.dispose)
  | .wire event => (.nothing, { c with link := { c.link with wire := c.link.wire.meet event } })
  | .report =>
    (.shown (c.link.wire.written.drop c.shown), { c with shown := c.link.wire.written.length })
  | .pass ms => (.nothing, { c with now := c.now + ms })

/-- One event, and its reply. -/
def step (c : Client) (event : Event) : Reply × Client :=
  let (reply, c) := c.react event
  (reply, c.rest)

/-- Events one after the other, with the reply to each. -/
def run (c : Client) : List Event → List Reply × Client
  | [] => ([], c)
  | event :: rest =>
    let (reply, c) := c.step event
    let (replies, c) := run c rest
    (reply :: replies, c)

end Client

end FramedDuplex
