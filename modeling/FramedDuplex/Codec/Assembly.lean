import FramedDuplex.Codec.Decode
/-!
# Frames out of a stream

A stream hands out its bytes in pieces of any size. An `Assembly` is a frame of
which some bytes have arrived: first those of the header, which tell how many
more there will be. It asks for no byte beyond its frame, so that the next
frame begins with the next byte.

A stream that ends before the first byte of a frame was closed; one that ends
later cut a frame short.
-/

namespace FramedDuplex

/-- A frame of which some bytes have arrived. -/
structure Assembly where
  /-- The bytes that have arrived, the last in front. -/
  reversed : Bytes
  /-- How many more there have to be before anything is read from them. -/
  missing : Nat
  /-- Whether the header has been read. -/
  headerRead : Bool

namespace Assembly

/-- Nothing of a frame has arrived. -/
def start (s : Schema) : Assembly := ⟨[], s.fixedSize, false⟩

/-- The bytes that have arrived. -/
def arrived (a : Assembly) : Bytes := a.reversed.reverse

/-- Bytes arrive. -/
def add (a : Assembly) (bs : Bytes) : Assembly :=
  { a with reversed := List.reverseAux bs a.reversed, missing := a.missing - bs.length }

/-- **Bytes arrive in order.** -/
@[simp] theorem arrived_add (a : Assembly) (bs : Bytes) : (a.add bs).arrived = a.arrived ++ bs := by
  simp [add, arrived, List.reverseAux_eq]

/-- What the end of the stream means to it. -/
def ended (a : Assembly) : CodecError :=
  let count := a.reversed.length
  if count = 0 then .closed else .truncated (count + a.missing) count

end Assembly

variable [OwnTypes]

/-- What becomes of an assembly as bytes arrive. -/
inductive Arrival
  | more (a : Assembly)
  | done (result : Except CodecError Decoded)

/-- One delivery of a stream. -/
inductive Delivery
  /-- Bytes; none of them means that the stream has ended. -/
  | bytes (bs : Bytes)
  | failure (reason : String)

namespace Codec

/-- Adds bytes to an assembly, no more than it asks for. -/
def accept (c : Codec) (s : Schema) (a : Assembly) (bs : Bytes) : Arrival :=
  let a := a.add bs
  if 0 < a.missing then
    .more a
  else if a.headerRead then
    .done (c.decodeFrame s a.arrived)
  else
    match c.announced s a.arrived with
    | .error fault => .done (.error fault)
    | .ok total =>
      if total ≤ s.fixedSize then .done (c.decodeFrame s a.arrived)
      else .more { a with missing := total - s.fixedSize, headerRead := true }

/-- Adds as many of the bytes to an assembly as it asks for, and gives back the
rest. Once the header is complete it asks a second time. -/
def absorb (c : Codec) (s : Schema) (a : Assembly) (bs : Bytes) : Arrival × Bytes :=
  let rest := bs.drop a.missing
  match c.accept s a (bs.take a.missing) with
  | .done result => (.done result, rest)
  | .more b =>
    if rest.isEmpty then (.more b, [])
    else (c.accept s b (rest.take b.missing), rest.drop b.missing)

/-- Reads one frame off a stream: its reading, and the deliveries left. -/
def readFrame (c : Codec) (s : Schema) (a : Assembly) :
    List Delivery → Except CodecError Decoded × List Delivery
  | [] => (.error a.ended, [])
  | .failure reason :: rest => (.error (.io reason), rest)
  | .bytes bs :: rest =>
    if bs.isEmpty then
      (.error a.ended, rest)
    else
      match c.absorb s a bs with
      | (.done result, left) => (result, if left.isEmpty then rest else .bytes left :: rest)
      | (.more b, _) => c.readFrame s b rest

end Codec

end FramedDuplex
