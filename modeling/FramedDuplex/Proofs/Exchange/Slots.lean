import FramedDuplex.Exchange.Table
import FramedDuplex.Proofs.Handles
import Mathlib.Data.List.AList
/-!
# The table in slots

How the table lies in memory: a map with one slot for each key that has callers
or answers, and besides it the keys with answers ready, in the order they became
ready. The two are changed one after the other, so every operation has to keep
them in line; that it does is the subject of `Proofs.Exchange.Layout`.

A caller that waits holds the receiving end of a channel of its own, and its slot
the sending end. Sending into a channel whose receiving end is gone does nothing,
which is why answers that find only such channels become ready after all.
-/

namespace FramedDuplex

/-- What a key has. -/
inductive Slot (α : Type) where
  /-- The tickets of the callers that asked first. -/
  | waiting (tickets : List ℕ)
  /-- The answers that arrived first. -/
  | ready (items : List α)

namespace Slot

variable {α : Type}

/-- The tickets of the callers in a slot. -/
def tickets : Slot α → List ℕ
  | waiting tickets => tickets
  | ready _ => []

def isReady : Slot α → Bool
  | waiting _ => false
  | ready _ => true

end Slot

/-- The table as it lies in memory. -/
structure SlotTable (κ α : Type) where
  slots : AList fun _ : κ => Slot α
  /-- The keys with answers ready, the one that became ready first in front. -/
  order : List κ
  /-- What is in the channels of the callers that live, by their tickets. -/
  channels : Handles (Option (Resolution α))
  /-- Batches that were collected, by the numbers of their holders. -/
  held : Handles (Batch α)
  broken : Option BrokenReason
  nextTicket : ℕ
  nextSerial : ℕ

namespace SlotTable

variable {κ α : Type} [DecidableEq κ]

/-- Nobody has come and nothing has arrived. -/
def empty : SlotTable κ α := ⟨∅, [], .empty, .empty, none, 0, 0⟩

/-- The tickets of all callers in the slots. -/
def listed (s : SlotTable κ α) : List ℕ :=
  s.slots.entries.flatMap fun e => e.2.tickets

/-- How many keys have a waiting caller. -/
def pendingCount (s : SlotTable κ α) : ℕ :=
  s.slots.entries.countP fun e => !e.2.isReady

/-- How many keys have answers ready. -/
def readyCount (s : SlotTable κ α) : ℕ := s.order.length

/-- How many callers have a share of a batch, in their channels or their
hands. -/
def shares (s : SlotTable κ α) (serial : ℕ) : ℕ :=
  (s.channels.things.filterMap (·.bind (·.batch?))).countP (·.serial = serial) +
    s.held.things.countP (·.serial = serial)

/-- Sends into channels, where the receiving ends live. -/
def send (channels : Handles (Option (Resolution α))) (tickets : List ℕ) (told : Resolution α) :
    Handles (Option (Resolution α)) :=
  tickets.foldl (fun c ticket => if c.contains ticket then c.insert ticket (some told) else c)
    channels

/-- Takes the answers that are ready under a key. The slot is taken out for it,
and put back if it has callers. -/
def takeReady (s : SlotTable κ α) (key : κ) : Option (List α) × SlotTable κ α :=
  match s.slots.lookup key with
  | some (.ready items) =>
    (some items, { s with slots := s.slots.erase key, order := s.order.erase key })
  | some (.waiting tickets) =>
    (none, { s with slots := (s.slots.erase key).insert key (.waiting tickets) })
  | none => (none, s)

/-- A key becomes ready. -/
def makeReady (s : SlotTable κ α) (key : κ) (items : List α) : SlotTable κ α :=
  { s with slots := s.slots.insert key (.ready items), order := s.order ++ [key] }

/-- Brings answers, and tells whether that made the key ready. -/
def deliver (s : SlotTable κ α) (key : κ) (items : List α) : SlotTable κ α × Bool :=
  match s.slots.lookup key with
  | none => (s.makeReady key items, true)
  | some (.ready old) => ({ s with slots := s.slots.insert key (.ready (old ++ items)) }, false)
  | some (.waiting tickets) =>
    if tickets.any s.channels.contains then
      ({ s with
          slots := s.slots.erase key
          channels := send s.channels tickets (.batch ⟨s.nextSerial, items⟩)
          nextSerial := s.nextSerial + 1 }, false)
    else
      -- every caller was gone already
      (s.makeReady key items, true)

/-- Puts answers back that are older than those ready under the key. -/
def restore (s : SlotTable κ α) (key : κ) (items : List α) : SlotTable κ α × Bool :=
  match s.slots.lookup key with
  | some (.ready old) => ({ s with slots := s.slots.insert key (.ready (items ++ old)) }, false)
  | _ => s.deliver key items

/-- Lets a caller wait on a key and gives it a ticket and a channel. -/
def register (s : SlotTable κ α) (key : κ) : ℕ × SlotTable κ α :=
  let slot : Slot α := match s.slots.lookup key with
    | none => .waiting [s.nextTicket]
    | some (.waiting tickets) => .waiting (tickets ++ [s.nextTicket])
    | some (.ready items) => .ready items
  (s.nextTicket,
    { s with
      slots := s.slots.insert key slot
      channels := s.channels.insert s.nextTicket none
      nextTicket := s.nextTicket + 1 })

/-- Lets nobody wait any more, and tells how many were told so. -/
def fail (s : SlotTable κ α) (reason : BrokenReason) : ℕ × SlotTable κ α :=
  (s.listed.countP s.channels.contains,
    { s with
      slots := ⟨s.slots.entries.filter (·.2.isReady), s.slots.nodupKeys.sublist List.filter_sublist⟩
      channels := send s.channels s.listed (.broken reason)
      broken := s.broken.or (some reason) })

/-- The first key in an order that has answers ready, with them, and the order
behind it. Keys without are skipped. -/
def firstReady (s : SlotTable κ α) : List κ → Option (κ × List α) × List κ
  | [] => (none, [])
  | key :: rest =>
    match s.slots.lookup key with
    | some (.ready items) => (some (key, items), rest)
    | _ => s.firstReady rest

/-- Takes the answers of the key that has been ready longest. -/
def takeNext (s : SlotTable κ α) : Option (κ × List α) × SlotTable κ α :=
  match s.firstReady s.order with
  | (some (key, items), rest) =>
    (some (key, items), { s with slots := s.slots.erase key, order := rest })
  | (none, rest) => (none, { s with order := rest })

/-- Lets a caller go that is in no slot any more. A batch in its channel that
nobody else has a share of is put back. -/
def giveBack (s : SlotTable κ α) (key : κ) (ticket : ℕ) : SlotTable κ α × Bool :=
  let gone := { s with channels := s.channels.erase ticket }
  match (s.channels.find? ticket).bind (·.bind (·.batch?)) with
  | none => (gone, false)
  | some batch =>
    if gone.shares batch.serial = 0 then gone.restore key batch.items else (gone, false)

/-- Lets a caller go, and tells whether that made the key ready. -/
def unregister (s : SlotTable κ α) (key : κ) (ticket : ℕ) : SlotTable κ α × Bool :=
  match s.slots.lookup key with
  | some (.waiting tickets) =>
    let left := tickets.filter (· ≠ ticket)
    if left.length = tickets.length then s.giveBack key ticket
    else
      ({ s with
          slots := if left.isEmpty then s.slots.erase key else s.slots.insert key (.waiting left)
          channels := s.channels.erase ticket }, false)
  | _ => s.giveBack key ticket

/-- Makes items a batch that a number holds. -/
def holdNew (s : SlotTable κ α) (handle : ℕ) (items : List α) : SlotTable κ α :=
  { s with
    held := s.held.insert handle ⟨s.nextSerial, items⟩
    nextSerial := s.nextSerial + 1 }

/-- Lets a number hold the batch that is in a caller's channel. -/
def collect (s : SlotTable κ α) (ticket handle : ℕ) : SlotTable κ α :=
  match s.channels.find? ticket with
  | some (some (.batch batch)) =>
    { s with channels := s.channels.erase ticket, held := s.held.insert handle batch }
  | _ => s

/-! ## Callers in the slots -/

/-- Only slots with answers stay when the connection breaks. -/
theorem lookup_fail (s : SlotTable κ α) (reason : BrokenReason) (key : κ) :
    (s.fail reason).2.slots.lookup key = (s.slots.lookup key).filter (·.isReady) := by
  refine Option.ext fun slot => ?_
  rw [← Option.mem_def, AList.mem_lookup_iff, ← Option.mem_def, Option.mem_filter_iff,
    AList.mem_lookup_iff]
  exact List.mem_filter

theorem mem_listed {s : SlotTable κ α} {ticket : ℕ} : ticket ∈ s.listed ↔
    ∃ key tickets, s.slots.lookup key = some (.waiting tickets) ∧ ticket ∈ tickets := by
  simp only [listed, List.mem_flatMap]
  constructor
  · rintro ⟨⟨key, slot⟩, he, hin⟩
    cases slot with
    | ready items => simp [Slot.tickets] at hin
    | waiting tickets => exact ⟨key, tickets, AList.mem_lookup_iff.mpr he, hin⟩
  · rintro ⟨key, tickets, hslot, hin⟩
    exact ⟨⟨key, .waiting tickets⟩, AList.mem_lookup_iff.mp hslot, hin⟩

/-- No ticket is listed twice, if none is in its slot and no two slots share
one. -/
theorem nodup_listed {s : SlotTable κ α}
    (hslot : ∀ key tickets, s.slots.lookup key = some (.waiting tickets) → tickets.Nodup)
    (hapart : ∀ key other tickets more ticket, s.slots.lookup key = some (.waiting tickets) →
      s.slots.lookup other = some (.waiting more) → ticket ∈ tickets → ticket ∈ more →
        key = other) : s.listed.Nodup := by
  refine List.nodup_flatMap.mpr ⟨?_, ?_⟩
  · rintro ⟨key, slot⟩ he
    cases slot with
    | ready items => exact List.nodup_nil
    | waiting tickets => exact hslot key tickets (AList.mem_lookup_iff.mpr he)
  · refine (List.pairwise_map.mp s.slots.nodupKeys).imp_of_mem fun {e e'} he he' hne => ?_
    obtain ⟨key, slot⟩ := e
    obtain ⟨other, slot'⟩ := e'
    intro ticket hin hin'
    cases slot with
    | ready items => simp [Slot.tickets] at hin
    | waiting tickets =>
      cases slot' with
      | ready items => simp [Slot.tickets] at hin'
      | waiting more =>
        exact hne (hapart key other tickets more ticket (AList.mem_lookup_iff.mpr he)
          (AList.mem_lookup_iff.mpr he') hin hin')

/-! ## The first in the order -/

theorem takeNext_of_nil {s : SlotTable κ α} (h : s.order = []) : s.takeNext = (none, s) := by
  obtain ⟨slots, order⟩ := s
  subst h
  rfl

/-- **Nothing is skipped** where the first key in the order is ready. -/
theorem takeNext_of_ready {s : SlotTable κ α} {key : κ} {rest : List κ} {items : List α}
    (horder : s.order = key :: rest) (hslot : s.slots.lookup key = some (.ready items)) :
    s.takeNext = (some (key, items), { s with slots := s.slots.erase key, order := rest }) := by
  rw [takeNext, horder, firstReady, hslot]

/-! ## Channels -/

variable {channels : Handles (Option (Resolution α))} {tickets : List ℕ} {told : Resolution α}

/-- **Who lives is told, and nobody else.** -/
theorem find?_send (channels : Handles (Option (Resolution α))) (ticket : ℕ) :
    (send channels tickets told).find? ticket =
      if ticket ∈ tickets ∧ channels.contains ticket then some (some told)
      else channels.find? ticket := by
  induction tickets generalizing channels with
  | nil => simp [send]
  | cons first rest ih =>
    have step : send channels (first :: rest) told =
        send (if channels.contains first then channels.insert first (some told) else channels)
          rest told := rfl
    rw [step]
    by_cases hfirst : channels.contains first
    · rw [if_pos hfirst, ih, Handles.contains, Handles.find?_insert]
      by_cases hi : ticket = first
      · subst hi
        simp [hfirst]
      · simp [hi, Handles.contains]
    · rw [if_neg hfirst, ih]
      by_cases hi : ticket = first
      · subst hi
        simp [hfirst]
      · simp [hi]

theorem distinct_send (h : channels.Distinct) : (send channels tickets told).Distinct := by
  induction tickets generalizing channels with
  | nil => exact h
  | cons first rest ih =>
    refine ih ?_
    show (if channels.contains first then channels.insert first (some told) else channels).Distinct
    split
    · exact h.insert first (some told)
    · exact h

end SlotTable

end FramedDuplex
