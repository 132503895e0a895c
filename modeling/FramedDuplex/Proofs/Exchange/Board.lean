import FramedDuplex.Proofs.Exchange.Place
import Mathlib.Data.List.Induction
/-!
# The board: the table with its history

What happens on the table comes down to ten deeds (`Deed`). A `Board` is the
table with what the table itself forgets: the callers that live, the messages
that were delivered, in order and numbered, and the batches that were handed
out. A journal is a list of deeds, `Board.after` what it leads to and
`Board.Permits` that each of its deeds was possible when it was done.

Messages are letters here, so two that carry the same item are still two. The
table does not look at them.
-/

namespace FramedDuplex

/-- A delivered message: its place in the order of all deliveries, the key it
came under and what it carries. -/
structure Letter (κ α : Type) where
  number : ℕ
  key : κ
  item : α

/-- A batch in the hands of a caller. -/
inductive Handout (κ α : Type) where
  /-- All that was ready under a key. -/
  | ready (key : κ) (items : List (Letter κ α))
  /-- The share of a caller that waited on a key. -/
  | share (key : κ) (ticket : ℕ) (batch : Batch (Letter κ α))

/-- The messages that were handed out. -/
def Handout.items {κ α : Type} : Handout κ α → List (Letter κ α)
  | ready _ items => items
  | share _ _ batch => batch.items

/-- The key they were handed out under. -/
def Handout.key {κ α : Type} : Handout κ α → κ
  | ready key _ => key
  | share key _ _ => key

/-- What can be done on the table. -/
inductive Deed (κ α : Type) where
  /-- A message is delivered. -/
  | bring (message : Letter κ α)
  | fail (reason : BrokenReason)
  /-- A caller begins to wait. -/
  | enter (key : κ)
  /-- A caller goes without its batch. -/
  | leave (key : κ) (ticket : ℕ)
  /-- A caller finds messages ready under its key. -/
  | claim (key : κ) (items : List (Letter κ α)) (handle : ℕ)
  /-- What has been ready longest is taken. -/
  | take (key : κ) (items : List (Letter κ α))
  /-- A caller collects the batch it was sent. -/
  | collect (key : κ) (ticket : ℕ) (batch : Batch (Letter κ α)) (handle : ℕ)
  /-- Messages that were taken become a batch of their own. -/
  | hold (handle : ℕ) (items : List (Letter κ α))
  /-- Another number gets a share of a batch. -/
  | lend (copy : ℕ) (batch : Batch (Letter κ α))
  | release (handle : ℕ)

/-- The table with its history. -/
structure Board (κ α : Type) where
  table : Table κ (Letter κ α)
  /-- The callers that wait or are to collect something. -/
  callers : List (κ × ℕ)
  delivered : List (Letter κ α)
  handed : List (Handout κ α)

namespace Deed

variable {κ α : Type}

/-- The batch that a deed hands out. -/
def handout? : Deed κ α → Option (Handout κ α)
  | claim key items _ => some (.ready key items)
  | take key items => some (.ready key items)
  | collect key ticket batch _ => some (.share key ticket batch)
  | _ => none

/-- The batches that deeds hand out, in order. -/
def handouts (journal : List (Deed κ α)) : List (Handout κ α) :=
  journal.filterMap (·.handout?)

end Deed

namespace Board

variable {κ α : Type} [DecidableEq κ] {b : Board κ α} {d : Deed κ α} {p q : List (Deed κ α)}

/-- Nobody has come and nothing has arrived. -/
def empty : Board κ α := ⟨.empty, [], [], []⟩

/-- A deed is possible: a delivered message has the next number, a caller lives,
and what is taken is there. -/
def Allows (b : Board κ α) : Deed κ α → Prop
  | .bring message => message.number = b.delivered.length
  | .leave key ticket => (key, ticket) ∈ b.callers
  | .claim key items _ => b.table.readyAt? key = some items
  | .take key items => b.table.ready.head? = some (key, items)
  | .collect key ticket batch _ => (key, ticket) ∈ b.callers ∧ b.table.Sent ticket batch
  | .lend _ batch => ∃ handle, b.table.held.find? handle = some batch
  | _ => True

/-- The board after a deed. -/
def perform (b : Board κ α) : Deed κ α → Board κ α
  | .bring message =>
    { b with
      table := (b.table.deliver message.key [message]).1
      delivered := b.delivered ++ [message] }
  | .fail reason => { b with table := (b.table.fail reason).2 }
  | .enter key =>
    { b with
      table := (b.table.enter key).2
      callers := b.callers ++ [(key, b.table.nextTicket)] }
  | .leave key ticket =>
    { b with
      table := (b.table.leave key ticket).1
      callers := b.callers.filter (·.2 ≠ ticket) }
  | .claim key items handle =>
    { b with
      table := (b.table.takeReady key).holdNew handle items
      handed := b.handed ++ [.ready key items] }
  | .take key items =>
    { b with table := b.table.takeNext.2, handed := b.handed ++ [.ready key items] }
  | .collect key ticket batch handle =>
    { b with
      table := b.table.collect ticket handle batch
      callers := b.callers.filter (·.2 ≠ ticket)
      handed := b.handed ++ [.share key ticket batch] }
  | .hold handle items => { b with table := b.table.holdNew handle items }
  | .lend copy batch =>
    { b with table := { b.table with held := b.table.held.insert copy batch } }
  | .release handle =>
    { b with table := { b.table with held := b.table.held.erase handle } }

/-- The board after a journal. -/
def after (b : Board κ α) (journal : List (Deed κ α)) : Board κ α :=
  journal.foldl perform b

/-- Each deed of a journal is possible when it is done. -/
def Permits (b : Board κ α) : List (Deed κ α) → Prop
  | [] => True
  | d :: rest => b.Allows d ∧ (b.perform d).Permits rest

@[simp] theorem after_nil (b : Board κ α) : b.after [] = b := rfl

@[simp] theorem after_cons (b : Board κ α) (d : Deed κ α) (rest : List (Deed κ α)) :
    b.after (d :: rest) = (b.perform d).after rest := rfl

theorem after_append (b : Board κ α) (p q : List (Deed κ α)) :
    b.after (p ++ q) = (b.after p).after q := List.foldl_append ..

theorem after_concat (b : Board κ α) (p : List (Deed κ α)) (d : Deed κ α) :
    b.after (p ++ [d]) = (b.after p).perform d := after_append ..

theorem permits_append : b.Permits (p ++ q) ↔ b.Permits p ∧ (b.after p).Permits q := by
  induction p generalizing b with
  | nil => simp [Permits]
  | cons d rest ih => simp [Permits, ih, and_assoc]

/-- So is each deed of what was done until then. -/
theorem Permits.of_prefix (h : b.Permits q) (hp : p <+: q) : b.Permits p := by
  obtain ⟨rest, rfl⟩ := hp
  exact (permits_append.mp h).1

theorem Permits.allows (h : b.Permits (p ++ [d])) : (b.after p).Allows d :=
  (permits_append.mp h).2.1

/-- The batches handed out along a journal. -/
theorem handed_after (b : Board κ α) (journal : List (Deed κ α)) :
    (b.after journal).handed = b.handed ++ Deed.handouts journal := by
  induction journal generalizing b with
  | nil => simp [Deed.handouts]
  | cons d rest ih =>
    rw [after_cons, ih]
    cases d <;> simp [perform, Deed.handouts, Deed.handout?]

/-- **What each permitted deed keeps holds at every point of a journal.** The
deed may be known to be of that journal. -/
theorem Permits.throughout {P : Board κ α → Prop} (h : b.Permits q) (start : P b)
    (step : ∀ p d, p ++ [d] <+: q → (b.after p).Allows d → P (b.after p) →
      P ((b.after p).perform d)) : ∀ p, p <+: q → P (b.after p) := by
  intro p
  induction p using List.reverseRecOn with
  | nil => exact fun _ => start
  | append_singleton p d ih =>
    intro hp
    rw [after_concat]
    exact step p d hp (h.of_prefix hp).allows (ih ((List.prefix_append p [d]).trans hp))

/-- **What every permitted deed keeps holds after every permitted journal.** -/
theorem Permits.keeps {P : Board κ α → Prop} (h : b.Permits q) (start : P b)
    (step : ∀ b d, P b → b.Allows d → P (b.perform d)) : P (b.after q) := by
  induction q generalizing b with
  | nil => exact start
  | cons d rest ih => exact ih h.2 (step b d start h.1)

end Board

end FramedDuplex
