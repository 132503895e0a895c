import FramedDuplex.Proofs.Exchange.Journal
import FramedDuplex.Proofs.Exchange.Turn
import Mathlib.Order.Monotone.Basic
import Mathlib.Order.Basic
/-!
# The exchange looks neither at messages nor at numbers

Changing what the messages of an exchange carry, everywhere they are, changes
what later answers carry and nothing else. So does giving callers and batches
other numbers, in the same order (`Numbering`): no answer has those numbers in
it. Both are one statement (`Exchange.run_relabel`).

So numbering the messages is harmless: a numbered run with the numbers forgotten
is the run (`Exchange.run_stamped`). And two exchanges that differ in the numbers
of callers and batches are told apart by nobody (`Exchange.run_renumber`).
-/

namespace FramedDuplex

variable {κ α β : Type} {f : α → β}

/-! ## Other messages -/

/-- A batch with other messages. -/
def Batch.map (f : α → β) (batch : Batch α) : Batch β :=
  ⟨batch.serial, batch.items.map f⟩

/-- What a caller is told, with other messages. -/
def Resolution.map (f : α → β) : Resolution α → Resolution β
  | batch b => batch (b.map f)
  | broken reason => broken reason

/-- A batch under a key, with other messages. -/
def mapEntry (f : α → β) (entry : κ × List α) : κ × List β :=
  (entry.1, entry.2.map f)

/-- A table with other messages. -/
def Table.map (f : α → β) (t : Table κ α) : Table κ β :=
  { ready := t.ready.map (mapEntry f)
    waiting := t.waiting
    resolved := t.resolved.map (·.map f)
    held := t.held.map (·.map f)
    broken := t.broken
    nextTicket := t.nextTicket
    nextSerial := t.nextSerial }

/-- A cursor that has other messages left. -/
def Cursor.map (f : α → β) (c : Cursor κ α) : Cursor κ β :=
  ⟨c.serial, c.left.map (mapEntry f)⟩

namespace Exchange

/-- An exchange with other messages. -/
def map (f : α → β) (x : Exchange κ α) : Exchange κ β :=
  ⟨x.table.map f, x.calls, x.cursors.map (·.map f), x.nextCursor⟩

/-- An answer with other messages. -/
def Answer.map (f : α → β) : Answer κ α → Answer κ β
  | nothing => nothing
  | flag value => flag value
  | count number => count number
  | pending => pending
  | batch items => batch (items.map f)
  | keyed key items => keyed key (items.map f)
  | message item => message (f item)
  | ended => ended
  | failed cause => failed cause
  | absent => absent
  | busy => busy
  | shared => shared

/-- An event with another message. -/
def Event.map (f : α → β) : Event κ α → Event κ β
  | deliver key item => deliver key (f item)
  | fail reason => fail reason
  | take => take
  | move now deadline m => move now deadline m

end Exchange

/-! ## Other numbers -/

/-- Other numbers for callers and for batches, in the same order. -/
structure Numbering where
  ticket : ℕ → ℕ
  serial : ℕ → ℕ
  ticket_strictMono : StrictMono ticket
  serial_strictMono : StrictMono serial

namespace Numbering

variable (r : Numbering)

/-- The numbers they have. -/
protected def id : Numbering := ⟨id, id, strictMono_id, strictMono_id⟩

theorem ticket_inj {i j : ℕ} : r.ticket i = r.ticket j ↔ i = j :=
  r.ticket_strictMono.injective.eq_iff

theorem serial_inj {i j : ℕ} : r.serial i = r.serial j ↔ i = j :=
  r.serial_strictMono.injective.eq_iff

/-- The numbers that a table has yet to give are given in the same steps. -/
structure Continues (t : Table κ α) : Prop where
  ticket : ∀ i, t.nextTicket ≤ i → r.ticket (i + 1) = r.ticket i + 1
  serial : ∀ i, t.nextSerial ≤ i → r.serial (i + 1) = r.serial i + 1

/-- The numbers in use stay, and new ones go on at two numbers. -/
def resume (t : Table κ α) (m n : ℕ) : Numbering where
  ticket i := if i < t.nextTicket then r.ticket i else r.ticket i + (m - r.ticket t.nextTicket)
  serial i := if i < t.nextSerial then r.serial i else r.serial i + (n - r.serial t.nextSerial)
  ticket_strictMono a b hab := by
    have := r.ticket_strictMono hab
    dsimp only
    split <;> split <;> omega
  serial_strictMono a b hab := by
    have := r.serial_strictMono hab
    dsimp only
    split <;> split <;> omega

theorem ticket_resume (t : Table κ α) {m n : ℕ} (hm : r.ticket t.nextTicket ≤ m) :
    (r.resume t m n).ticket t.nextTicket = m := by
  simp only [resume, lt_irrefl, if_false]
  omega

theorem serial_resume (t : Table κ α) {m n : ℕ} (hn : r.serial t.nextSerial ≤ n) :
    (r.resume t m n).serial t.nextSerial = n := by
  simp only [resume, lt_irrefl, if_false]
  omega

variable {r} in
theorem Continues.resume {t : Table κ α} (hr : r.Continues t) (m n : ℕ) :
    (r.resume t m n).Continues t where
  ticket i hi := by
    have := hr.ticket i hi
    simp only [Numbering.resume]
    rw [if_neg (by omega), if_neg (by omega)]
    omega
  serial i hi := by
    have := hr.serial i hi
    simp only [Numbering.resume]
    rw [if_neg (by omega), if_neg (by omega)]
    omega

theorem continues_id (t : Table κ α) : Numbering.id.Continues t := ⟨fun _ _ => rfl, fun _ _ => rfl⟩

end Numbering

/-- A batch with other messages and another number. -/
def Batch.relabel (r : Numbering) (f : α → β) (batch : Batch α) : Batch β :=
  ⟨r.serial batch.serial, batch.items.map f⟩

/-- What a caller is told, with other messages and numbers. -/
def Resolution.relabel (r : Numbering) (f : α → β) : Resolution α → Resolution β
  | batch b => batch (b.relabel r f)
  | broken reason => broken reason

/-- A call whose caller has another number. -/
def Call.renumber (r : Numbering) : Call κ → Call κ
  | receive key ticket fired deadline => receive key (r.ticket ticket) fired deadline
  | next serial single woken => next serial single woken

variable {r : Numbering}

namespace Table

/-- A table with other messages and numbers. -/
def relabel (r : Numbering) (f : α → β) (t : Table κ α) : Table κ β :=
  { ready := t.ready.map (mapEntry f)
    waiting := t.waiting.map fun (key, ticket) => (key, r.ticket ticket)
    resolved := t.resolved.relabel r.ticket (·.relabel r f)
    held := t.held.map (·.relabel r f)
    broken := t.broken
    nextTicket := r.ticket t.nextTicket
    nextSerial := r.serial t.nextSerial }

theorem batch?_relabel (told : Resolution α) :
    (told.relabel r f).batch? = told.batch?.map (·.relabel r f) := by
  cases told <;> rfl

theorem countP_relabel (batches : List (Batch α)) (serial : ℕ) :
    (batches.map (·.relabel r f)).countP (·.serial = r.serial serial) =
      batches.countP (·.serial = serial) := by
  simp [List.countP_map, Function.comp_def, Batch.relabel, r.serial_inj]

/-- **A batch has the shares it had.** -/
theorem shares_relabel (t : Table κ α) (serial : ℕ) :
    (t.relabel r f).shares (r.serial serial) = t.shares serial := by
  have resolved : (t.relabel r f).resolved.things.filterMap (·.batch?) =
      (t.resolved.things.filterMap (·.batch?)).map (·.relabel r f) := by
    rw [relabel, Handles.things_relabel, List.filterMap_map, List.map_filterMap]
    exact List.filterMap_congr fun told _ => batch?_relabel told
  have held : (t.relabel r f).held.things = t.held.things.map (·.relabel r f) :=
    Handles.things_map _ _
  rw [shares, resolved, held, countP_relabel, countP_relabel]
  rfl

theorem takeNext_relabel (t : Table κ α) :
    (t.relabel r f).takeNext = t.takeNext.map (·.map (mapEntry f)) (·.relabel r f) := by
  obtain ⟨ready, _⟩ := t
  cases ready <;> rfl

theorem fail_relabel (t : Table κ α) (reason : BrokenReason) :
    (t.relabel r f).fail reason = (t.fail reason).map id (·.relabel r f) := by
  have told := Handles.relabel_foldl_insert r.ticket_strictMono.injective (Resolution.relabel r f)
    (t.waiting.map (·.2)) (.broken reason) t.resolved
  simp only [List.map_map, List.foldl_map] at told
  simp only [fail, Prod.map, relabel, ← told, List.length_map, List.foldl_map]
  rfl

theorem holdNew_relabel {t : Table κ α} (hr : r.Continues t) (handle : ℕ) (items : List α) :
    (t.relabel r f).holdNew handle (items.map f) = (t.holdNew handle items).relabel r f := by
  have held := Handles.map_insert (Batch.relabel r f) t.held handle ⟨t.nextSerial, items⟩
  simp only [holdNew, relabel, ← held, hr.serial _ (Nat.le_refl _)]
  rfl

theorem collect_relabel (t : Table κ α) (ticket handle : ℕ) (batch : Batch α) :
    (t.relabel r f).collect (r.ticket ticket) handle (batch.relabel r f) =
      (t.collect ticket handle batch).relabel r f := by
  simp only [collect, relabel, Handles.map_insert,
    Handles.relabel_erase r.ticket_strictMono.injective]

theorem forget_relabel (t : Table κ α) (ticket : ℕ) :
    (t.relabel r f).forget (r.ticket ticket) = (t.forget ticket).relabel r f := by
  simp only [forget, relabel, Handles.relabel_erase r.ticket_strictMono.injective, List.filter_map,
    Function.comp_def, ne_eq, r.ticket_inj]

theorem enter_relabel {t : Table κ α} (hr : r.Continues t) (key : κ) :
    (t.relabel r f).enter key = (t.enter key).map r.ticket (·.relabel r f) := by
  simp only [enter, relabel, Prod.map, List.map_append, hr.ticket _ (Nat.le_refl _)]
  rfl

theorem find?_resolved_relabel (t : Table κ α) (ticket : ℕ) :
    (t.relabel r f).resolved.find? (r.ticket ticket) =
      (t.resolved.find? ticket).map (·.relabel r f) :=
  Handles.find?_relabel r.ticket_strictMono.injective ..

variable [DecidableEq κ]

theorem readyAt?_relabel (t : Table κ α) (key : κ) :
    (t.relabel r f).readyAt? key = (t.readyAt? key).map (·.map f) := by
  simp only [readyAt?, relabel, List.find?_map, Option.map_map]
  rfl

theorem readyAt?_map (t : Table κ α) (key : κ) :
    (t.map f).readyAt? key = (t.readyAt? key).map (·.map f) := by
  simp only [readyAt?, map, List.find?_map, Option.map_map]
  rfl

theorem waitingOn_relabel (t : Table κ α) (key : κ) :
    (t.relabel r f).waitingOn key = (t.waitingOn key).map r.ticket := by
  simp only [waitingOn, relabel, List.filter_map, List.map_map]
  rfl

theorem takeReady_relabel (t : Table κ α) (key : κ) :
    (t.relabel r f).takeReady key = (t.takeReady key).relabel r f := by
  simp only [takeReady, relabel, List.filter_map]
  rfl

/-- Changing what is ready, where the change does not look at the messages. -/
theorem changeReady_relabel (t : Table κ α) (key : κ) {g : List α → List α} {g' : List β → List β}
    (h : ∀ items, g' (items.map f) = (g items).map f) :
    (t.relabel r f).changeReady key g' = (t.changeReady key g).relabel r f := by
  have ready : (t.relabel r f).ready.map (fun e => (e.1, if e.1 = key then g' e.2 else e.2)) =
      (t.ready.map fun e => (e.1, if e.1 = key then g e.2 else e.2)).map (mapEntry f) := by
    simp only [relabel, List.map_map]
    refine List.map_congr_left fun e _ => ?_
    by_cases he : e.1 = key
    · simp [mapEntry, he, h]
    · simp [mapEntry, he]
  simp only [changeReady, ready]
  rfl

theorem resolve_relabel {t : Table κ α} (hr : r.Continues t) (key : κ) (items : List α) :
    (t.relabel r f).resolve key (items.map f) = (t.resolve key items).relabel r f := by
  have told := Handles.relabel_foldl_insert r.ticket_strictMono.injective (Resolution.relabel r f)
    (t.waitingOn key) (.batch ⟨t.nextSerial, items⟩) t.resolved
  simp only [resolve, waitingOn_relabel]
  simp only [relabel, ← told, List.filter_map, hr.serial _ (Nat.le_refl _)]
  rfl

/-- **Messages arrive wherever they come from.** -/
theorem deliver_relabel {t : Table κ α} (hr : r.Continues t) (key : κ) (items : List α) :
    (t.relabel r f).deliver key (items.map f) = (t.deliver key items).map (·.relabel r f) id := by
  unfold deliver
  rw [readyAt?_relabel, Option.isSome_map, waitingOn_relabel, List.isEmpty_map]
  by_cases hready : (t.readyAt? key).isSome
  · have later : (t.relabel r f).changeReady key (· ++ items.map f) =
        (t.changeReady key (· ++ items)).relabel r f :=
      changeReady_relabel t key fun old => List.map_append.symm
    rw [if_pos hready, if_pos hready, later]
    rfl
  · rw [if_neg hready, if_neg hready]
    cases (t.waitingOn key).isEmpty with
    | true => simp [relabel, mapEntry]
    | false => simp [resolve_relabel hr]

theorem restore_relabel {t : Table κ α} (hr : r.Continues t) (key : κ) (items : List α) :
    (t.relabel r f).restore key (items.map f) = (t.restore key items).map (·.relabel r f) id := by
  unfold restore
  rw [readyAt?_relabel, Option.isSome_map]
  by_cases hready : (t.readyAt? key).isSome
  · have older : (t.relabel r f).changeReady key (items.map f ++ ·) =
        (t.changeReady key (items ++ ·)).relabel r f :=
      changeReady_relabel t key fun old => List.map_append.symm
    rw [if_pos hready, if_pos hready, older]
    rfl
  · rw [if_neg hready, if_neg hready, deliver_relabel hr]

theorem leave_relabel {t : Table κ α} (hr : r.Continues t) (key : κ) (ticket : ℕ) :
    (t.relabel r f).leave key (r.ticket ticket) = (t.leave key ticket).map (·.relabel r f) id := by
  have sent : ((t.relabel r f).resolved.find? (r.ticket ticket)).bind (·.batch?) =
      ((t.resolved.find? ticket).bind (·.batch?)).map (·.relabel r f) := by
    rw [find?_resolved_relabel]
    cases t.resolved.find? ticket with
    | none => rfl
    | some told => exact batch?_relabel told
  rw [leave_eq, leave_eq, sent, forget_relabel]
  cases (t.resolved.find? ticket).bind (·.batch?) with
  | none => rfl
  | some batch =>
    have shares := (t.forget ticket).shares_relabel (r := r) (f := f) batch.serial
    simp only [Option.map_some, Batch.relabel, shares]
    by_cases hshares : (t.forget ticket).shares batch.serial = 0
    · rw [if_pos hshares, if_pos hshares]
      exact restore_relabel (t := t.forget ticket) ⟨hr.ticket, hr.serial⟩ key batch.items
    · rw [if_neg hshares, if_neg hshares]
      rfl

end Table

theorem Numbering.Continues.turns [DecidableEq κ] {P : Part κ} {t u : Table κ α}
    (hr : r.Continues t) (h : t.Turns P u) : r.Continues u := by
  have ⟨hticket, hserial⟩ := h.numbers_le
  exact ⟨fun i hi => hr.ticket i (hticket.trans hi), fun i hi => hr.serial i (hserial.trans hi)⟩

/-- The numbers go on in the same steps after an event. -/
theorem Numbering.Continues.step [DecidableEq κ] {x : Exchange κ α} (hr : r.Continues x.table)
    (event : Exchange.Event κ α) : r.Continues (x.step event).2.table := by
  rcases x.turns_step event with hturns | ⟨reason, he⟩
  · exact hr.turns hturns
  · rw [he]
    exact ⟨hr.ticket, hr.serial⟩

namespace Exchange

/-- An exchange with other messages and numbers. -/
def relabel (r : Numbering) (f : α → β) (x : Exchange κ α) : Exchange κ β :=
  ⟨x.table.relabel r f, x.calls.map (·.renumber r), x.cursors.map (·.map f), x.nextCursor⟩

/-- An answer and what it leaves, with other messages and numbers. -/
def relabelTold (r : Numbering) (f : α → β) (told : Answer κ α × Exchange κ α) :
    Answer κ β × Exchange κ β :=
  (told.1.map f, told.2.relabel r f)

variable {x : Exchange κ α}

/-! ## The table and the calls -/

/-- A table and calls can be put in place before or after. -/
theorem place_relabel (x : Exchange κ α) {calls calls' : Handles (Call κ)} {t : Table κ α}
    {u : Table κ β} (h : u = t.relabel r f) (hcalls : calls' = calls.map (·.renumber r)) :
    ({ x.relabel r f with table := u, calls := calls' } : Exchange κ β) =
      { x with table := t, calls }.relabel r f := by
  subst h hcalls
  rfl

theorem wake_relabel (x : Exchange κ α) : (x.relabel r f).wake = x.wake.relabel r f := by
  simp only [wake, relabel, Handles.map_map]
  congr 2
  funext call
  cases call <;> rfl

theorem settleTable_relabel (x : Exchange κ α) (e : Table κ α × Bool) :
    (x.relabel r f).settleTable (e.map (·.relabel r f) id) = (x.settleTable e).relabel r f := by
  obtain ⟨table, became⟩ := e
  cases became with
  | true => exact wake_relabel { x with table }
  | false => rfl

theorem find?_calls_relabel (x : Exchange κ α) (handle : ℕ) :
    (x.relabel r f).calls.find? handle = (x.calls.find? handle).map (·.renumber r) :=
  Handles.find?_map ..

theorem fail_relabel (x : Exchange κ α) (reason : BrokenReason) :
    (x.relabel r f).fail reason = (x.fail reason).map id (·.relabel r f) := by
  have table := x.table.fail_relabel (r := r) (f := f) reason
  have woken := wake_relabel (r := r) (f := f) { x with table := (x.table.fail reason).2 }
  unfold fail
  simp only [Prod.map]
  rw [← woken]
  simp only [relabel, table]
  rfl

theorem take_relabel (x : Exchange κ α) :
    (x.relabel r f).take = x.take.map (·.map (mapEntry f)) (·.relabel r f) := by
  have table := x.table.takeNext_relabel (r := r) (f := f)
  unfold take
  simp only [relabel, table]
  rfl

/-! ## Cursors -/

theorem find?_cursors_relabel (x : Exchange κ α) (cursor : ℕ) :
    (x.relabel r f).cursors.find? cursor = (x.cursors.find? cursor).map (·.map f) :=
  Handles.find?_map ..

theorem isBusy_relabel (x : Exchange κ α) (serial : ℕ) :
    (x.relabel r f).isBusy serial = x.isBusy serial := by
  simp only [isBusy, Handles.any, relabel, Handles.things_map, List.any_map]
  congr 1
  funext call
  cases call <;> rfl

theorem openCursor_relabel (x : Exchange κ α) (cursor : ℕ) :
    (x.relabel r f).openCursor cursor = (x.openCursor cursor).relabel r f := by
  have cursors := Handles.map_insert (Cursor.map f) x.cursors cursor ⟨x.nextCursor, none⟩
  simp only [openCursor, relabel, ← cursors]
  rfl

theorem closeCursor_relabel (x : Exchange κ α) (cursor : ℕ) :
    (Answer.flag ((x.relabel r f).cursors.contains cursor),
      { x.relabel r f with cursors := (x.relabel r f).cursors.erase cursor }) =
      relabelTold r f (Answer.flag (x.cursors.contains cursor),
        { x with cursors := x.cursors.erase cursor }) := by
  have there : (x.relabel r f).cursors.contains cursor = x.cursors.contains cursor :=
    Handles.contains_map ..
  have closed : (x.relabel r f).cursors.erase cursor = (x.cursors.erase cursor).map (·.map f) :=
    Handles.map_erase ..
  rw [there, closed]
  rfl

theorem leaveOver_relabel (x : Exchange κ α) (serial : ℕ) (rest : Option (κ × List α)) :
    (x.relabel r f).leaveOver serial (rest.map (mapEntry f)) =
      (x.leaveOver serial rest).relabel r f := by
  unfold leaveOver relabel
  congr 1
  simp only [Handles.map_map]
  congr 1
  funext c
  by_cases hc : c.serial = serial
  · simp [Cursor.map, hc]
  · simp [Cursor.map, hc]

/-- A call ends. -/
theorem erase_relabel (x : Exchange κ α) (handle : ℕ) :
    (x.relabel r f).calls.erase handle = (x.calls.erase handle).map (·.renumber r) :=
  Handles.map_erase ..

theorem advance_relabel [DecidableEq κ] (hr : r.Continues x.table) (serial handle : ℕ)
    (single : Bool) :
    (x.relabel r f).advance serial handle single =
      relabelTold r f (x.advance serial handle single) := by
  have hr' : r.Continues x.take.2.table := hr.turns (turns_take (P := .all) (fun _ => rfl) x)
  have ended := x.erase_relabel (r := r) (f := f) handle
  unfold advance
  rw [take_relabel]
  generalize htake : x.take = taken at hr' ⊢
  obtain ⟨entry, y⟩ := taken
  match entry with
  | none =>
    have broken : (x.relabel r f).table.broken = x.table.broken := rfl
    have asleep := Handles.map_insert (Call.renumber r) x.calls handle (.next serial single false)
    simp only [Prod.map, Option.map_none, broken]
    cases x.table.broken with
    | some reason => exact congrArg (Prod.mk _) (x.place_relabel rfl ended)
    | none => exact congrArg (Prod.mk _) (x.place_relabel rfl asleep)
  | some (key, []) =>
    exact congrArg (Prod.mk _)
      (y.place_relabel (Table.holdNew_relabel hr' handle []) (y.erase_relabel handle))
  | some (key, item :: rest) =>
    cases single with
    | true =>
      have left :=
        leaveOver_relabel (r := r) (f := f) { y with calls := y.calls.erase handle } serial
        (some (key, rest))
      rw [← y.place_relabel rfl (y.erase_relabel (f := f) handle)] at left
      exact congrArg (Prod.mk _) left
    | false =>
      exact congrArg (Prod.mk _)
        (y.place_relabel (Table.holdNew_relabel hr' handle (item :: rest)) (y.erase_relabel handle))

theorem seekNext_relabel [DecidableEq κ] (hr : r.Continues x.table) (c : Cursor κ α)
    (handle : ℕ) (single : Bool) :
    (x.relabel r f).seekNext (c.map f) handle single =
      relabelTold r f (x.seekNext c handle single) := by
  obtain ⟨serial, left⟩ := c
  have spent := leaveOver_relabel (r := r) (f := f) x serial none
  have onwards := advance_relabel (f := f) (x := x.leaveOver serial none) hr serial handle single
  match left with
  | none =>
    rw [← spent] at onwards
    exact onwards
  | some (key, []) =>
    rw [← spent] at onwards
    exact onwards
  | some (key, item :: rest) =>
    cases single with
    | true => exact congrArg (Prod.mk _) (leaveOver_relabel x serial (some (key, rest)))
    | false =>
      have held := (x.leaveOver serial none).place_relabel
        (Table.holdNew_relabel (f := f) (t := x.table) hr handle (item :: rest))
        (rfl : _ = x.calls.map _)
      rw [← spent] at held
      exact congrArg (Prod.mk _) held

theorem tryNext_relabel (x : Exchange κ α) (cursor : ℕ) :
    (x.relabel r f).tryNext cursor = relabelTold r f (x.tryNext cursor) := by
  unfold tryNext
  rw [find?_cursors_relabel, take_relabel]
  cases x.cursors.find? cursor with
  | none => rfl
  | some c =>
    have busy : (x.relabel r f).isBusy (c.map f).serial = x.isBusy c.serial := isBusy_relabel x _
    simp only [Option.map_some, busy]
    obtain ⟨entry, y⟩ := x.take
    cases x.isBusy c.serial with
    | true => rfl
    | false => cases entry <;> rfl

/-! ## Calls of either kind -/

theorem cancel_relabel (x : Exchange κ α) (handle : ℕ) :
    (x.relabel r f).cancel handle = (x.cancel handle).map id (·.relabel r f) := by
  unfold cancel
  rw [find?_calls_relabel]
  cases x.calls.find? handle with
  | none => rfl
  | some call =>
    cases call with
    | next serial single woken => rfl
    | receive key ticket fired deadline =>
      match fired with
      | none => rfl
      | some true => rfl
      | some false =>
        have fires := Handles.map_insert (Call.renumber r) x.calls handle
          (.receive key ticket (some true) deadline)
        exact congrArg (Prod.mk _) (x.place_relabel rfl fires)

/-! ## Batches in a caller's hands -/

theorem find?_held_relabel (x : Exchange κ α) (handle : ℕ) :
    (x.relabel r f).table.held.find? handle = (x.table.held.find? handle).map (·.relabel r f) :=
  Handles.find?_map ..

/-- Batches can be given to others before or after. -/
theorem regroup_relabel (x : Exchange κ α) {held : Handles (Batch α)} {other : Handles (Batch β)}
    (h : other = held.map (·.relabel r f)) :
    { x.relabel r f with table := { (x.relabel r f).table with held := other } } =
      { x with table := { x.table with held } }.relabel r f := by
  subst h
  rfl

theorem view_relabel (x : Exchange κ α) (handle : ℕ) :
    (x.relabel r f).view handle = (x.view handle).map f := by
  unfold view
  rw [find?_held_relabel]
  cases x.table.held.find? handle <;> rfl

theorem clone_relabel (x : Exchange κ α) (handle copy : ℕ) :
    (x.relabel r f).clone handle copy = relabelTold r f (x.clone handle copy) := by
  unfold clone
  rw [find?_held_relabel]
  cases x.table.held.find? handle with
  | none => rfl
  | some batch =>
    have lent := Handles.map_insert (Batch.relabel r f) x.table.held copy batch
    exact congrArg (Prod.mk _) (x.regroup_relabel lent)

theorem unwrap_relabel (x : Exchange κ α) (handle : ℕ) (copies : Bool) :
    (x.relabel r f).unwrap handle copies = relabelTold r f (x.unwrap handle copies) := by
  unfold unwrap
  rw [find?_held_relabel]
  cases x.table.held.find? handle with
  | none => rfl
  | some batch =>
    have hshares : (x.relabel r f).table.shares (batch.relabel r f).serial =
        x.table.shares batch.serial := x.table.shares_relabel batch.serial
    simp only [Option.map_some, hshares]
    split
    · exact congrArg (Prod.mk _) (x.regroup_relabel (Handles.map_erase ..))
    · rfl

variable [DecidableEq κ]

theorem deliver_relabel (hr : r.Continues x.table) (key : κ) (item : α) :
    (x.relabel r f).deliver key (f item) = (x.deliver key item).relabel r f := by
  have table := Table.deliver_relabel (f := f) hr key [item]
  exact (congrArg _ table).trans (settleTable_relabel ..)

/-! ## Calls that wait for a key -/

theorem quit_relabel (hr : r.Continues x.table) (handle : ℕ) (key : κ) (ticket : ℕ) :
    (x.relabel r f).quit handle key (r.ticket ticket) = (x.quit handle key ticket).relabel r f := by
  have table := Table.leave_relabel (f := f) hr key ticket
  have ended :=
    x.place_relabel (f := f) (t := x.table) rfl (x.erase_relabel (r := r) (f := f) handle)
  rw [quit, quit, ← settleTable_relabel { x with calls := x.calls.erase handle }, ← ended]
  exact congrArg _ table

theorem vacate_relabel (hr : r.Continues x.table) (handle : ℕ) :
    (x.relabel r f).vacate handle = (x.vacate handle).relabel r f := by
  unfold vacate
  rw [find?_calls_relabel]
  cases x.calls.find? handle with
  | none => rfl
  | some call =>
    cases call with
    | receive key ticket fired deadline => exact quit_relabel hr handle key ticket
    | next serial single woken => exact x.place_relabel rfl (x.erase_relabel handle)

theorem seek_relabel (hr : r.Continues x.table) (handle : ℕ) (key : κ) (fired : Option Bool)
    (deadline : Option ℕ) (now : ℕ) :
    (x.relabel r f).seek handle key fired deadline now =
      relabelTold r f (x.seek handle key fired deadline now) := by
  have ready := x.table.readyAt?_relabel (r := r) (f := f) key
  have broken : (x.relabel r f).table.broken = x.table.broken := rfl
  unfold seek
  split
  · rfl
  · rw [broken]
    have table : (x.relabel r f).table = x.table.relabel r f := rfl
    rw [table, ready]
    cases x.table.readyAt? key with
    | some items =>
      have held :=
        Table.holdNew_relabel (f := f) (t := x.table.takeReady key) ⟨hr.ticket, hr.serial⟩
        handle items
      rw [← Table.takeReady_relabel] at held
      exact congrArg (Prod.mk _) (x.place_relabel held rfl)
    | none =>
      cases x.table.broken with
      | some reason => rfl
      | none =>
        cases passed now deadline with
        | true => rfl
        | false =>
          have entered := Table.enter_relabel (f := f) hr key
          have starts := Handles.map_insert (Call.renumber r) x.calls handle
            (.receive key x.table.nextTicket fired deadline)
          simp only [Option.map_none, Bool.false_eq_true, if_false, entered]
          exact congrArg (Prod.mk _) (x.place_relabel rfl starts)

theorem pollReceive_relabel (hr : r.Continues x.table) (handle : ℕ) (key : κ) (ticket : ℕ)
    (fired : Option Bool) (deadline : Option ℕ) (now : ℕ) :
    (x.relabel r f).pollReceive handle key (r.ticket ticket) fired deadline now =
      relabelTold r f (x.pollReceive handle key ticket fired deadline now) := by
  have left := quit_relabel (f := f) hr handle key ticket
  have told : (x.relabel r f).table.resolved.find? (r.ticket ticket) =
      (x.table.resolved.find? ticket).map (·.relabel r f) := x.table.find?_resolved_relabel ticket
  unfold pollReceive
  split
  · exact congrArg (Prod.mk _) left
  · rw [told]
    cases x.table.resolved.find? ticket with
    | none =>
      cases passed now deadline with
      | true => exact congrArg (Prod.mk _) left
      | false => rfl
    | some told =>
      cases told with
      | broken reason => exact congrArg (Prod.mk _) left
      | batch batch =>
        have held := x.table.collect_relabel (r := r) (f := f) ticket handle batch
        exact congrArg (Prod.mk _) (x.place_relabel held (x.erase_relabel handle))

/-! ## Moves, events and runs -/

theorem next_relabel (hr : r.Continues x.table) (cursor handle : ℕ) (single : Bool) :
    (x.relabel r f).next cursor handle single = relabelTold r f (x.next cursor handle single) := by
  unfold next
  rw [find?_cursors_relabel]
  cases x.cursors.find? cursor with
  | none => rfl
  | some c =>
    have busy : (x.relabel r f).isBusy (c.map f).serial = x.isBusy c.serial := isBusy_relabel x _
    simp only [Option.map_some, busy]
    cases x.isBusy c.serial with
    | true => rfl
    | false =>
      rw [vacate_relabel hr]
      exact seekNext_relabel (hr.turns (turns_vacate (x.keeps_all handle).covers)) c handle single

theorem poll_relabel (hr : r.Continues x.table) (handle now : ℕ) :
    (x.relabel r f).poll handle now = relabelTold r f (x.poll handle now) := by
  unfold poll
  rw [find?_calls_relabel]
  cases x.calls.find? handle with
  | none => rfl
  | some call =>
    cases call with
    | receive key ticket fired deadline => exact pollReceive_relabel hr ..
    | next serial single woken =>
      cases woken with
      | true => exact advance_relabel hr ..
      | false => rfl

theorem drop_relabel (hr : r.Continues x.table) (handle : ℕ) :
    (x.relabel r f).drop handle = (x.drop handle).map id (·.relabel r f) := by
  have calls : (x.relabel r f).calls.contains handle = x.calls.contains handle :=
    Handles.contains_map ..
  have held : (x.relabel r f).table.held.contains handle = x.table.held.contains handle :=
    Handles.contains_map ..
  unfold drop
  rw [calls]
  split
  · rw [vacate_relabel hr]
    rfl
  · rw [held]
    exact congrArg (Prod.mk _) (x.regroup_relabel (Handles.map_erase ..))

theorem act_relabel (hr : r.Continues x.table) (now : ℕ) (deadline : Option ℕ) (move : Move κ) :
    (x.relabel r f).act now deadline move = relabelTold r f (x.act now deadline move) := by
  cases move with
  | receive handle key fired =>
    simp only [act, receive, vacate_relabel hr]
    exact seek_relabel (hr.turns (turns_vacate (x.keeps_all handle).covers)) ..
  | poll handle => exact poll_relabel hr ..
  | cancel handle =>
    simp only [act, cancel_relabel]
    rfl
  | drop handle =>
    simp only [act, drop_relabel hr]
    rfl
  | openCursor cursor => exact congrArg (Prod.mk _) (openCursor_relabel ..)
  | closeCursor cursor => exact closeCursor_relabel ..
  | next cursor handle single => exact next_relabel hr ..
  | tryNext cursor => exact tryNext_relabel ..
  | view handle => exact congrArg (·, x.relabel r f) (view_relabel ..)
  | clone handle copy => exact clone_relabel ..
  | unwrap handle copies => exact unwrap_relabel ..

/-- **No event looks at messages or numbers.** -/
theorem step_relabel (hr : r.Continues x.table) (event : Event κ α) :
    (x.relabel r f).step (event.map f) = relabelTold r f (x.step event) := by
  cases event with
  | deliver key item => exact congrArg (Prod.mk _) (deliver_relabel hr ..)
  | fail reason =>
    simp only [Event.map, step, fail_relabel]
    rfl
  | take =>
    simp only [Event.map, step, take_relabel]
    obtain ⟨entry, y⟩ := x.take
    cases entry <;> rfl
  | move now deadline move => exact act_relabel hr ..

/-- **Nor does a run.** -/
theorem run_relabel (hr : r.Continues x.table) (events : List (Event κ α)) :
    (x.relabel r f).run (events.map (·.map f)) =
      (x.run events).map (·.map (·.map f)) (·.relabel r f) := by
  induction events generalizing x with
  | nil => rfl
  | cons event rest ih =>
    rw [List.map_cons, run, step_relabel hr]
    simp only [relabelTold, ih (hr.step event)]
    rfl

/-! ## Messages only -/

omit [DecidableEq κ] in
/-- Other messages with the same numbers. -/
theorem relabel_id (f : α → β) (x : Exchange κ α) : x.relabel .id f = x.map f := by
  have told : (Resolution.relabel .id f : Resolution α → Resolution β) = Resolution.map f := by
    funext told
    cases told <;> rfl
  have calls : (Call.renumber .id : Call κ → Call κ) = id := by
    funext call
    cases call <;> rfl
  simp only [relabel, calls, Table.relabel, told]
  simp only [map, Table.map, Handles.map, Handles.relabel, Numbering.id, id, List.map_id']
  rfl

/-- **A run with other messages** is the run with other messages. -/
theorem run_map (x : Exchange κ α) (events : List (Event κ α)) :
    (x.map f).run (events.map (·.map f)) =
      (x.run events).map (·.map (·.map f)) (·.map f) := by
  have h := run_relabel (f := f) (Numbering.continues_id x.table) events
  simpa only [relabel_id] using h

omit [DecidableEq κ] in
/-- Forgetting the numbers undoes the numbering. -/
theorem map_stampFrom (n : ℕ) (events : List (Event κ α)) :
    (stampFrom n events).map (·.map Letter.item) = events := by
  induction events generalizing n with
  | nil => rfl
  | cons event rest ih =>
    rw [stampFrom, List.map_cons, ih]
    cases event <;> rfl

/-- **A numbered run is the run.** The answers with the numbers of their messages
forgotten are those of the run without numbers, and so is what it leaves. -/
theorem run_stamped (events : List (Event κ α)) :
    (run empty (stamped events)).map (·.map (·.map Letter.item)) (·.map Letter.item) =
      run empty events := by
  have h := run_map (f := Letter.item) empty (stamped events)
  rw [stamped, map_stampFrom] at h
  exact h.symm

/-! ## Numbers only -/

/-- An exchange whose callers and batches have other numbers. -/
def renumber (r : Numbering) (x : Exchange κ α) : Exchange κ α :=
  x.relabel r id

omit [DecidableEq κ] in
@[simp] theorem Answer.map_id (answer : Answer κ α) : answer.map id = answer := by
  cases answer <;> simp [Answer.map]

omit [DecidableEq κ] in
@[simp] theorem Event.map_id (event : Event κ α) : event.map id = event := by
  cases event <;> rfl

omit [DecidableEq κ] in
theorem renumber_id (x : Exchange κ α) : x.renumber .id = x := by
  have batches : (Batch.map id : Batch α → Batch α) = id := by
    funext batch
    simp [Batch.map]
  have told : (Resolution.map id : Resolution α → Resolution α) = id := by
    funext told
    cases told <;> simp [Resolution.map, batches]
  have entries : (mapEntry id : κ × List α → κ × List α) = id := by
    funext entry
    simp [mapEntry]
  have cursors : (Cursor.map id : Cursor κ α → Cursor κ α) = id := by
    funext c
    simp [Cursor.map, entries]
  rw [renumber, relabel_id]
  simp [map, Table.map, Handles.map, batches, told, entries, cursors]

/-- **An event answers the same** whatever numbers callers and batches have, and
keeps to those numbers. -/
theorem step_renumber (hr : r.Continues x.table) (event : Event κ α) :
    (x.renumber r).step event = ((x.step event).1, (x.step event).2.renumber r) := by
  have h := step_relabel (f := id) hr event
  rw [Event.map_id, relabelTold, Answer.map_id] at h
  exact h

/-- **So does a run.** -/
theorem run_renumber (hr : r.Continues x.table) (events : List (Event κ α)) :
    (x.renumber r).run events = ((x.run events).1, (x.run events).2.renumber r) := by
  induction events generalizing x with
  | nil => rfl
  | cons event rest ih =>
    rw [run, step_renumber hr]
    simp only [ih (hr.step event)]
    rfl

/-! ## Numbers in use -/

/-- The numbers in use are smaller than those that are given next. -/
structure Numbered (x : Exchange κ α) : Prop where
  waits : ∀ e ∈ x.table.waiting, e.2 < x.table.nextTicket
  told : ∀ e ∈ x.table.resolved.entries, e.1 < x.table.nextTicket ∧
    ∀ batch, e.2.batch? = some batch → batch.serial < x.table.nextSerial
  held : ∀ e ∈ x.table.held.entries, e.2.serial < x.table.nextSerial
  calls : ∀ e ∈ x.calls.entries, ∀ key ticket fired deadline,
    e.2 = .receive key ticket fired deadline → ticket < x.table.nextTicket

omit [DecidableEq κ] in
/-- Two ways to number that agree on the numbers in use differ only in those that
are given next. -/
theorem renumber_congr {s : Numbering}
    (waiting : ∀ e ∈ x.table.waiting, s.ticket e.2 = r.ticket e.2)
    (resolved : ∀ e ∈ x.table.resolved.entries, s.ticket e.1 = r.ticket e.1 ∧
      ∀ batch, e.2.batch? = some batch → s.serial batch.serial = r.serial batch.serial)
    (held : ∀ e ∈ x.table.held.entries, s.serial e.2.serial = r.serial e.2.serial)
    (calls : ∀ e ∈ x.calls.entries, e.2.renumber s = e.2.renumber r) :
    x.renumber s = { x.renumber r with
      table := { (x.renumber r).table with
        nextTicket := s.ticket x.table.nextTicket
        nextSerial := s.serial x.table.nextSerial } } := by
  have hwaiting : x.table.waiting.map (fun e => (e.1, s.ticket e.2)) =
      x.table.waiting.map fun e => (e.1, r.ticket e.2) :=
    List.map_congr_left fun e he => by rw [waiting e he]
  have hresolved : x.table.resolved.relabel s.ticket (·.relabel s id) =
      x.table.resolved.relabel r.ticket (·.relabel r id) := by
    refine congrArg Handles.mk (List.map_congr_left fun e he => ?_)
    obtain ⟨n, told⟩ := e
    obtain ⟨hticket, hserial⟩ := resolved _ he
    cases told with
    | broken reason => simp [hticket, Resolution.relabel]
    | batch b => simp [hticket, Resolution.relabel, Batch.relabel, hserial b rfl]
  have hheld : x.table.held.map (·.relabel s id) = x.table.held.map (·.relabel r id) := by
    refine congrArg Handles.mk (List.map_congr_left fun e he => ?_)
    simp [Batch.relabel, held e he]
  have hcalls : x.calls.map (·.renumber s) = x.calls.map (·.renumber r) := by
    refine congrArg Handles.mk (List.map_congr_left fun e he => ?_)
    simp [calls e he]
  simp only [renumber, relabel, Table.relabel, hwaiting, hresolved, hheld, hcalls]

omit [DecidableEq κ] in
/-- **Numbers that go on differently** change nothing but what is given next. -/
theorem renumber_resume (h : x.Numbered) {m n : ℕ} (hm : r.ticket x.table.nextTicket ≤ m)
    (hn : r.serial x.table.nextSerial ≤ n) :
    x.renumber (r.resume x.table m n) = { x.renumber r with
      table := { (x.renumber r).table with nextTicket := m, nextSerial := n } } := by
  have ticket : ∀ i < x.table.nextTicket, (r.resume x.table m n).ticket i = r.ticket i :=
    fun i hi => if_pos hi
  have serial : ∀ i < x.table.nextSerial, (r.resume x.table m n).serial i = r.serial i :=
    fun i hi => if_pos hi
  rw [renumber_congr (fun e he => ticket _ (h.waits e he))
    (fun e he => ⟨ticket _ (h.told e he).1, fun b hb => serial _ ((h.told e he).2 b hb)⟩)
    (fun e he => serial _ (h.held e he)) fun e he => ?_]
  · rw [r.ticket_resume x.table hm, r.serial_resume x.table hn]
  · obtain ⟨number, call⟩ := e
    cases call with
    | receive key i fired deadline =>
      simp [Call.renumber, ticket i (h.calls _ he key i fired deadline rfl)]
    | next => rfl

end Exchange

end FramedDuplex
