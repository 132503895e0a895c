import FramedDuplex.Proofs.Exchange.Ended
import FramedDuplex.Proofs.Exchange.Shift
import Mathlib.Data.List.Infix
/-!
# What a cursor hands out

A cursor takes batches off the table and hands their messages out. What it has
handed out, followed by what it has left, is what it took, in the order in which
it took it, as long as nobody asks it without waiting for one while it is taking
a batch apart: `Exchange.tryNext` goes past what is left and hands out a later
batch first (`Exchange.Overtakes`). So the step that does not wait agrees with the
one that waits where nothing is left, and nowhere else.

A cursor is followed by its serial number (`Exchange.Sole`): one number names it,
and at most one call is on it, which found nothing left.
-/

namespace FramedDuplex

open scoped List

variable {κ α : Type}

/-- The messages that a cursor has left of the batch it is taking apart. -/
def Cursor.remainder (c : Cursor κ α) : List α :=
  (c.left.map (·.2)).getD []

namespace Exchange

/-- The messages in what a caller is told. -/
def Answer.messages : Answer κ α → List α
  | .batch items | .keyed _ items => items
  | .message item => [item]
  | .nothing | .flag _ | .count _ | .pending | .ended | .failed _ | .absent | .busy | .shared => []

variable {x y : Exchange κ α} {cursor serial handle : ℕ} {event : Event κ α}
variable {on names : ℕ → Prop}

/-- What the cursor that a number names has left. -/
def leftOf (x : Exchange κ α) (cursor : ℕ) : List α :=
  ((x.cursors.find? cursor).map (·.remainder)).getD []

/-- Whether a call is waiting on the cursor that a number names. -/
def busyAt (x : Exchange κ α) (cursor : ℕ) : Bool :=
  (x.cursors.find? cursor).any (x.isBusy ·.serial)

/-- Whether an event opens or closes a cursor under a number. -/
def Event.reopens (cursor : ℕ) : Event κ α → Bool
  | .move _ _ (.openCursor c) | .move _ _ (.closeCursor c) => c = cursor
  | _ => false

/-- Whether an event asks a cursor without waiting. -/
def Event.tries (cursor : ℕ) : Event κ α → Bool
  | .move _ _ (.tryNext c) => c = cursor
  | _ => false

/-- Whether an event is a call on the cursor that a number names, or asks one for
progress. -/
def asks (x : Exchange κ α) (cursor : ℕ) : Event κ α → Bool
  | .move _ _ (.poll handle) =>
    match x.calls.find? handle with
    | some (.next serial _ _) => (x.cursors.find? cursor).any (·.serial = serial)
    | _ => false
  | .move _ _ (.next c _ _) | .move _ _ (.tryNext c) => c = cursor
  | _ => false

theorem take_of_nil (hready : x.table.ready = []) : x.take = (none, x) := by
  simp [take, Table.takeNext, hready]

theorem take_of_cons {entry : κ × List α} {rest : List (κ × List α)}
    (hready : x.table.ready = entry :: rest) :
    x.take = (some entry, { x with table := { x.table with ready := rest } }) := by
  simp [take, Table.takeNext, hready]

/-! ## Serial numbers of cursors -/

/-- No call is on the cursor with a serial number. -/
def Free (x : Exchange κ α) (serial : ℕ) : Prop :=
  ∀ handle, ¬ x.Sits handle serial

theorem free_of_idle (h : x.isBusy serial = false) : x.Free serial := by
  rintro handle ⟨single, woken, hfind⟩
  have idle := List.any_eq_false.mp h _ (Handles.mem_things_of_find? hfind)
  simp at idle

/-- Serial numbers of cursors were given, and so were those that calls are on. -/
structure Opened (x : Exchange κ α) : Prop where
  cursors : ∀ n c, x.cursors.find? n = some c → c.serial < x.nextCursor
  calls : ∀ handle serial, x.Sits handle serial → serial < x.nextCursor

@[simp] theorem table_leaveOver (x : Exchange κ α) (serial : ℕ) (rest : Option (κ × List α)) :
    (x.leaveOver serial rest).table = x.table := rfl

@[simp] theorem calls_leaveOver (x : Exchange κ α) (serial : ℕ) (rest : Option (κ × List α)) :
    (x.leaveOver serial rest).calls = x.calls := rfl

theorem find?_leaveOver (x : Exchange κ α) (serial : ℕ) (rest : Option (κ × List α)) (n : ℕ) :
    (x.leaveOver serial rest).cursors.find? n =
      (x.cursors.find? n).map fun c => if c.serial = serial then ⟨serial, rest⟩ else c :=
  Handles.find?_map ..

theorem Opened.shift (h : x.Opened) (shift : x.Shift on names y)
    (hon : ∀ serial, on serial → serial < x.nextCursor) : y.Opened := by
  have later := shift.nextCursor_le
  refine ⟨fun n c hfind => ?_, fun handle serial hsits => ?_⟩
  · cases shift with
    | table | finish | await | sleep | wake => exact h.cursors n c hfind
    | leaveOver =>
      rw [find?_leaveOver, Option.map_eq_some_iff] at hfind
      obtain ⟨old, hold, rfl⟩ := hfind
      have lt := h.cursors n old hold
      split
      · next he => exact he ▸ lt
      · exact lt
    | openCursor =>
      simp only [Exchange.openCursor, Handles.find?_insert] at hfind
      split at hfind
      · obtain rfl := Option.some.inj hfind
        exact Nat.lt_succ_self _
      · exact (h.cursors n c hfind).trans_le later
    | closeCursor =>
      rw [Handles.find?_erase] at hfind
      split at hfind
      · simp at hfind
      · exact h.cursors n c hfind
  · by_cases hserial : on serial
    · exact (hon serial hserial).trans_le later
    · exact (h.calls handle serial (shift.sits hserial hsits)).trans_le later

theorem Opened.shifts (h : x.Opened) (shifts : x.Shifts on names y)
    (hon : ∀ serial, on serial → serial < x.nextCursor) : y.Opened := by
  have both : y.Opened ∧ x.nextCursor ≤ y.nextCursor := by
    induction shifts with
    | refl => exact ⟨h, le_rfl⟩
    | tail _ shift ih =>
      obtain ⟨opened, later⟩ := ih
      exact ⟨opened.shift shift fun serial hs => (hon serial hs).trans_le later,
        later.trans shift.nextCursor_le⟩
  exact both.1

theorem opened_empty : (empty : Exchange κ α).Opened where
  cursors n c hfind := by simp [Exchange.empty] at hfind
  calls handle serial hsits := by
    obtain ⟨single, woken, hfind⟩ := hsits
    simp [Exchange.empty] at hfind

/-- **Every run knows only serial numbers that it gave.** -/
theorem opened_run [DecidableEq κ] (h : x.Opened) (events : List (Event κ α)) :
    (x.run events).2.Opened := by
  induction events generalizing x with
  | nil => exact h
  | cons event rest ih =>
    have known : x.Shifts (· < x.nextCursor) (fun _ => True) (x.step event).2 := by
      refine shifts_step fun now deadline move _ => ?_
      cases move with
      | poll handle => exact h.calls handle
      | next cursor handle single => exact h.cursors cursor
      | _ => trivial
    exact ih (h.shifts known fun _ => id)

/-! ## One cursor -/

variable {n serial : ℕ}

/-- The number `n` and no other names the cursor with a serial number. One call at
most is on it, and only if it has nothing left. -/
structure Sole (x : Exchange κ α) (n serial : ℕ) : Prop where
  there : ∃ c, x.cursors.find? n = some c ∧ c.serial = serial
  named : ∀ m c, x.cursors.find? m = some c → c.serial = serial → m = n
  opened : serial < x.nextCursor
  alone : ∀ handle other, x.Sits handle serial → x.Sits other serial → handle = other
  spent : ∀ handle, x.Sits handle serial → x.leftOf n = []

/-- **A cursor that is opened has a serial number of its own**, and no call is on it
yet. -/
theorem sole_openCursor (h : x.Opened) (n : ℕ) :
    (x.openCursor n).Sole n x.nextCursor ∧ (x.openCursor n).leftOf n = [] := by
  have free : ∀ handle, ¬ x.Sits handle x.nextCursor :=
    fun handle hsits => Nat.lt_irrefl _ (h.calls handle _ hsits)
  refine ⟨⟨⟨⟨x.nextCursor, none⟩, by simp [openCursor], rfl⟩, fun m c hm hserial => ?_,
    Nat.lt_succ_self _, fun handle _ hsits => absurd hsits (free handle),
    fun handle hsits => absurd hsits (free handle)⟩, by simp [leftOf, openCursor, Cursor.remainder]⟩
  rw [openCursor, Handles.find?_insert] at hm
  split at hm
  · assumption
  · exact absurd (h.cursors m c hm) (by simp [hserial])

namespace Sole

/-- The other cursors, and calls on them, leave it as it is. -/
theorem shift (h : x.Sole n serial) (shift : x.Shift (· ≠ serial) (· ≠ n) y) :
    y.Sole n serial ∧ y.leftOf n = x.leftOf n := by
  have sits : ∀ handle, y.Sits handle serial → x.Sits handle serial :=
    fun handle => shift.sits fun hne => hne rfl
  obtain ⟨c, hfind, hserial⟩ := h.there
  have same : y.cursors.find? n = some c := by
    cases shift with
    | table | finish | await | sleep | wake => exact hfind
    | leaveOver _ hother =>
      rw [find?_leaveOver, hfind, Option.map_some, if_neg fun he => hother (he.symm.trans hserial)]
    | openCursor hother =>
      rw [Exchange.openCursor, Handles.find?_insert_of_ne _ _ hother.symm, hfind]
    | closeCursor hother => rw [Handles.find?_erase_of_ne _ hother.symm, hfind]
  have left : y.leftOf n = x.leftOf n := by rw [leftOf, same, leftOf, hfind]
  refine ⟨⟨⟨c, same, hserial⟩, fun m d hm hd => ?_, h.opened.trans_le shift.nextCursor_le,
    fun handle other hh ho => h.alone handle other (sits handle hh) (sits other ho),
    fun handle hh => left.trans (h.spent handle (sits handle hh))⟩, left⟩
  cases shift with
  | table | finish | await | sleep | wake => exact h.named m d hm hd
  | leaveOver =>
    rw [find?_leaveOver, Option.map_eq_some_iff] at hm
    obtain ⟨old, hold, rfl⟩ := hm
    split at hd
    · next he => exact h.named m old hold (he.trans hd)
    · exact h.named m old hold hd
  | openCursor =>
    simp only [Exchange.openCursor, Handles.find?_insert] at hm
    split at hm
    · obtain rfl := Option.some.inj hm
      exact absurd h.opened (by simp [← hd])
    · exact h.named m d hm hd
  | closeCursor =>
    rw [Handles.find?_erase] at hm
    split at hm
    · simp at hm
    · exact h.named m d hm hd

theorem shifts (h : x.Sole n serial) (shifts : x.Shifts (· ≠ serial) (· ≠ n) y) :
    y.Sole n serial ∧ y.leftOf n = x.leftOf n := by
  induction shifts with
  | refl => exact ⟨h, rfl⟩
  | tail _ step ih =>
    obtain ⟨sole, left⟩ := ih
    obtain ⟨sole', left'⟩ := sole.shift step
    exact ⟨sole', left'.trans left⟩

end Sole

/-! ## Calls on the cursor -/

/-- What a call on a cursor makes of `x`: it takes batches off the table, puts their
messages behind what was left, or before it if it comes `early`, and tells its caller
those in front. -/
structure Deals (n serial : ℕ) (early : Bool) (x : Exchange κ α) (r : Answer κ α × Exchange κ α)
    (batches : List (κ × List α)) : Prop where
  sole : r.2.Sole n serial
  ready : x.table.ready = batches ++ r.2.table.ready
  order : r.1.messages ++ r.2.leftOf n =
    if early then batches.flatMap (·.2) ++ x.leftOf n else x.leftOf n ++ batches.flatMap (·.2)

section Deals

variable {single : Bool}

theorem Sole.leftOf_leaveOver (h : x.Sole n serial) (rest : Option (κ × List α)) :
    (x.leaveOver serial rest).leftOf n = (rest.map (·.2)).getD [] := by
  obtain ⟨c, hfind, hserial⟩ := h.there
  simp [leftOf, find?_leaveOver, hfind, hserial, Cursor.remainder]

/-- A cursor that lets go of what it has left does not touch another. -/
theorem Sole.leftOf_leaveOver_of_nil (h : x.Sole n serial) (hnil : x.leftOf n = []) (m : ℕ) :
    (x.leaveOver serial none).leftOf m = x.leftOf m := by
  by_cases hm : m = n
  · rw [hm, h.leftOf_leaveOver, hnil]
    rfl
  · simp only [leftOf, find?_leaveOver]
    cases hfind : x.cursors.find? m with
    | none => rfl
    | some c =>
      have hother : c.serial ≠ serial := fun hc => hm (h.named m c hfind hc)
      simp [hother]

/-- A cursor that no call is on may have something left. -/
theorem Sole.leaveOver (h : x.Sole n serial) (hfree : x.Free serial) (rest : Option (κ × List α)) :
    (x.leaveOver serial rest).Sole n serial := by
  obtain ⟨c, hfind, hserial⟩ := h.there
  refine ⟨⟨⟨serial, rest⟩, by simp [find?_leaveOver, hfind, hserial], rfl⟩, fun m d hm hd => ?_,
    h.opened, h.alone, fun handle hsits => absurd hsits (hfree handle)⟩
  rw [find?_leaveOver, Option.map_eq_some_iff] at hm
  obtain ⟨old, hold, rfl⟩ := hm
  split at hd
  · next he => exact h.named m old hold he
  · exact h.named m old hold hd

/-- A call that has the cursor to itself is on it no more when it ends. -/
theorem free_erase (hone : ∀ other, x.Sits other serial → other = handle) :
    ({ x with calls := x.calls.erase handle } : Exchange κ α).Free serial := by
  rintro other ⟨single, woken, hfind⟩
  rw [Handles.find?_erase] at hfind
  split at hfind
  · simp at hfind
  · next hne => exact hne (hone other ⟨single, woken, hfind⟩)

/-- When a call ends, the cursor is what it was, whatever was done to the table. -/
theorem Sole.ended (h : x.Sole n serial) (handle : ℕ) (t : Table κ α) :
    Sole { x with table := t, calls := x.calls.erase handle } n serial ∧
      leftOf { x with table := t, calls := x.calls.erase handle } n = x.leftOf n :=
  h.shifts ((Shift.table x t).shifts.tail (.finish _ handle))

/-- **A call on a cursor that has nothing left** takes the next batch, or sleeps. -/
theorem deals_advance (h : x.Sole n serial) (hleft : x.leftOf n = [])
    (hone : ∀ other, x.Sits other serial → other = handle) (single : Bool) :
    ∃ batches, Deals n serial false x (x.advance serial handle single) batches := by
  cases hready : x.table.ready with
  | nil =>
    refine ⟨[], ?_⟩
    simp only [advance, take_of_nil hready]
    split
    · have ⟨sole, left⟩ := h.ended handle x.table
      exact ⟨sole, rfl, by simp [Answer.messages, left, hleft]⟩
    · -- the call sleeps where it was
      have sits : ∀ other, ({ x with calls := x.calls.insert handle (.next serial single false) } :
          Exchange κ α).Sits other serial → other = handle := by
        rintro other ⟨s, w, hfind⟩
        rw [Handles.find?_insert] at hfind
        split at hfind
        · assumption
        · exact hone other ⟨s, w, hfind⟩
      have alone : ∀ a b, _ → _ → a = b := fun a b ha hb => (sits a ha).trans (sits b hb).symm
      exact ⟨⟨h.there, h.named, h.opened, alone, fun _ _ => hleft⟩, rfl,
        by simp [Answer.messages, leftOf]⟩
  | cons entry rest =>
    obtain ⟨key, items⟩ := entry
    refine ⟨[(key, items)], ?_⟩
    simp only [advance, take_of_cons hready]
    cases items with
    | nil =>
      refine ⟨(h.ended handle _).1, hready, ?_⟩
      simp [Answer.messages, (h.ended handle _).2, hleft]
    | cons item more =>
      cases single with
      | false =>
        refine ⟨(h.ended handle _).1, hready, ?_⟩
        simp [Answer.messages, (h.ended handle _).2, hleft]
      | true =>
        have free := free_erase (x := { x with table := { x.table with ready := rest } }) hone
        refine ⟨(h.ended handle _).1.leaveOver free _, hready, ?_⟩
        simp [Answer.messages, (h.ended handle _).1.leftOf_leaveOver, hleft]

/-- What a cursor has left is what comes first. -/
theorem deals_seekNext (h : x.Sole n serial) (hfree : x.Free serial) {c : Cursor κ α}
    (hfind : x.cursors.find? n = some c) (hserial : c.serial = serial) :
    ∃ batches, Deals n serial false x (x.seekNext c handle single) batches := by
  have left : x.leftOf n = (c.left.map (·.2)).getD [] := by simp [leftOf, hfind, Cursor.remainder]
  have emptied := h.leaveOver hfree none
  have none_left := h.leftOf_leaveOver none
  have rest : (c.left.map (·.2)).getD [] = [] →
      ∃ batches, Deals n serial false x
        ((x.leaveOver c.serial none).advance c.serial handle single) batches := by
    intro hnil
    rw [hserial]
    have hone : ∀ other, x.Sits other serial → other = handle :=
      fun other hsits => absurd hsits (hfree other)
    obtain ⟨batches, sole, ready, order⟩ := deals_advance emptied none_left hone single
    rw [none_left] at order
    exact ⟨batches, sole, ready, by rw [left, hnil]; exact order⟩
  obtain ⟨s, l⟩ := c
  obtain rfl : s = serial := hserial
  rcases l with _ | ⟨key, _ | ⟨item, more⟩⟩
  · exact rest rfl
  · exact rest rfl
  · refine ⟨[], ?_⟩
    cases single with
    | true =>
      refine ⟨h.leaveOver hfree (some (key, more)), rfl, ?_⟩
      simp [seekNext, Answer.messages, h.leftOf_leaveOver, left]
    | false =>
      obtain ⟨sole, same⟩ := emptied.shift (.table _ (x.table.holdNew handle (item :: more)))
      have gone : (x.seekNext ⟨s, some (key, item :: more)⟩ handle false).2.leftOf n = [] :=
        same.trans none_left
      refine ⟨sole, rfl, ?_⟩
      rw [gone]
      simp [seekNext, Answer.messages, left]

namespace Sole

variable (h : x.Sole n serial)
include h

theorem busyAt_eq : x.busyAt n = x.isBusy serial := by
  obtain ⟨c, hfind, hserial⟩ := h.there
  simp [busyAt, hfind, hserial]

/-- A poll is for the cursor if the call is on it. -/
theorem asks_poll {now : ℕ} {deadline : Option ℕ} :
    x.asks n (.move now deadline (.poll handle)) = true ↔ x.Sits handle serial := by
  obtain ⟨c, hfind, hserial⟩ := h.there
  simp only [asks, Sits, hfind, Option.any_some, hserial]
  split
  · next other single woken hcall => simp [hcall, eq_comm]
  · next hnone => exact ⟨fun he => by simp at he, fun ⟨_, _, hcall⟩ => (hnone _ _ _ hcall).elim⟩

/-- Nothing is handed out, and nothing happens. -/
theorem deals_still {early : Bool} {answer : Answer κ α} (hanswer : answer.messages = []) :
    Deals n serial early x (answer, x) [] :=
  ⟨h, rfl, by simp [hanswer]⟩

theorem tryNext_of_nil (hidle : x.isBusy serial = false) (hready : x.table.ready = []) :
    x.tryNext n = (.nothing, x) := by
  obtain ⟨c, hfind, hserial⟩ := h.there
  simp [tryNext, hfind, hserial, hidle, take_of_nil hready]

theorem tryNext_of_cons (hidle : x.isBusy serial = false) {key : κ} {items : List α}
    {rest : List (κ × List α)} (hready : x.table.ready = (key, items) :: rest) :
    x.tryNext n = (.keyed key items, { x with table := { x.table with ready := rest } }) := by
  obtain ⟨c, hfind, hserial⟩ := h.there
  simp [tryNext, hfind, hserial, hidle, take_of_cons hready]

/-- **The step that does not wait** puts a batch before what is left. -/
theorem deals_tryNext : ∃ batches, Deals n serial true x (x.tryNext n) batches := by
  cases hbusy : x.isBusy serial with
  | true =>
    obtain ⟨c, hfind, hserial⟩ := h.there
    have hstay : x.tryNext n = (.busy, x) := by simp [tryNext, hfind, hserial, hbusy]
    exact ⟨[], hstay ▸ h.deals_still rfl⟩
  | false =>
    cases hready : x.table.ready with
    | nil => exact ⟨[], h.tryNext_of_nil hbusy hready ▸ h.deals_still rfl⟩
    | cons entry rest =>
      obtain ⟨sole, same⟩ := h.shift (.table x { x.table with ready := rest })
      rw [h.tryNext_of_cons hbusy hready]
      exact ⟨[entry], sole, hready, by simp [Answer.messages, same]⟩

end Sole

end Deals

/-! ## Events -/

variable [DecidableEq κ]

/-- The exchange as an event finds it: a call on a cursor that starts under the
number of another call drops that one first. -/
def found (x : Exchange κ α) : Event κ α → Exchange κ α
  | .move _ _ (.next cursor handle _) => if x.busyAt cursor then x else x.vacate handle
  | _ => x

/-- The batches that a call on a cursor takes off the table: those in front that
are ready no more. -/
def taken (x : Exchange κ α) (cursor : ℕ) (event : Event κ α) : List (κ × List α) :=
  if x.asks cursor event then
    let ready := (x.found event).table.ready
    ready.take (ready.length - (x.step event).2.table.ready.length)
  else []

/-- The messages that an event makes a cursor hand out. -/
def yields (x : Exchange κ α) (cursor : ℕ) (event : Event κ α) : List α :=
  if x.asks cursor event then (x.step event).1.messages else []

/-- The batches that a cursor takes in a run. -/
def drawn (x : Exchange κ α) (cursor : ℕ) : List (Event κ α) → List (κ × List α)
  | [] => []
  | event :: rest => x.taken cursor event ++ (x.step event).2.drawn cursor rest

/-- The messages that a cursor hands out in a run. -/
def yielded (x : Exchange κ α) (cursor : ℕ) : List (Event κ α) → List α
  | [] => []
  | event :: rest => x.yields cursor event ++ (x.step event).2.yielded cursor rest

/-- An event asks a cursor without waiting, and the batch that it takes overtakes
what the cursor has left. -/
def Overtakes (x : Exchange κ α) (cursor : ℕ) (event : Event κ α) : Prop :=
  event.tries cursor ∧
    (x.taken cursor event).flatMap (·.2) ++ x.leftOf cursor ≠
      x.leftOf cursor ++ (x.taken cursor event).flatMap (·.2)

namespace Sole

variable (h : x.Sole n serial)
include h

/-- What is not for the cursor leaves it as it is. -/
theorem step_other (hasks : x.asks n event = false) (hreopens : event.reopens n = false) :
    (x.step event).2.Sole n serial ∧ (x.step event).2.leftOf n = x.leftOf n := by
  refine h.shifts (shifts_step fun now deadline move he => ?_)
  subst he
  cases move with
  | poll handle =>
    rintro other hsits rfl
    simp [h.asks_poll.mpr hsits] at hasks
  | next cursor handle single =>
    intro c hfind hserial
    simp [asks, h.named cursor c hfind hserial] at hasks
  | openCursor cursor | closeCursor cursor =>
    exact (by simpa [Event.reopens] using hreopens : cursor ≠ n)
  | receive | cancel | drop | tryNext | view | clone | unwrap => trivial

/-- A call that is dropped first had nothing to do with the cursor, or there is
nothing left. -/
theorem found (event : Event κ α) :
    (x.found event).Sole n serial ∧ (x.found event).leftOf n = x.leftOf n := by
  unfold Exchange.found
  split
  · split
    · exact ⟨h, rfl⟩
    · exact h.shifts (shifts_vacate x _)
  · exact ⟨h, rfl⟩

theorem deals_next (hidle : x.isBusy serial = false) (handle : ℕ) (single : Bool) :
    ∃ batches, Deals n serial false (x.vacate handle) (x.next n handle single) batches := by
  obtain ⟨c, hfind, hserial⟩ := h.there
  have quiet : x.Shifts (fun _ => False) (fun _ => False) (x.vacate handle) :=
    shifts_vacate x handle
  have sole := (h.shifts (shifts_vacate x handle)).1
  have free : (x.vacate handle).Free serial :=
    fun other hother => free_of_idle hidle other (quiet.sits id hother)
  have hnext : x.next n handle single = (x.vacate handle).seekNext c handle single := by
    simp [next, hfind, hserial, hidle]
  rw [hnext]
  exact deals_seekNext sole free (quiet.sameCursors.cursors ▸ hfind) hserial

theorem deals_poll {single woken : Bool} {now : ℕ}
    (hcall : x.calls.find? handle = some (.next serial single woken)) :
    ∃ batches, Deals n serial false x (x.poll handle now) batches := by
  have hsits : x.Sits handle serial := ⟨single, woken, hcall⟩
  simp only [poll, hcall]
  cases woken with
  | false => exact ⟨[], h.deals_still rfl⟩
  | true =>
    have hone : ∀ other, x.Sits other serial → other = handle :=
      fun other hother => h.alone other handle hother hsits
    exact deals_advance h (h.spent handle hsits) hone single

/-- **What is for the cursor** hands out what is left, and then takes the next
batch; or the other way round, if it does not wait for one. -/
theorem step_asks (hasks : x.asks n event = true) :
    ∃ batches, Deals n serial (event.tries n) (x.found event) (x.step event) batches := by
  cases event with
  | deliver | fail | take => simp [asks] at hasks
  | move now deadline move =>
    cases move with
    | poll handle =>
      obtain ⟨single, woken, hcall⟩ := h.asks_poll.mp hasks
      exact h.deals_poll hcall
    | next cursor handle single =>
      obtain rfl : cursor = n := by simpa [asks] using hasks
      cases hbusy : x.isBusy serial with
      | true =>
        obtain ⟨c, hfind, hserial⟩ := h.there
        have hstay : x.next cursor handle single = (.busy, x) := by
          simp [next, hfind, hserial, hbusy]
        refine ⟨[], ?_⟩
        simp only [Exchange.found, h.busyAt_eq, hbusy, if_true, step, act, hstay]
        exact h.deals_still rfl
      | false =>
        have hfound : x.found (.move now deadline (.next cursor handle single)) =
            x.vacate handle := by simp [Exchange.found, h.busyAt_eq, hbusy]
        rw [hfound]
        exact h.deals_next hbusy handle single
    | tryNext cursor =>
      obtain rfl : cursor = n := by simpa [asks] using hasks
      have early : (Event.move now deadline (.tryNext cursor) : Event κ α).tries cursor = true := by
        simp [Event.tries]
      rw [early]
      exact h.deals_tryNext
    | receive | cancel | drop | openCursor | closeCursor | view | clone | unwrap =>
      simp [asks] at hasks

/-- **One event**: the messages in front are handed out, of what was left and what is
taken. -/
theorem step (hreopens : event.reopens n = false) :
    (x.step event).2.Sole n serial ∧
      x.yields n event ++ (x.step event).2.leftOf n =
        if event.tries n then (x.taken n event).flatMap (·.2) ++ x.leftOf n
        else x.leftOf n ++ (x.taken n event).flatMap (·.2) := by
  cases hasks : x.asks n event with
  | true =>
    obtain ⟨batches, deals⟩ := h.step_asks hasks
    have htaken : x.taken n event = batches := by simp [taken, hasks, deals.ready]
    have left := (h.found event).2
    have order := deals.order
    rw [left] at order
    exact ⟨deals.sole, by rw [htaken, yields, if_pos hasks, order]⟩
  | false =>
    obtain ⟨sole, left⟩ := h.step_other hasks hreopens
    exact ⟨sole, by simp [yields, taken, hasks, left]⟩

/-- Nothing is lost, and nothing handed out twice, -/
theorem step_perm (hreopens : event.reopens n = false) :
    (x.yields n event ++ (x.step event).2.leftOf n).Perm
      (x.leftOf n ++ (x.taken n event).flatMap (·.2)) := by
  rw [(h.step hreopens).2]
  split
  · exact List.perm_append_comm
  · exact .refl _

/-- and the order is kept, if no batch overtakes what is left. -/
theorem step_in_order_iff (hreopens : event.reopens n = false) :
    x.yields n event ++ (x.step event).2.leftOf n =
        x.leftOf n ++ (x.taken n event).flatMap (·.2) ↔ ¬ x.Overtakes n event := by
  rw [(h.step hreopens).2, Overtakes]
  cases event.tries n <;> simp

end Sole

/-! ## Runs -/

section Runs

variable {events : List (Event κ α)}

theorem yielded_append (x : Exchange κ α) (n : ℕ) (p q : List (Event κ α)) :
    x.yielded n (p ++ q) = x.yielded n p ++ (x.run p).2.yielded n q := by
  induction p generalizing x with
  | nil => rfl
  | cons event rest ih => simp [yielded, run, ih]

theorem drawn_append (x : Exchange κ α) (n : ℕ) (p q : List (Event κ α)) :
    x.drawn n (p ++ q) = x.drawn n p ++ (x.run p).2.drawn n q := by
  induction p generalizing x with
  | nil => rfl
  | cons event rest ih => simp [drawn, run, ih]

namespace Sole

theorem run (h : x.Sole n serial) (hkept : ∀ event ∈ events, event.reopens n = false) :
    (x.run events).2.Sole n serial := by
  induction events generalizing x with
  | nil => exact h
  | cons event rest ih =>
    exact ih (h.step (hkept event List.mem_cons_self)).1
      fun later hlater => hkept later (List.mem_cons_of_mem _ hlater)

/-- **The messages of the batches that a cursor took** are those that it handed out
and those that it has left. -/
theorem perm_drawn (h : x.Sole n serial) (hkept : ∀ event ∈ events, event.reopens n = false) :
    (x.yielded n events ++ (x.run events).2.leftOf n).Perm
      (x.leftOf n ++ (x.drawn n events).flatMap (·.2)) := by
  induction events generalizing x with
  | nil => simp [yielded, drawn, Exchange.run]
  | cons event rest ih =>
    have hreopens := hkept event List.mem_cons_self
    have later := ih (h.step hreopens).1 fun e he => hkept e (List.mem_cons_of_mem _ he)
    have first := h.step_perm hreopens
    simp only [yielded, drawn, Exchange.run, List.flatMap_append, List.append_assoc]
    calc x.yields n event ++
          ((x.step event).2.yielded n rest ++ ((x.step event).2.run rest).2.leftOf n)
      _ ~ x.yields n event ++ ((x.step event).2.leftOf n ++
          ((x.step event).2.drawn n rest).flatMap (·.2)) := later.append_left _
      _ ~ x.leftOf n ++ ((x.taken n event).flatMap (·.2) ++
          ((x.step event).2.drawn n rest).flatMap (·.2)) := by
        simpa only [List.append_assoc] using first.append_right _

/-- One event more at the end of a run. -/
theorem in_order_snoc (h : x.Sole n serial) {p : List (Event κ α)}
    (hkept : ∀ e ∈ p ++ [event], e.reopens n = false)
    (hp : x.yielded n p ++ (x.run p).2.leftOf n = x.leftOf n ++ (x.drawn n p).flatMap (·.2)) :
    x.yielded n (p ++ [event]) ++ (x.run (p ++ [event])).2.leftOf n =
        x.leftOf n ++ (x.drawn n (p ++ [event])).flatMap (·.2) ↔
      ¬ (x.run p).2.Overtakes n event := by
  have before := h.run fun e he => hkept e (List.mem_append_left _ he)
  have hreopens := hkept event (by simp)
  rw [← before.step_in_order_iff hreopens, yielded_append, drawn_append, run_append,
    List.flatMap_append, ← List.append_assoc, ← hp]
  simp [yielded, drawn, Exchange.run]

/-- **They are in the order in which they were taken**, at every point of a run, if
and only if no batch overtakes what is left. -/
theorem in_order_iff (h : x.Sole n serial) (hkept : ∀ event ∈ events, event.reopens n = false) :
    (∀ p, p <+: events → x.yielded n p ++ (x.run p).2.leftOf n =
        x.leftOf n ++ (x.drawn n p).flatMap (·.2)) ↔
      ∀ p event, p ++ [event] <+: events → ¬ (x.run p).2.Overtakes n event := by
  have kept : ∀ p, p <+: events → ∀ e ∈ p, e.reopens n = false :=
    fun p hp e he => hkept e (hp.subset he)
  constructor
  · intro hall p event hp
    have hbefore := hall p ((List.prefix_append p [event]).trans hp)
    exact (h.in_order_snoc (kept _ hp) hbefore).mp (hall _ hp)
  · intro hnone p hp
    induction p using List.reverseRecOn with
    | nil => simp [yielded, drawn, Exchange.run]
    | append_singleton p event ih =>
      have hbefore := ih ((List.prefix_append p [event]).trans hp)
      exact (h.in_order_snoc (kept _ hp) hbefore).mpr (hnone p event hp)

end Sole

end Runs

/-! ## The step that does not wait -/

/-- **The step that does not wait does what the one that waits does**: where that one
completes with a batch, it hands out the same batch and leaves the same behind, but
that nobody holds the batch; and where it has none to hand out, the other waits or
tells the end. -/
structure Agrees (x : Exchange κ α) (cursor handle : ℕ) : Prop where
  batch : ∀ key items, (x.next cursor handle false).1 = .keyed key items →
    (x.tryNext cursor).1 = .keyed key items ∧
      (x.next cursor handle false).2.table = (x.tryNext cursor).2.table.holdNew handle items ∧
      (x.next cursor handle false).2.calls = (x.tryNext cursor).2.calls ∧
      ∀ m, (x.next cursor handle false).2.leftOf m = (x.tryNext cursor).2.leftOf m
  nothing : (x.tryNext cursor).1 = .nothing →
    (x.next cursor handle false).1 = .pending ∨ (x.next cursor handle false).1 = .ended

section Agrees

variable (h : x.Sole n serial)
include h

variable (hidle : x.isBusy serial = false) (hnew : x.calls.find? handle = none)
include hidle hnew

/-- **Where something is left, the two do not agree**: the step that does not wait
takes a batch, if there is one, and the other does not. -/
theorem Sole.leftOf_of_agrees (hagrees : x.Agrees n handle) : x.leftOf n = [] := by
  obtain ⟨c, hfind, hserial⟩ := h.there
  have vacant : x.vacate handle = x := by simp [vacate, hnew]
  by_contra hleft
  obtain ⟨key, item, more, hc⟩ : ∃ key item more, c.left = some (key, item :: more) := by
    rcases hl : c.left with _ | ⟨key, _ | ⟨item, more⟩⟩
    · simp [leftOf, hfind, Cursor.remainder, hl] at hleft
    · simp [leftOf, hfind, Cursor.remainder, hl] at hleft
    · exact ⟨key, item, more, rfl⟩
  have hnext : x.next n handle false = (.keyed key (item :: more),
      { x.leaveOver serial none with table := x.table.holdNew handle (item :: more) }) := by
    simp only [next, hfind, hserial, hidle, vacant, seekNext, hc]
    rfl
  obtain ⟨hsame, htable, -, -⟩ := hagrees.batch key (item :: more) (by rw [hnext])
  cases hready : x.table.ready with
  | nil => simp [h.tryNext_of_nil hidle hready] at hsame
  | cons entry rest =>
    rw [hnext, h.tryNext_of_cons hidle hready] at htable
    have hrest : x.table.ready = rest := congrArg (·.ready) htable
    simp [hready] at hrest

/-- **Where nothing is left, they agree.** -/
theorem Sole.agrees_of_leftOf (hnil : x.leftOf n = []) : x.Agrees n handle := by
  obtain ⟨c, hfind, hserial⟩ := h.there
  have vacant : x.vacate handle = x := by simp [vacate, hnew]
  have hnext : x.next n handle false = (x.leaveOver serial none).advance serial handle false := by
    have hc : c.remainder = [] := by simpa [leftOf, hfind] using hnil
    simp only [next, hfind, hserial, hidle, vacant, seekNext]
    rcases hl : c.left with _ | ⟨key, _ | ⟨item, more⟩⟩
    · rfl
    · rfl
    · simp [Cursor.remainder, hl] at hc
  cases hready : x.table.ready with
  | nil =>
    have hwait : (x.next n handle false).1 = .pending ∨ (x.next n handle false).1 = .ended := by
      have hsame : (x.leaveOver serial none).table.ready = [] := hready
      rw [hnext, advance, take_of_nil hsame]
      by_cases hbroken : x.table.broken.isSome
      · exact .inr (by simp [hbroken])
      · exact .inl (by simp [hbroken])
    refine ⟨fun key items hkeyed => ?_, fun _ => hwait⟩
    rcases hwait with hw | hw <;> simp [hw] at hkeyed
  | cons entry rest =>
    obtain ⟨key, items⟩ := entry
    have htry := h.tryNext_of_cons hidle hready
    have hcalls : x.calls.erase handle = x.calls := Handles.erase_of_find?_eq_none hnew
    have hkeyed : x.next n handle false = (.keyed key items,
        { x.leaveOver serial none with
          table := ({ x.table with ready := rest } : Table κ α).holdNew handle items }) := by
      have hsame : (x.leaveOver serial none).table.ready = (key, items) :: rest := hready
      rw [hnext, advance, take_of_cons hsame]
      cases items <;> simp [hcalls]
    refine ⟨fun k found hfound => ?_, fun hnothing => ?_⟩
    · rw [hkeyed] at hfound
      obtain ⟨rfl, rfl⟩ : key = k ∧ items = found := by simpa using hfound
      rw [hkeyed, htry]
      exact ⟨rfl, rfl, rfl, h.leftOf_leaveOver_of_nil hnil⟩
    · rw [htry] at hnothing
      simp at hnothing

end Agrees

/-- **When the step that does not wait agrees with the one that waits**, for every run
and every cursor: where the cursor has nothing left of a batch, and nowhere else. And
whatever mix of calls is made on a cursor, the messages of the batches that it took
are those that it handed out and those that it has left; they are in the order of the
batches, batch by batch, at every point, if and only if no step that does not wait
overtakes what is left. -/
theorem tryNext_agrees_iff (before events : List (Event κ α)) (n : ℕ)
    (hkept : ∀ event ∈ events, event.reopens n = false) :
    let x := (run empty (before ++ [.move 0 none (.openCursor n)])).2
    let y := (x.run events).2
    (∀ handle, y.busyAt n = false → y.calls.find? handle = none →
      (y.Agrees n handle ↔ y.leftOf n = [])) ∧
    x.yielded n events ++ y.leftOf n ~ (x.drawn n events).flatMap (·.2) ∧
    ((∀ p, p <+: events →
        x.yielded n p ++ (x.run p).2.leftOf n = (x.drawn n p).flatMap (·.2)) ↔
      ∀ p event, p ++ [event] <+: events → ¬ (x.run p).2.Overtakes n event) := by
  intro x y
  have opened : (run (empty : Exchange κ α) before).2.Opened := opened_run opened_empty before
  have hx : x = (run (empty : Exchange κ α) before).2.openCursor n := by
    simp only [x, run_append]
    rfl
  obtain ⟨sole, hnil⟩ := sole_openCursor opened n
  rw [← hx] at sole hnil
  have later : y.Sole n _ := sole.run hkept
  refine ⟨fun handle hidle hnew => ?_, ?_, ?_⟩
  · rw [later.busyAt_eq] at hidle
    exact ⟨later.leftOf_of_agrees hidle hnew, later.agrees_of_leftOf hidle hnew⟩
  · simpa only [hnil, List.nil_append] using sole.perm_drawn hkept
  · simpa only [hnil, List.nil_append] using sole.in_order_iff hkept

/-- A cursor that has handed out both messages of a batch has nothing left of it. -/
theorem tryNext_agrees_after_batch :
    let before : List (Event ℕ ℕ) := [.deliver 1 1, .deliver 1 2, .deliver 2 3]
    let message : Event ℕ ℕ := .move 0 none (.next 0 9 true)
    let x := (run empty (before ++ [.move 0 none (.openCursor 0)])).2
    (∀ event ∈ [message, message], event.reopens 0 = false) ∧
      (x.run [message, message]).2.Agrees 0 8 := by
  intro before message x
  have hkept : ∀ event ∈ [message, message], event.reopens 0 = false := by decide
  exact ⟨hkept, ((tryNext_agrees_iff before [message, message] 0 hkept).1 8 rfl rfl).mpr rfl⟩

/-- A cursor has handed out the first of two messages. The step that waits hands out
the second one, and the step that does not wait a message of the next batch. -/
theorem tryNext_overtakes :
    let before : List (Event ℕ ℕ) := [.deliver 1 1, .deliver 1 2, .deliver 2 3]
    let message : Event ℕ ℕ := .move 0 none (.next 0 9 true)
    let x := (run empty (before ++ [.move 0 none (.openCursor 0)])).2
    let y := (x.run [message]).2
    (y.next 0 8 false).1 = .keyed 1 [2] ∧ (y.tryNext 0).1 = .keyed 2 [3] ∧
      x.drawn 0 [message, .move 0 none (.tryNext 0), message] = [(1, [1, 2]), (2, [3])] ∧
      x.yielded 0 [message, .move 0 none (.tryNext 0), message] = [1, 3, 2] :=
  ⟨rfl, rfl, rfl, rfl⟩

end Exchange

end FramedDuplex
