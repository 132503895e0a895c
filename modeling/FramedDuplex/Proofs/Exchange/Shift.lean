import FramedDuplex.Exchange.Run
import FramedDuplex.Proofs.Handles
import Mathlib.Logic.Relation
/-!
# Shifts of the calls and cursors

Whatever happens changes the calls and the cursors around the table in one of a
few ways, one after the other (`Exchange.Shift`), as it changes the table in
turns. What each of them keeps is kept by every event (`Exchange.shifts_step`).

Two things are said of a shift: which cursors it may be on, by their serial
numbers, and which numbers it may give to a cursor or take from one. Where it may
be on none and give none, no cursor changes (`Exchange.Shifts.sameCursors`).
-/

namespace FramedDuplex

namespace Exchange

variable {κ α : Type} {on names : ℕ → Prop} {x y : Exchange κ α} {handle serial : ℕ}

/-- The call of a number is on the cursor with a serial number. -/
def Sits (x : Exchange κ α) (handle serial : ℕ) : Prop :=
  ∃ single woken, x.calls.find? handle = some (.next serial single woken)

/-- The exchange `y` is what one change to calls or cursors makes of `x`. -/
inductive Shift (on names : ℕ → Prop) : Exchange κ α → Exchange κ α → Prop where
  | table (x : Exchange κ α) (table : Table κ α) : Shift on names x { x with table }
  /-- A call comes to an end. -/
  | finish (x : Exchange κ α) (handle : ℕ) :
      Shift on names x { x with calls := x.calls.erase handle }
  /-- A call waits for a key. -/
  | await (x : Exchange κ α) (handle : ℕ) (key : κ) (ticket : ℕ) (fired : Option Bool)
      (deadline : Option ℕ) : Shift on names x
        { x with calls := x.calls.insert handle (.receive key ticket fired deadline) }
  /-- A call sleeps on a cursor. -/
  | sleep (x : Exchange κ α) (handle : ℕ) {serial : ℕ} (single : Bool) : on serial →
      Shift on names x { x with calls := x.calls.insert handle (.next serial single false) }
  | wake (x : Exchange κ α) : Shift on names x x.wake
  | leaveOver (x : Exchange κ α) {serial : ℕ} (rest : Option (κ × List α)) : on serial →
      Shift on names x (x.leaveOver serial rest)
  | openCursor (x : Exchange κ α) {cursor : ℕ} : names cursor →
      Shift on names x (x.openCursor cursor)
  | closeCursor (x : Exchange κ α) {cursor : ℕ} : names cursor →
      Shift on names x { x with cursors := x.cursors.erase cursor }

/-- One exchange comes of another by shifts. -/
abbrev Shifts (on names : ℕ → Prop) : Exchange κ α → Exchange κ α → Prop :=
  Relation.ReflTransGen (Shift on names)

theorem Shift.shifts (h : x.Shift on names y) : x.Shifts on names y := .single h

/-! ## Events are shifts -/

theorem shifts_settleTable (x : Exchange κ α) (e : Table κ α × Bool) :
    x.Shifts on names (x.settleTable e) := by
  obtain ⟨table, became⟩ := e
  cases became with
  | false => exact (Shift.table x table).shifts
  | true => exact (Shift.table x table).shifts.tail (.wake _)

theorem shifts_take (x : Exchange κ α) : x.Shifts on names x.take.2 :=
  (Shift.table x _).shifts

theorem shifts_advance (hon : on serial) (x : Exchange κ α) (handle : ℕ) (single : Bool) :
    x.Shifts on names (x.advance serial handle single).2 := by
  have taken : x.Shifts on names x.take.2 := shifts_take x
  unfold advance
  split
  · next y heq =>
    rw [heq] at taken
    split
    · exact (taken.tail (.finish y handle)).tail (.leaveOver _ _ hon)
    · exact (taken.tail (.table y _)).tail (.finish _ handle)
  · next y heq =>
    rw [heq] at taken
    exact (taken.tail (.table y _)).tail (.finish _ handle)
  · split
    · exact (Shift.finish x handle).shifts
    · exact (Shift.sleep x handle single hon).shifts

theorem shifts_seekNext {c : Cursor κ α} (hon : on c.serial) (x : Exchange κ α) (handle : ℕ)
    (single : Bool) : x.Shifts on names (x.seekNext c handle single).2 := by
  unfold seekNext
  split
  · split
    · exact (Shift.leaveOver x _ hon).shifts
    · exact (Shift.leaveOver x none hon).shifts.tail (.table _ _)
  · exact (Shift.leaveOver x none hon).shifts.trans (shifts_advance hon _ handle single)

variable [DecidableEq κ]

theorem shifts_quit (x : Exchange κ α) (handle : ℕ) (key : κ) (ticket : ℕ) :
    x.Shifts on names (x.quit handle key ticket) :=
  (Shift.finish x handle).shifts.trans (shifts_settleTable _ _)

theorem shifts_vacate (x : Exchange κ α) (handle : ℕ) : x.Shifts on names (x.vacate handle) := by
  unfold vacate
  split
  · exact shifts_quit ..
  · exact (Shift.finish x handle).shifts
  · exact .refl

theorem shifts_seek (x : Exchange κ α) (handle : ℕ) (key : κ) (fired : Option Bool)
    (deadline : Option ℕ) (now : ℕ) :
    x.Shifts on names (x.seek handle key fired deadline now).2 := by
  unfold seek
  split
  · exact .refl
  · split
    · exact (Shift.table x _).shifts
    · exact .refl
    · split
      · exact .refl
      · exact (Shift.table x _).shifts.tail (.await _ handle key _ fired deadline)

theorem shifts_pollReceive (x : Exchange κ α) (handle : ℕ) (key : κ) (ticket : ℕ)
    (fired : Option Bool) (deadline : Option ℕ) (now : ℕ) :
    x.Shifts on names (x.pollReceive handle key ticket fired deadline now).2 := by
  unfold pollReceive
  split
  · exact shifts_quit ..
  · split
    · exact (Shift.table x _).shifts.tail (.finish _ handle)
    · exact shifts_quit ..
    · split
      · exact shifts_quit ..
      · exact .refl

/-- A move is on no other cursors than some, and gives or takes no other numbers of
cursors than some. -/
def Confined (on names : ℕ → Prop) (x : Exchange κ α) : Move κ → Prop
  | .poll handle => ∀ serial, x.Sits handle serial → on serial
  | .next cursor _ _ => ∀ c, x.cursors.find? cursor = some c → on c.serial
  | .openCursor cursor | .closeCursor cursor => names cursor
  | .receive .. | .cancel _ | .drop _ | .tryNext _ | .view _ | .clone .. | .unwrap .. => True

theorem shifts_act {move : Move κ} (h : x.Confined on names move) (now : ℕ)
    (deadline : Option ℕ) : x.Shifts on names (x.act now deadline move).2 := by
  cases move with
  | receive handle key fired =>
    exact (shifts_vacate x handle).trans (shifts_seek _ handle key fired deadline now)
  | poll handle =>
    simp only [act, poll]
    split
    · exact .refl
    · exact shifts_pollReceive ..
    · next serial single woken hfind =>
      split
      · exact shifts_advance (h serial ⟨single, woken, hfind⟩) x handle single
      · exact .refl
  | cancel handle =>
    simp only [act, cancel]
    split
    · exact (Shift.await x handle ..).shifts
    · exact .refl
  | drop handle =>
    simp only [act, drop]
    split
    · exact shifts_vacate x handle
    · exact (Shift.table x _).shifts
  | openCursor cursor => exact (Shift.openCursor x h).shifts
  | closeCursor cursor => exact (Shift.closeCursor x h).shifts
  | next cursor handle single =>
    simp only [act, next]
    split
    · exact .refl
    · next c hfind =>
      split
      · exact .refl
      · exact (shifts_vacate x handle).trans (shifts_seekNext (h c hfind) _ handle single)
  | tryNext cursor =>
    rw [act]
    rcases x.tryNext_snd cursor with heq | heq
    · rw [heq]
    · exact heq ▸ shifts_take x
  | view handle => exact .refl
  | clone handle copy =>
    simp only [act, clone]
    split
    · exact .refl
    · exact (Shift.table x _).shifts
  | unwrap handle copies =>
    simp only [act, unwrap]
    split
    · exact .refl
    · split
      · exact (Shift.table x _).shifts
      · exact .refl

/-- **Every event shifts the calls and cursors**, and only those that its move is
confined to. -/
theorem shifts_step {event : Event κ α}
    (h : ∀ now deadline move, event = .move now deadline move → x.Confined on names move) :
    x.Shifts on names (x.step event).2 := by
  cases event with
  | deliver key item => exact shifts_settleTable ..
  | fail reason => exact (Shift.table x _).shifts.tail (.wake _)
  | move now deadline move => exact shifts_act (h now deadline move rfl) now deadline
  | take => exact x.step_take_snd ▸ shifts_take x

/-! ## What shifts keep -/

omit [DecidableEq κ] in
/-- A number that names one call at most goes on to do so. -/
theorem Shift.distinct (h : x.Shift on names y) (hd : x.calls.Distinct) : y.calls.Distinct := by
  cases h with
  | table | leaveOver | openCursor | closeCursor => exact hd
  | finish handle => exact hd.erase handle
  | await handle | sleep handle => exact hd.insert handle _
  | wake => simpa [Exchange.wake, Handles.map, Handles.Distinct, Function.comp_def] using hd

omit [DecidableEq κ] in
theorem Shifts.distinct (h : x.Shifts on names y) (hd : x.calls.Distinct) : y.calls.Distinct := by
  induction h with
  | refl => exact hd
  | tail _ shift ih => exact shift.distinct ih

omit [DecidableEq κ] in
/-- A call does not sit down on a cursor that a shift is not on. -/
theorem Shift.sits (h : x.Shift on names y) (hon : ¬ on serial) (hsits : y.Sits handle serial) :
    x.Sits handle serial := by
  obtain ⟨single, woken, hfind⟩ := hsits
  cases h with
  | table | leaveOver | openCursor | closeCursor => exact ⟨single, woken, hfind⟩
  | finish n =>
    rw [Handles.find?_erase] at hfind
    split at hfind
    · simp at hfind
    · exact ⟨single, woken, hfind⟩
  | await n =>
    rw [Handles.find?_insert] at hfind
    split at hfind
    · simp at hfind
    · exact ⟨single, woken, hfind⟩
  | @sleep n other s hother =>
    rw [Handles.find?_insert] at hfind
    split at hfind
    · obtain ⟨rfl, -⟩ : other = serial ∧ _ := by simpa using hfind
      exact absurd hother hon
    · exact ⟨single, woken, hfind⟩
  | wake =>
    simp only [Exchange.wake, Handles.find?_map, Option.map_eq_some_iff] at hfind
    obtain ⟨call, hcall, heq⟩ := hfind
    cases call with
    | receive => simp at heq
    | next other s w =>
      obtain ⟨rfl, -⟩ : other = serial ∧ _ := by simpa using heq
      exact ⟨s, w, hcall⟩

omit [DecidableEq κ] in
theorem Shifts.sits (h : x.Shifts on names y) (hon : ¬ on serial) (hsits : y.Sits handle serial) :
    x.Sits handle serial := by
  induction h with
  | refl => exact hsits
  | tail _ shift ih => exact ih (shift.sits hon hsits)

omit [DecidableEq κ] in
/-- No serial number of a cursor is taken back. -/
theorem Shift.nextCursor_le (h : x.Shift on names y) : x.nextCursor ≤ y.nextCursor := by
  cases h with
  | openCursor => exact Nat.le_succ _
  | table | finish | await | sleep | wake | leaveOver | closeCursor => exact Nat.le_refl _

/-- No cursor was opened, closed or moved. -/
structure SameCursors (x y : Exchange κ α) : Prop where
  cursors : y.cursors = x.cursors
  nextCursor : y.nextCursor = x.nextCursor

omit [DecidableEq κ] in
/-- **What is on no cursor moves none.** -/
theorem Shifts.sameCursors (h : x.Shifts (fun _ => False) (fun _ => False) y) :
    x.SameCursors y := by
  induction h with
  | refl => exact ⟨rfl, rfl⟩
  | tail _ shift ih =>
    cases shift with
    | table | finish | await | wake => exact ⟨ih.cursors, ih.nextCursor⟩
    | sleep _ _ hon | leaveOver _ hon => exact hon.elim
    | openCursor hnames | closeCursor hnames => exact hnames.elim

end Exchange

end FramedDuplex
