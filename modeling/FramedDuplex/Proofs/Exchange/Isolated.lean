import FramedDuplex.Proofs.Exchange.Owners
import FramedDuplex.Key
import FramedDuplex.Converter.Standard
/-!
# Keys do not meet

All keys share one table: one list of what is ready, one of who waits, one
count of tickets and one of batches, and one connection. Still, what is done on a
key comes to the same whatever is done on other keys (`Exchange.keys_isolated`).

Two runs are compared, one with the events on other keys and one without. What
the first has of the key is what the second has, but for the numbers of callers
and batches (`Exchange.Mirrors`). An event on the key keeps it so, since it does to
what belongs to the key what it does to the whole; one on another key does, since
it leaves what belongs to the key as it is.
-/

namespace FramedDuplex

namespace Exchange

variable {κ α : Type} [DecidableEq κ]

/-! ## Events on a key -/

/-- The key that an event is on. The end of the connection is on none. -/
def Event.key? (keyOf : ℕ → κ) : Event κ α → Option κ
  | deliver key _ => some key
  | fail _ | take => none
  | move _ _ m => m.key? keyOf

/-- Whether an event is on a key. -/
def Event.isOn (keyOf : ℕ → κ) (key : κ) (event : Event κ α) : Bool :=
  event.key? keyOf = some key

/-- An event keeps to what numbers are used for. Callers choose the numbers: they
name each call and each batch on a key by a number that is used for the key. -/
def Event.Named (keyOf : ℕ → κ) : Event κ α → Prop
  | deliver .. | fail _ => True
  | take => False
  | move _ _ m => m.Named keyOf

variable {keyOf : ℕ → κ} {key j : κ} {o : Owners κ} {x y : Exchange κ α} {event : Event κ α}

namespace OwnedBy

theorem deliver (h : x.OwnedBy o) (hnew : o.Gives x.table j) (item : α) :
    (x.deliver j item).OwnedBy o := by
  have turns := turns_deliver (by simp : (o.on j).key j) x item
  refine h.of_recalls (h.table.turns hnew.serial turns) turns.numbers_le.1 (j := j) (.same ?_)
  rw [Exchange.deliver, settleTable_of_receives h.receives]

omit [DecidableEq κ] in
theorem fail (h : x.OwnedBy o) (reason : BrokenReason) : (x.fail reason).2.OwnedBy o := by
  have woken := settleTable_of_receives h.receives ((x.table.fail reason).2, true)
  simp only [settleTable, if_true] at woken
  simp only [Exchange.fail, woken]
  exact ⟨h.table.fail reason, h.calls⟩

/-- **An event on a key leaves everything with its owner.** -/
theorem step (h : x.OwnedBy o) (hnew : o.Gives x.table j) (hnamed : event.Named o.number)
    (hkey : event.key? o.number = some j) : (x.step event).2.OwnedBy o := by
  cases event with
  | deliver key item =>
    obtain rfl : key = j := by simpa [Event.key?] using hkey
    exact h.deliver hnew item
  | move now deadline m => exact h.act hnew hnamed hkey now deadline
  | fail | take => simp [Event.key?] at hkey

/-- **An event on a key does to what belongs to the key what it does to the
whole.** -/
theorem step_part (h : x.OwnedBy o) (hnew : o.Gives x.table j) (hnamed : event.Named o.number)
    (hkey : event.key? o.number = some j) :
    (x.part (o.on j)).step event = (x.step event).map id (·.part (o.on j)) := by
  cases event with
  | deliver key item =>
    obtain rfl : key = j := by simpa [Event.key?] using hkey
    refine congrArg (Prod.mk _) (deliver_part (by simp) (fun _ i hi => ?_) item)
    simpa using h.table.ticket_of_waitingOn hi
  | move now deadline m =>
    exact act_part (fun i hi => by simpa using hnew.ticket i hi) (h.minds hnamed hkey) now deadline
  | fail | take => simp [Event.key?] at hkey

/-- **An event on another key leaves it as it is.** -/
theorem aside_step (h : x.OwnedBy o) (hnew : o.Gives x.table j) (hnamed : event.Named o.number)
    (hkey : event.key? o.number = some j) (hne : j ≠ key) :
    x.Aside (o.on key) (x.step event).2 := by
  cases event with
  | deliver k item =>
    obtain rfl : k = j := by simpa [Event.key?] using hkey
    have hstep : (x.step (.deliver k item)).2 =
        { x with table := (x.table.deliver k [item]).1 } := settleTable_of_receives h.receives _
    have turns := turns_deliver (by simp : (o.on k).key k) x item
    rw [Exchange.deliver, table_settleTable] at turns
    rw [hstep]
    exact ⟨h.table.aside_turns hnew.serial hne turns, rfl, ⟨rfl, rfl⟩⟩
  | move now deadline m => exact h.aside hnew hnamed hkey hne now deadline
  | fail | take => simp [Event.key?] at hkey

end OwnedBy

/-! ## Two runs -/

/-- What `x` has of a key is what `y` has of it, but for the numbers of callers
and batches. -/
def Mirrors (keyOf : ℕ → κ) (key : κ) (x y : Exchange κ α) : Prop :=
  ∃ o p : Owners κ, ∃ r : Numbering, o.number = keyOf ∧ p.number = keyOf ∧
    x.OwnedBy o ∧ y.OwnedBy p ∧ r.Continues y.table ∧ x.part (o.on key) = y.renumber r

namespace Mirrors

omit [DecidableEq κ] in
theorem next {P : Part κ} {r : Numbering} (h : x.part P = y.renumber r) :
    r.ticket y.table.nextTicket = x.table.nextTicket ∧
      r.serial y.table.nextSerial = x.table.nextSerial :=
  ⟨congrArg (·.table.nextTicket) h.symm, congrArg (·.table.nextSerial) h.symm⟩

/-- **An event on the key** answers the same in both runs. -/
theorem on (h : Mirrors keyOf key x y) (hnamed : event.Named keyOf)
    (hkey : event.key? keyOf = some key) :
    (x.step event).1 = (y.step event).1 ∧
      Mirrors keyOf key (x.step event).2 (y.step event).2 := by
  obtain ⟨o, p, r, rfl, hp, hx, hy, hr, hpart⟩ := h
  have told := (hx.since key).step_part (o.gives_since x.table key) hnamed hkey
  rw [hx.part_since, hpart, step_renumber hr] at told
  obtain ⟨hanswer, hafter⟩ := Prod.ext_iff.mp told
  refine ⟨hanswer.symm, o.since x.table key, p.since y.table key, r, rfl, hp,
    (hx.since key).step (o.gives_since ..) hnamed hkey, ?_, hr.step event, hafter.symm⟩
  exact (hy.since key).step (p.gives_since ..) (hp ▸ hnamed) (hp ▸ hkey)

/-- **An event on another key** changes nothing between them. -/
theorem off (h : Mirrors keyOf key x y) (hnamed : event.Named keyOf)
    (hkey : event.key? keyOf = some j) (hne : j ≠ key) : Mirrors keyOf key (x.step event).2 y := by
  obtain ⟨o, p, r, rfl, hp, hx, hy, hr, hpart⟩ := h
  have howned := (hx.since j).step (o.gives_since ..) hnamed hkey
  have aside := ((hx.since j).aside_step (o.gives_since ..) hnamed hkey hne).part
  obtain ⟨hticket, hserial⟩ := next hpart
  -- the other key took the next numbers, so the renumbering goes on behind them
  obtain ⟨hticket', hserial'⟩ : x.table.nextTicket ≤ (x.step event).2.table.nextTicket ∧
      x.table.nextSerial ≤ (x.step event).2.table.nextSerial := by
    rcases x.turns_step event with hturns | ⟨reason, he⟩
    · exact hturns.numbers_le
    · rw [he]
      exact ⟨Nat.le_refl _, Nat.le_refl _⟩
  refine ⟨o.since x.table j, p, r.resume y.table (x.step event).2.table.nextTicket
    (x.step event).2.table.nextSerial, rfl, hp, howned, hy, hr.resume .., ?_⟩
  rw [renumber_resume hy.numbered (hticket.trans_le hticket') (hserial.trans_le hserial'), aside,
    hx.part_since, hpart]

/-- **The end of the connection** comes to both. -/
theorem fail (h : Mirrors keyOf key x y) (reason : BrokenReason) :
    Mirrors keyOf key (x.fail reason).2 (y.fail reason).2 := by
  obtain ⟨o, p, r, ho, hp, hx, hy, hr, hpart⟩ := h
  refine ⟨o, p, r, ho, hp, hx.fail reason, hy.fail reason, hr.step (.fail reason), ?_⟩
  rw [fail_part, hpart, renumber, fail_relabel]
  rfl

end Mirrors

/-- The events without those on other keys. -/
def onlyOn (keyOf : ℕ → κ) (key : κ) (events : List (Event κ α)) : List (Event κ α) :=
  events.filter fun event => (event.key? keyOf).all (· = key)

/-- What two exchanges have of a key is the same. -/
structure SameOn (key : κ) (x y : Exchange κ α) : Prop where
  /-- The same lies ready under it. -/
  ready : x.table.readyAt? key = y.table.readyAt? key
  /-- As many callers wait on it. -/
  waiting : (x.table.waitingOn key).length = (y.table.waitingOn key).length
  /-- The connection is broken or not, and for the same reason. -/
  broken : x.table.broken = y.table.broken

theorem Mirrors.sameOn (h : Mirrors keyOf key x y) : SameOn key x y := by
  obtain ⟨o, p, r, -, -, hx, hy, -, hpart⟩ := h
  have table : x.table.part (o.on key) = y.table.relabel r id := congrArg (·.table) hpart
  refine ⟨?_, ?_, congrArg (·.broken) table⟩
  · have ready := congrArg (·.readyAt? key) table
    simpa [Table.readyAt?_part, Table.readyAt?_relabel] using ready
  · have waiting := congrArg (fun t => (t.waitingOn key).length) table
    have all : (x.table.waitingOn key).filter (o.on key).ticket = x.table.waitingOn key :=
      List.filter_eq_self.mpr fun i hi => by simpa using hx.table.ticket_of_waitingOn hi
    simpa [Table.waitingOn_part, Table.waitingOn_relabel, all] using waiting

omit [DecidableEq κ] in
/-- Nothing but the end of the connection is on no key. -/
theorem Event.Named.eq_fail (h : event.Named keyOf) (hkey : event.key? keyOf = none) :
    ∃ reason, event = .fail reason := by
  cases event with
  | fail reason => exact ⟨reason, rfl⟩
  | deliver key item => simp [Event.key?] at hkey
  | take => exact h.elim
  | move now deadline m =>
    cases m <;> first | exact h.elim | simp [Event.key?, Move.key?] at hkey

/-- **Two runs stay alike**, one with the events on other keys and one without. -/
theorem Mirrors.run (h : Mirrors keyOf key x y) (events : List (Event κ α))
    (hnamed : ∀ event ∈ events, event.Named keyOf) :
    x.answersTo (·.isOn keyOf key) events =
        y.answersTo (·.isOn keyOf key) (onlyOn keyOf key events) ∧
      Mirrors keyOf key (x.run events).2 (y.run (onlyOn keyOf key events)).2 := by
  induction events generalizing x y with
  | nil => exact ⟨rfl, h⟩
  | cons event rest ih =>
    have hfirst := hnamed event List.mem_cons_self
    have hrest := fun e he => hnamed e (List.mem_cons_of_mem _ he)
    rw [answersTo_cons]
    rcases hkey : event.key? keyOf with - | j
    · have hoff : event.isOn keyOf key = false := by simp [Event.isOn, hkey]
      have hkept : onlyOn keyOf key (event :: rest) = event :: onlyOn keyOf key rest :=
        List.filter_cons_of_pos (by simp [hkey])
      obtain ⟨reason, rfl⟩ := hfirst.eq_fail hkey
      obtain ⟨hanswers, hafter⟩ := ih (h.fail reason) hrest
      rw [hkept, answersTo_cons, hoff]
      exact ⟨hanswers, hafter⟩
    · by_cases hj : j = key
      · subst hj
        have hon : event.isOn keyOf j = true := by simp [Event.isOn, hkey]
        have hkept : onlyOn keyOf j (event :: rest) = event :: onlyOn keyOf j rest :=
          List.filter_cons_of_pos (by simp [hkey])
        obtain ⟨hanswer, hmirrors⟩ := h.on hfirst hkey
        obtain ⟨hanswers, hafter⟩ := ih hmirrors hrest
        rw [hkept, answersTo_cons, hon, hanswer, if_pos rfl, if_pos rfl, hanswers]
        exact ⟨rfl, hafter⟩
      · have hoff : event.isOn keyOf key = false := by simp [Event.isOn, hkey, hj]
        have hdropped : onlyOn keyOf key (event :: rest) = onlyOn keyOf key rest :=
          List.filter_cons_of_neg (by simp [hkey, hj])
        obtain ⟨hanswers, hafter⟩ := ih (h.off hfirst hkey hj) hrest
        rw [hdropped, hoff]
        exact ⟨hanswers, hafter⟩

/-- An exchange where nothing happened yet mirrors itself. -/
theorem mirrors_empty (keyOf : ℕ → κ) (key : κ) :
    Mirrors keyOf key (empty : Exchange κ α) (empty : Exchange κ α) := by
  refine ⟨⟨fun _ => key, fun _ => key, keyOf⟩, ⟨fun _ => key, fun _ => key, keyOf⟩, .id, rfl, rfl,
    .empty _, .empty _, Numbering.continues_id _, ?_⟩
  rfl

/-- **What is done on a key comes to the same without what is done on others**:
each event on the key is answered the same, and the key is left the same. -/
structure Isolated (keyOf : ℕ → κ) (key : κ) (events : List (Event κ α)) : Prop where
  answers : empty.answersTo (·.isOn keyOf key) events =
    empty.answersTo (·.isOn keyOf key) (onlyOn keyOf key events)
  after : SameOn key (run empty events).2 (run empty (onlyOn keyOf key events)).2

theorem isolated_of_named (key : κ) {events : List (Event κ α)}
    (h : ∀ event ∈ events, event.Named keyOf) : Isolated keyOf key events := by
  obtain ⟨hanswers, hafter⟩ := (mirrors_empty keyOf key).run events h
  exact ⟨hanswers, hafter.sameOn⟩

variable [OwnTypes] in
/-- **Keys do not meet.** In a run of arrivals, of calls under keys, of what is done
with them and with the batches that they bring, and of ends of the connection, each
event on a key is answered as in the run without the events on other keys, and
the key is left the same. And keys are the same only if both the types and the
values are. -/
theorem keys_isolated (keyOf : ℕ → Key) (key : Key) (events : List (Event Key α))
    (h : ∀ event ∈ events, event.Named keyOf) :
    Isolated keyOf key events ∧
      ∀ a b : Key, a = b ↔ (a = .unassigned ∧ b = .unassigned) ∨
        ∃ (type : ValueType) (v w : type.Carrier),
          a = .of ⟨type, v⟩ ∧ b = .of ⟨type, w⟩ ∧ v = w := by
  refine ⟨isolated_of_named key h, fun a b => ⟨?_, ?_⟩⟩
  · rintro rfl
    cases a with
    | unassigned => exact .inl ⟨rfl, rfl⟩
    | of value => exact .inr ⟨value.type, value.data, value.data, rfl, rfl, rfl⟩
  · rintro (⟨rfl, rfl⟩ | ⟨type, v, _, rfl, rfl, rfl⟩) <;> rfl

/-- Two callers on two keys are answered; one of them goes and puts its answer
back, which the next caller on its key takes. -/
def twoKeys : List (Event Key ℕ) :=
  let yes : Key := .of ⟨.scalar .bool, true⟩
  [.move 0 none (.receive 0 yes none), .move 0 none (.receive 1 .unassigned none),
    .deliver yes 5, .deliver .unassigned 7, .move 0 none (.drop 0), .move 0 none (.poll 1),
    .move 0 none (.receive 2 yes none)]

/-- The numbers in it are used for one key each. -/
def twoKeysOf (n : ℕ) : Key :=
  if n = 1 then .unassigned else .of ⟨.scalar .bool, true⟩

theorem isolated_twoKeys :
    (∀ event ∈ twoKeys, event.Named twoKeysOf) ∧ Isolated twoKeysOf .unassigned twoKeys :=
  have named : ∀ event ∈ twoKeys, event.Named twoKeysOf := by
    simp [twoKeys, Event.Named, Move.Named, twoKeysOf]
  ⟨named, (keys_isolated twoKeysOf .unassigned twoKeys named).1⟩

example : empty.answersTo (·.isOn twoKeysOf (twoKeysOf 0)) twoKeys =
    [.pending, .nothing, .flag true, .batch [5]] := by
  rfl

end Exchange

end FramedDuplex
