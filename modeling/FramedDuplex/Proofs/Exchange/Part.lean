import FramedDuplex.Proofs.Exchange.Turn
/-!
# A part of an exchange

What an exchange has of a part is an exchange again (`Exchange.part`). A move
that minds the part does to it what it does to the whole, and tells the same
(`Exchange.act_part`): each operation has a lemma that says so.
-/

namespace FramedDuplex

variable {κ α : Type} {P : Part κ}

namespace Table

/-- What a table has of a part. -/
def part (P : Part κ) (t : Table κ α) : Table κ α :=
  { t with
    ready := t.ready.filter (P.key ·.1)
    waiting := t.waiting.filter (P.ticket ·.2)
    resolved := t.resolved.only P.ticket
    held := t.held.only P.held }

variable {t u v : Table κ α} {ticket handle serial : ℕ} {key : κ} {items : List α}

/-- Then the part counts them all. -/
theorem shares_part (h : t.Whole P serial) : (t.part P).shares serial = t.shares serial := by
  have resolved : ((t.part P).resolved.things.filterMap (·.batch?)).countP (·.serial = serial) =
      (t.resolved.things.filterMap (·.batch?)).countP (·.serial = serial) := by
    simp only [part, Handles.things, Handles.only, List.countP_filterMap, List.countP_map,
      List.countP_filter]
    refine List.countP_congr fun e he => ?_
    cases hbatch : e.2.batch? with
    | none => simp [hbatch]
    | some batch => simpa [hbatch] using h.resolved e he batch hbatch
  have held : (t.part P).held.things.countP (·.serial = serial) =
      t.held.things.countP (·.serial = serial) := by
    simp only [part, Handles.things, Handles.only, List.countP_map, List.countP_filter]
    refine List.countP_congr fun e he => ?_
    simpa using h.held e he
  rw [shares, resolved, held, shares]

theorem forget_part (t : Table κ α) (ticket : ℕ) :
    (t.forget ticket).part P = (t.part P).forget ticket := by
  simp only [forget, part, Handles.only_erase, List.filter_filter, Bool.and_comm]

theorem holdNew_part (hhandle : P.held handle) (t : Table κ α) (items : List α) :
    (t.holdNew handle items).part P = (t.part P).holdNew handle items := by
  simp only [holdNew, part, Handles.only_insert, if_pos hhandle]

theorem collect_part (hhandle : P.held handle) (t : Table κ α) (ticket : ℕ) (batch : Batch α) :
    (t.collect ticket handle batch).part P = (t.part P).collect ticket handle batch := by
  simp only [collect, part, Handles.only_insert, if_pos hhandle, Handles.only_erase]

theorem enter_part (hnext : P.ticket t.nextTicket) (key : κ) :
    (t.part P).enter key = (t.enter key).map id (·.part P) := by
  simp [enter, part, Prod.map, hnext]

theorem takeNext_part (hkeys : ∀ key, P.key key) (t : Table κ α) :
    (t.part P).takeNext = t.takeNext.map id (·.part P) := by
  obtain ⟨ready, _⟩ := t
  cases ready with
  | nil => rfl
  | cons e rest => simp [takeNext, part, hkeys]

/-- The connection ends for all who wait, in the part as in the whole. -/
theorem fail_part (t : Table κ α) (reason : BrokenReason) :
    (t.fail reason).2.part P = ((t.part P).fail reason).2 := by
  have told := Handles.only_foldl_insert (p := P.ticket) (t.waiting.map (·.2))
    (.broken reason) t.resolved
  rw [List.filter_map, List.foldl_map, List.foldl_map] at told
  simp only [fail, part, told]
  rfl

variable [DecidableEq κ]

theorem readyAt?_part (hkey : P.key key) (t : Table κ α) :
    (t.part P).readyAt? key = t.readyAt? key := by
  simp only [readyAt?, part, List.find?_filter]
  congr 2
  funext e
  by_cases he : e.1 = key
  · simp [he, hkey]
  · simp [he]

theorem waitingOn_part (t : Table κ α) (key : κ) :
    (t.part P).waitingOn key = (t.waitingOn key).filter P.ticket := by
  simp only [waitingOn, part, List.filter_map, List.filter_filter, Bool.and_comm]
  rfl

theorem takeReady_part (t : Table κ α) (key : κ) :
    (t.takeReady key).part P = (t.part P).takeReady key := by
  simp only [takeReady, part, List.filter_filter, Bool.and_comm]

theorem changeReady_part (t : Table κ α) (key : κ) (f : List α → List α) :
    (t.changeReady key f).part P = (t.part P).changeReady key f := by
  simp only [changeReady, part, List.filter_map]
  rfl

theorem resolve_part (h : ∀ ticket ∈ t.waitingOn key, P.ticket ticket) (items : List α) :
    (t.resolve key items).part P = (t.part P).resolve key items := by
  have all : (t.waitingOn key).filter P.ticket = t.waitingOn key := List.filter_eq_self.mpr h
  have told := Handles.only_foldl_insert (p := P.ticket) (t.waitingOn key)
    (.batch ⟨t.nextSerial, items⟩) t.resolved
  rw [all] at told
  simp only [resolve, waitingOn_part, all]
  simp only [part, told, List.filter_filter, Bool.and_comm]

theorem deliver_part (hkey : P.key key) (h : t.Reaches P key) (items : List α) :
    (t.part P).deliver key items = (t.deliver key items).map (·.part P) id := by
  unfold deliver
  rw [readyAt?_part hkey]
  by_cases hready : (t.readyAt? key).isSome
  · rw [if_pos hready, if_pos hready, ← changeReady_part]
    rfl
  · have reaches := h (by simpa using hready)
    rw [if_neg hready, if_neg hready, waitingOn_part, List.filter_eq_self.mpr reaches]
    cases (t.waitingOn key).isEmpty with
    | true => simp [part, hkey]
    | false => simp [resolve_part reaches]

theorem restore_part (hkey : P.key key) (h : t.Reaches P key) (items : List α) :
    (t.part P).restore key items = (t.restore key items).map (·.part P) id := by
  unfold restore
  rw [readyAt?_part hkey, deliver_part hkey h]
  split
  · rw [← changeReady_part]
    rfl
  · rfl

theorem leave_part (h : t.Keeps P key ticket) :
    (t.part P).leave key ticket = (t.leave key ticket).map (·.part P) id := by
  have told : (t.part P).resolved.find? ticket = t.resolved.find? ticket := by
    rw [part, Handles.find?_only, if_pos h.caller]
  rw [leave_eq, leave_eq, told, ← forget_part]
  cases hsent : (t.resolved.find? ticket).bind (·.batch?) with
  | none => rfl
  | some batch =>
    have sent := bind_batch?_eq_some.mp hsent
    simp only [shares_part ((h.whole batch sent).forget ticket)]
    by_cases hshares : (t.forget ticket).shares batch.serial = 0
    · rw [if_pos hshares, if_pos hshares]
      exact restore_part h.inside (h.reaches batch sent hshares) batch.items
    · rw [if_neg hshares, if_neg hshares]
      rfl

end Table

namespace Exchange

/-- What an exchange has of a part. All cursors are in it. -/
def part (P : Part κ) (x : Exchange κ α) : Exchange κ α :=
  { x with table := x.table.part P, calls := x.calls.only P.call }

variable {x : Exchange κ α} {handle : ℕ} {key : κ}

theorem wake_part (x : Exchange κ α) : x.wake.part P = (x.part P).wake := by
  simp only [part, wake, Handles.only_map]

theorem settleTable_part (x : Exchange κ α) (e : Table κ α × Bool) :
    (x.part P).settleTable (e.map (·.part P) id) = (x.settleTable e).part P := by
  obtain ⟨table, became⟩ := e
  cases became with
  | true => exact (wake_part { x with table }).symm
  | false => rfl

theorem find?_calls_part (hcall : P.call handle) (x : Exchange κ α) :
    (x.part P).calls.find? handle = x.calls.find? handle := by
  rw [part, Handles.find?_only, if_pos hcall]

theorem fail_part (x : Exchange κ α) (reason : BrokenReason) :
    (x.fail reason).2.part P = ((x.part P).fail reason).2 := by
  have table := x.table.fail_part (P := P) reason
  simp only [fail, wake_part]
  simp only [part, table]

/-- A table and calls can be put in place before or after. -/
theorem place_part (x : Exchange κ α) {t u : Table κ α} {calls other : Handles (Call κ)}
    (ht : u = t.part P) (hcalls : other = calls.only P.call) :
    ({ x.part P with table := u, calls := other } : Exchange κ α) =
      { x with table := t, calls }.part P := by
  subst ht hcalls
  rfl

/-! ## Cursors -/

theorem take_part (hkeys : ∀ key, P.key key) (x : Exchange κ α) :
    (x.part P).take = x.take.map id (·.part P) := by
  have table := x.table.takeNext_part hkeys
  simp only [take, part, table]
  rfl

theorem isBusy_part (h : x.CursorsWithin P) (serial : ℕ) :
    (x.part P).isBusy serial = x.isBusy serial := by
  simp only [isBusy, Handles.any, Handles.things, part, Handles.only, List.any_map, List.any_filter]
  rw [Bool.eq_iff_iff, List.any_eq_true, List.any_eq_true]
  refine exists_congr fun e => and_congr_right fun he => ?_
  cases hcall : e.2 with
  | receive key ticket fired deadline => simp [hcall]
  | next s single woken =>
    have hin := h e he ⟨s, single, woken, hcall⟩
    simp [hin]

theorem advance_part (hkeys : ∀ key, P.key key) (hcall : P.call handle) (hheld : P.held handle)
    (x : Exchange κ α) (serial : ℕ) (single : Bool) :
    (x.part P).advance serial handle single =
      (x.advance serial handle single).map id (·.part P) := by
  have ended := Handles.only_erase (p := P.call) x.calls handle
  unfold advance
  rw [take_part hkeys]
  obtain ⟨entry, y⟩ := x.take
  have ended' := Handles.only_erase (p := P.call) y.calls handle
  match entry with
  | none =>
    have broken : (x.part P).table.broken = x.table.broken := rfl
    have asleep := Handles.only_insert (p := P.call) x.calls handle (.next serial single false)
    rw [if_pos hcall] at asleep
    simp only [Prod.map, id, broken]
    cases x.table.broken with
    | some reason => exact congrArg (Prod.mk _) (x.place_part rfl ended.symm)
    | none => exact congrArg (Prod.mk _) (x.place_part rfl asleep.symm)
  | some (key, []) =>
    exact congrArg (Prod.mk _)
      (y.place_part (Table.holdNew_part hheld y.table []).symm ended'.symm)
  | some (key, item :: rest) =>
    cases single with
    | true =>
      have left := y.place_part (P := P) (t := y.table) rfl ended'.symm
      exact congrArg (fun z => (Answer.message item, z.leaveOver serial (some (key, rest)))) left
    | false =>
      exact congrArg (Prod.mk _)
        (y.place_part (Table.holdNew_part hheld y.table (item :: rest)).symm ended'.symm)

theorem seekNext_part (hkeys : ∀ key, P.key key) (hcall : P.call handle) (hheld : P.held handle)
    (x : Exchange κ α) (c : Cursor κ α) (single : Bool) :
    (x.part P).seekNext c handle single = (x.seekNext c handle single).map id (·.part P) := by
  have onwards := advance_part hkeys hcall hheld (x.leaveOver c.serial none) c.serial single
  obtain ⟨serial, left⟩ := c
  match left with
  | none => exact onwards
  | some (key, []) => exact onwards
  | some (key, item :: rest) =>
    cases single with
    | true => rfl
    | false =>
      exact congrArg (Prod.mk _) ((x.leaveOver serial none).place_part
        (Table.holdNew_part hheld x.table (item :: rest)).symm rfl)

theorem tryNext_part (hkeys : ∀ key, P.key key) (h : x.CursorsWithin P) (cursor : ℕ) :
    (x.part P).tryNext cursor = (x.tryNext cursor).map id (·.part P) := by
  have cursors : (x.part P).cursors = x.cursors := rfl
  unfold tryNext
  rw [cursors]
  cases x.cursors.find? cursor with
  | none => rfl
  | some c =>
    simp only [isBusy_part h, take_part hkeys]
    obtain ⟨entry, y⟩ := x.take
    cases x.isBusy c.serial with
    | true => rfl
    | false => cases entry <;> rfl

/-! ## Batches in a caller's hands -/

/-- Batches can be given to others before or after. -/
theorem regroup_part (x : Exchange κ α) {held other : Handles (Batch α)}
    (h : other = held.only P.held) :
    { x.part P with table := { (x.part P).table with held := other } } =
      { x with table := { x.table with held } }.part P := by
  subst h
  rfl

theorem find?_held_part (hheld : P.held handle) (x : Exchange κ α) :
    (x.part P).table.held.find? handle = x.table.held.find? handle := by
  simp only [part, Table.part, Handles.find?_only, if_pos hheld]

theorem clone_part {copy : ℕ} (hheld : P.held handle) (hcopy : P.held copy) (x : Exchange κ α) :
    (x.part P).clone handle copy = (x.clone handle copy).map id (·.part P) := by
  unfold clone
  rw [find?_held_part hheld]
  cases x.table.held.find? handle with
  | none => rfl
  | some batch =>
    have lent := Handles.only_insert (p := P.held) x.table.held copy batch
    rw [if_pos hcopy] at lent
    exact congrArg (Prod.mk _) (x.regroup_part lent.symm)

theorem unwrap_part (hheld : P.held handle)
    (h : ∀ batch, x.table.held.find? handle = some batch → x.table.Whole P batch.serial)
    (copies : Bool) :
    (x.part P).unwrap handle copies = (x.unwrap handle copies).map id (·.part P) := by
  unfold unwrap
  rw [find?_held_part hheld]
  cases hfind : x.table.held.find? handle with
  | none => rfl
  | some batch =>
    have shares : (x.part P).table.shares batch.serial = x.table.shares batch.serial :=
      Table.shares_part (h batch hfind)
    simp only [shares]
    split
    · exact congrArg (Prod.mk _) (x.regroup_part (Handles.only_erase x.table.held handle).symm)
    · rfl

/-! ## Calls that wait for a key -/

theorem cancel_part (hcall : P.call handle) (x : Exchange κ α) :
    (x.part P).cancel handle = (x.cancel handle).map id (·.part P) := by
  unfold cancel
  rw [find?_calls_part hcall]
  split
  · next key ticket deadline hfind =>
    have fires := Handles.only_insert (p := P.call) x.calls handle
      (.receive key ticket (some true) deadline)
    rw [if_pos hcall] at fires
    exact congrArg (Prod.mk _) (x.place_part rfl fires.symm)
  · rfl

variable [DecidableEq κ]


theorem deliver_part (hkey : P.key key) (h : x.table.Reaches P key) (item : α) :
    (x.part P).deliver key item = (x.deliver key item).part P := by
  have table := Table.deliver_part hkey h [item]
  exact (congrArg _ table).trans (settleTable_part ..)

theorem quit_part {ticket : ℕ} (h : x.table.Keeps P key ticket) (handle : ℕ) :
    (x.part P).quit handle key ticket = (x.quit handle key ticket).part P := by
  have ended := Handles.only_erase (p := P.call) x.calls handle
  have gone := x.place_part (P := P) (t := x.table) rfl ended.symm
  rw [quit, quit, ← settleTable_part { x with calls := x.calls.erase handle }, ← gone]
  exact congrArg _ (Table.leave_part h)

theorem vacate_part (hcall : P.call handle) (h : x.Keeps P handle) :
    (x.part P).vacate handle = (x.vacate handle).part P := by
  unfold vacate
  rw [find?_calls_part hcall]
  cases hfind : x.calls.find? handle with
  | none => rfl
  | some call =>
    cases call with
    | receive key ticket fired deadline =>
      exact quit_part (h key ticket (ticketAt_of_find? hfind)) handle
    | next serial single woken =>
      exact x.place_part rfl (Handles.only_erase x.calls handle).symm

theorem seek_part (hcall : P.call handle) (hheld : P.held handle) (hkey : P.key key)
    (hnext : P.ticket x.table.nextTicket) (fired : Option Bool) (deadline : Option ℕ) (now : ℕ) :
    (x.part P).seek handle key fired deadline now =
      (x.seek handle key fired deadline now).map id (·.part P) := by
  have broken : (x.part P).table.broken = x.table.broken := rfl
  have table : (x.part P).table = x.table.part P := rfl
  unfold seek
  split
  · rfl
  · rw [broken, table, Table.readyAt?_part hkey]
    cases x.table.readyAt? key with
    | some items =>
      have taken := Table.holdNew_part hheld (x.table.takeReady key) items
      rw [Table.takeReady_part] at taken
      exact congrArg (Prod.mk _) (x.place_part taken.symm rfl)
    | none =>
      cases x.table.broken with
      | some reason => rfl
      | none =>
        cases passed now deadline with
        | true => rfl
        | false =>
          have starts := Handles.only_insert (p := P.call) x.calls handle
            (.receive key x.table.nextTicket fired deadline)
          rw [if_pos hcall] at starts
          simp only [Bool.false_eq_true, if_false, Table.enter_part hnext]
          exact congrArg (Prod.mk _) (x.place_part rfl starts.symm)

theorem pollReceive_part (hheld : P.held handle) (hkey : P.key key) {ticket : ℕ}
    (hticket : P.ticket ticket) {fired : Option Bool}
    (h : fired = some true → x.table.Keeps P key ticket) (deadline : Option ℕ) (now : ℕ) :
    (x.part P).pollReceive handle key ticket fired deadline now =
      (x.pollReceive handle key ticket fired deadline now).map id (·.part P) := by
  have told : (x.part P).table.resolved.find? ticket = x.table.resolved.find? ticket := by
    simp only [part, Table.part, Handles.find?_only, if_pos hticket]
  unfold pollReceive
  split
  · next hfired => exact congrArg (Prod.mk _) (quit_part (h hfired) handle)
  · rw [told]
    -- but for a fired token, only a caller that was sent no batch gives up
    have left : (∀ batch, ¬ x.table.Sent ticket batch) →
        (x.part P).quit handle key ticket = (x.quit handle key ticket).part P :=
      fun hnot => quit_part (Table.keeps_of_not_sent hkey hticket hnot) handle
    cases hfind : x.table.resolved.find? ticket with
    | none =>
      have left := left fun batch hsent => by simp [Table.Sent, hfind] at hsent
      cases passed now deadline with
      | true => exact congrArg (Prod.mk _) left
      | false => rfl
    | some told =>
      cases told with
      | broken reason =>
        have left := left fun batch hsent => by simp [Table.Sent, hfind] at hsent
        exact congrArg (Prod.mk _) left
      | batch batch =>
        have collected := Table.collect_part hheld x.table ticket batch
        exact congrArg (Prod.mk _)
          (x.place_part collected.symm (Handles.only_erase x.calls handle).symm)

/-! ## Moves -/

theorem drop_part (hcall : P.call handle) (hheld : P.held handle) (h : x.Keeps P handle) :
    (x.part P).drop handle = (x.drop handle).map id (·.part P) := by
  have there : (x.part P).calls.contains handle = x.calls.contains handle := by
    simp only [Handles.contains, find?_calls_part hcall]
  have hold : (x.part P).table.held.contains handle = x.table.held.contains handle := by
    simp only [Handles.contains, find?_held_part hheld]
  unfold drop
  rw [there, hold]
  split
  · exact congrArg (Prod.mk _) (vacate_part hcall h)
  · exact congrArg (Prod.mk _) (x.regroup_part (Handles.only_erase x.table.held handle).symm)

theorem poll_part (hcall : P.call handle) (hheld : P.held handle) (hcovers : x.Covers P handle)
    (h : x.Fired handle → x.Keeps P handle)
    (hkeys : (∃ serial single woken, x.calls.find? handle = some (.next serial single woken)) →
      ∀ key, P.key key) (now : ℕ) :
    (x.part P).poll handle now = (x.poll handle now).map id (·.part P) := by
  unfold poll
  rw [find?_calls_part hcall]
  cases hfind : x.calls.find? handle with
  | none => rfl
  | some call =>
    cases call with
    | receive key ticket fired deadline =>
      have hat := ticketAt_of_find? hfind
      have ⟨hkey, hticket⟩ := hcovers key ticket hat
      refine pollReceive_part hheld hkey hticket (fun hfired => ?_) deadline now
      subst hfired
      exact h ⟨key, ticket, deadline, hfind⟩ key ticket hat
    | next serial single woken =>
      cases woken with
      | true => exact advance_part (hkeys ⟨serial, single, true, hfind⟩) hcall hheld ..
      | false => rfl

theorem next_part (hcall : P.call handle) (hheld : P.held handle) (hkeys : ∀ key, P.key key)
    (hcursors : x.CursorsWithin P) {cursor : ℕ}
    (h : ∀ c, x.cursors.find? cursor = some c → x.isBusy c.serial = false → x.Keeps P handle)
    (single : Bool) :
    (x.part P).next cursor handle single = (x.next cursor handle single).map id (·.part P) := by
  have cursors : (x.part P).cursors = x.cursors := rfl
  unfold next
  rw [cursors]
  cases hfind : x.cursors.find? cursor with
  | none => rfl
  | some c =>
    simp only [isBusy_part hcursors]
    cases hbusy : x.isBusy c.serial with
    | true => rfl
    | false =>
      rw [vacate_part hcall (h c hfind hbusy)]
      exact seekNext_part hkeys hcall hheld (x.vacate handle) c single

/-- **A move in a part does to it what it does to the whole**, and tells the
same. -/
theorem act_part (hnext : ∀ ticket, x.table.nextTicket ≤ ticket → P.ticket ticket)
    {move : Move κ} (h : x.Minds P move) (now : ℕ) (deadline : Option ℕ) :
    (x.part P).act now deadline move = (x.act now deadline move).map id (·.part P) := by
  cases move with
  | receive handle key fired =>
    obtain ⟨hcall, hheld, hkey, hkeeps⟩ := h
    have later := hnext _ (turns_vacate hkeeps.covers).numbers_le.1
    simp only [act, receive, vacate_part hcall hkeeps]
    exact seek_part hcall hheld hkey later fired deadline now
  | poll handle =>
    obtain ⟨hcall, hheld, hcovers, hkeeps, hkeys⟩ := h
    exact poll_part hcall hheld hcovers hkeeps hkeys now
  | cancel handle =>
    simp only [act, cancel_part h]
    rfl
  | drop handle =>
    obtain ⟨hcall, hheld, hkeeps⟩ := h
    simp only [act, drop_part hcall hheld hkeeps]
    rfl
  | openCursor cursor => rfl
  | closeCursor cursor => rfl
  | next cursor handle single =>
    obtain ⟨hcall, hheld, hkeys, hcursors, hkeeps⟩ := h
    exact next_part hcall hheld hkeys hcursors hkeeps single
  | tryNext cursor => exact tryNext_part h.1 h.2 cursor
  | view handle => simp only [act, view, find?_held_part h, Prod.map, id]
  | clone handle copy => exact clone_part h.1 h.2 x
  | unwrap handle copies => exact unwrap_part h.1 h.2 copies

end Exchange

end FramedDuplex
