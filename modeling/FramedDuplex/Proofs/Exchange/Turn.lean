import FramedDuplex.Proofs.Exchange.Follow
import Mathlib.Logic.Relation
/-!
# Turns of the table

Whatever callers do, and whatever arrives for them, changes the table in one of
nine ways, one after the other (`Table.Turn`). What each of them keeps is kept
by every call (`Exchange.turns_act`). The end of the connection is no turn: it
is nothing that callers do.

Callers of some keys keep to these keys: some of the keys, of the callers and of
the numbers that name calls and batches are a part of the exchange (`Part`), and
a turn inside a part touches nothing else. A move takes turns inside a part if
it minds the part (`Exchange.Minds`), which says what nothing may reach across:
answers under a key of the part find no callers but those of the part
(`Table.Reaches`), and a batch of the part has no shares outside
(`Table.Whole`).
-/

namespace FramedDuplex

/-- Some of the keys, of the tickets, and of the numbers that name calls and
batches. -/
structure Part (κ : Type) where
  key : κ → Bool
  ticket : ℕ → Bool
  call : ℕ → Bool
  held : ℕ → Bool

/-- The whole exchange. -/
def Part.all {κ : Type} : Part κ :=
  ⟨fun _ => true, fun _ => true, fun _ => true, fun _ => true⟩

variable {κ α : Type} [DecidableEq κ] {P : Part κ}

namespace Table

variable {t u : Table κ α} {key : κ} {ticket handle serial : ℕ}

/-- The table `u` is what one thing that is done to `t` inside a part makes of
it. -/
inductive Turn (P : Part κ) : Table κ α → Table κ α → Prop where
  /-- Answers arrive or are put back. -/
  | put (t : Table κ α) (f : List α → List α) {key : κ} (items : List α) :
      P.key key → Turn P t (t.put f key items)
  | forget (t : Table κ α) {ticket : ℕ} : P.ticket ticket → Turn P t (t.forget ticket)
  /-- A caller begins to wait, where it has to. -/
  | enter {t : Table κ α} {key : κ} :
      P.key key → P.ticket t.nextTicket → t.readyAt? key = none → t.broken = none →
        Turn P t (t.enter key).2
  | takeReady (t : Table κ α) {key : κ} : P.key key → Turn P t (t.takeReady key)
  | takeNext (t : Table κ α) : (∀ key, P.key key) → Turn P t t.takeNext.2
  | holdNew (t : Table κ α) {handle : ℕ} (items : List α) :
      P.held handle → Turn P t (t.holdNew handle items)
  | collect {t : Table κ α} {ticket handle : ℕ} {batch : Batch α} :
      P.ticket ticket → P.held handle → t.Sent ticket batch →
        Turn P t (t.collect ticket handle batch)
  | lend {t : Table κ α} {handle copy : ℕ} {batch : Batch α} :
      P.held handle → P.held copy → t.held.find? handle = some batch →
        Turn P t { t with held := t.held.insert copy batch }
  | release (t : Table κ α) {handle : ℕ} :
      P.held handle → Turn P t { t with held := t.held.erase handle }

/-- One table comes of another by turns. -/
abbrev Turns (P : Part κ) : Table κ α → Table κ α → Prop := Relation.ReflTransGen (Turn P)

theorem Turn.turns (h : t.Turn P u) : t.Turns P u := .single h

/-- A turn takes no number back. -/
theorem Turn.numbers_le (h : t.Turn P u) :
    t.nextTicket ≤ u.nextTicket ∧ t.nextSerial ≤ u.nextSerial := by
  cases h with
  | put f items =>
    rcases put_cases t f _ items with ⟨old, -, he⟩ | ⟨-, -, he⟩ | ⟨-, -, he⟩ <;> rw [he]
    · exact ⟨Nat.le_refl _, Nat.le_refl _⟩
    · exact ⟨Nat.le_refl _, Nat.le_refl _⟩
    · exact ⟨Nat.le_refl _, Nat.le_succ _⟩
  | enter => exact ⟨Nat.le_succ _, Nat.le_refl _⟩
  | takeNext =>
    rw [takeNext_snd]
    exact ⟨Nat.le_refl _, Nat.le_refl _⟩
  | holdNew => exact ⟨Nat.le_refl _, Nat.le_succ _⟩
  | forget | takeReady | collect | lend | release => exact ⟨Nat.le_refl _, Nat.le_refl _⟩

theorem Turns.numbers_le (h : t.Turns P u) :
    t.nextTicket ≤ u.nextTicket ∧ t.nextSerial ≤ u.nextSerial := by
  induction h with
  | refl => exact ⟨Nat.le_refl _, Nat.le_refl _⟩
  | tail _ turn ih => exact ⟨ih.1.trans turn.numbers_le.1, ih.2.trans turn.numbers_le.2⟩

/-! ## What may reach across -/

/-- All shares of a batch are in a part. -/
structure Whole (P : Part κ) (t : Table κ α) (serial : ℕ) : Prop where
  resolved : ∀ e ∈ t.resolved.entries, ∀ batch, e.2.batch? = some batch →
    batch.serial = serial → P.ticket e.1
  held : ∀ e ∈ t.held.entries, e.2.serial = serial → P.held e.1

omit [DecidableEq κ] in
theorem Whole.forget (h : t.Whole P serial) (ticket : ℕ) : (t.forget ticket).Whole P serial :=
  ⟨fun e he => h.resolved e (List.mem_filter.mp he).1, h.held⟩

/-- Answers under a key find no callers but those of a part: some are ready
already, or all who wait are of the part. -/
def Reaches (P : Part κ) (t : Table κ α) (key : κ) : Prop :=
  t.readyAt? key = none → ∀ ticket ∈ t.waitingOn key, P.ticket ticket

/-- What a caller that goes puts back stays in a part, and so do the shares of
its batch. -/
structure Keeps (P : Part κ) (t : Table κ α) (key : κ) (ticket : ℕ) : Prop where
  inside : P.key key
  caller : P.ticket ticket
  whole : ∀ batch, t.Sent ticket batch → t.Whole P batch.serial
  reaches : ∀ batch, t.Sent ticket batch → (t.forget ticket).shares batch.serial = 0 →
    (t.forget ticket).Reaches P key

/-- A caller that was sent no batch puts none back. -/
theorem keeps_of_not_sent (hkey : P.key key) (hticket : P.ticket ticket)
    (h : ∀ batch, ¬ t.Sent ticket batch) : t.Keeps P key ticket :=
  ⟨hkey, hticket, fun batch hsent => absurd hsent (h batch),
    fun batch hsent => absurd hsent (h batch)⟩

theorem keeps_all (t : Table κ α) (key : κ) (ticket : ℕ) : t.Keeps .all key ticket :=
  ⟨rfl, rfl, fun _ _ => ⟨fun _ _ _ _ _ => rfl, fun _ _ _ => rfl⟩, fun _ _ _ _ _ _ => rfl⟩

theorem turns_leave (hkey : P.key key) (hticket : P.ticket ticket) (t : Table κ α) :
    t.Turns P (t.leave key ticket).1 := by
  rcases t.leave_cases key ticket with ⟨he, -⟩ | ⟨batch, -, -, he⟩ <;> rw [he]
  · exact (Turn.forget t hticket).turns
  · exact .tail (Turn.forget t hticket).turns (.put _ _ _ hkey)

end Table

namespace Exchange

open Table

variable {x : Exchange κ α} {handle : ℕ} {key : κ} {ticket : ℕ}

/-- Calls outside a part are not on cursors. -/
def CursorsWithin (P : Part κ) (x : Exchange κ α) : Prop :=
  ∀ e ∈ x.calls.entries, (∃ serial single woken, e.2 = .next serial single woken) → P.call e.1

/-- The key and the ticket of the call of a number are of a part. -/
def Covers (P : Part κ) (x : Exchange κ α) (handle : ℕ) : Prop :=
  ∀ key ticket, x.ticketAt handle = some (key, ticket) → P.key key ∧ P.ticket ticket

/-- What the call of a number puts back when it goes stays in a part. -/
def Keeps (P : Part κ) (x : Exchange κ α) (handle : ℕ) : Prop :=
  ∀ key ticket, x.ticketAt handle = some (key, ticket) → x.table.Keeps P key ticket

theorem Keeps.covers (h : x.Keeps P handle) : x.Covers P handle :=
  fun key ticket hat => ⟨(h key ticket hat).inside, (h key ticket hat).caller⟩

/-- The token of the call of a number was fired. -/
def Fired (x : Exchange κ α) (handle : ℕ) : Prop :=
  ∃ key ticket deadline, x.calls.find? handle = some (.receive key ticket (some true) deadline)

/-- A move stays in a part: it is of the part's calls and batches, and what it
does for them reaches nothing else. -/
def Minds (P : Part κ) (x : Exchange κ α) : Move κ → Prop
  | .receive handle key _ => P.call handle ∧ P.held handle ∧ P.key key ∧ x.Keeps P handle
  | .poll handle =>
    P.call handle ∧ P.held handle ∧ x.Covers P handle ∧ (x.Fired handle → x.Keeps P handle) ∧
      ((∃ serial single woken, x.calls.find? handle = some (.next serial single woken)) →
        ∀ key, P.key key)
  | .cancel handle => P.call handle
  | .drop handle => P.call handle ∧ P.held handle ∧ x.Keeps P handle
  | .openCursor _ | .closeCursor _ => True
  | .next cursor handle _ =>
    P.call handle ∧ P.held handle ∧ (∀ key, P.key key) ∧ x.CursorsWithin P ∧
      ∀ c, x.cursors.find? cursor = some c → x.isBusy c.serial = false → x.Keeps P handle
  | .tryNext _ => (∀ key, P.key key) ∧ x.CursorsWithin P
  | .view handle => P.held handle
  | .clone handle copy => P.held handle ∧ P.held copy
  | .unwrap handle _ => P.held handle ∧
      ∀ batch, x.table.held.find? handle = some batch → x.table.Whole P batch.serial

theorem keeps_all (x : Exchange κ α) (handle : ℕ) : x.Keeps .all handle :=
  fun key ticket _ => x.table.keeps_all key ticket

/-- Every move minds the whole. -/
theorem minds_all (x : Exchange κ α) (move : Move κ) : x.Minds .all move := by
  have cursors : x.CursorsWithin .all := fun _ _ _ => rfl
  cases move with
  | receive handle key fired => exact ⟨rfl, rfl, rfl, x.keeps_all handle⟩
  | poll handle =>
    exact ⟨rfl, rfl, (x.keeps_all handle).covers, fun _ => x.keeps_all handle, fun _ _ => rfl⟩
  | drop handle => exact ⟨rfl, rfl, x.keeps_all handle⟩
  | next cursor handle single =>
    exact ⟨rfl, rfl, fun _ => rfl, cursors, fun _ _ _ => x.keeps_all handle⟩
  | tryNext cursor => exact ⟨fun _ => rfl, cursors⟩
  | clone handle copy => exact ⟨rfl, rfl⟩
  | unwrap handle copies => exact ⟨rfl, fun _ _ => ⟨fun _ _ _ _ _ => rfl, fun _ _ _ => rfl⟩⟩
  | cancel | view => rfl
  | openCursor | closeCursor => trivial

/-! ## Moves are turns -/

theorem turns_take (hkeys : ∀ key, P.key key) (x : Exchange κ α) :
    x.table.Turns P x.take.2.table :=
  (Turn.takeNext x.table hkeys).turns

theorem turns_advance (hkeys : ∀ key, P.key key) (hheld : P.held handle) (x : Exchange κ α)
    (serial : ℕ) (single : Bool) : x.table.Turns P (x.advance serial handle single).2.table := by
  have taken := turns_take hkeys x
  unfold advance
  split
  · next y heq =>
    rw [heq] at taken
    split
    · exact taken
    · exact .tail taken (.holdNew _ _ hheld)
  · next y heq =>
    rw [heq] at taken
    exact .tail taken (.holdNew _ _ hheld)
  · split <;> exact .refl

theorem turns_seekNext (hkeys : ∀ key, P.key key) (hheld : P.held handle) (x : Exchange κ α)
    (c : Cursor κ α) (single : Bool) : x.table.Turns P (x.seekNext c handle single).2.table := by
  unfold seekNext
  split
  · split
    · exact .refl
    · exact (Turn.holdNew x.table _ hheld).turns
  · exact turns_advance hkeys hheld (x.leaveOver c.serial none) c.serial single

theorem turns_quit (hkey : P.key key) (hticket : P.ticket ticket) (x : Exchange κ α) (handle : ℕ) :
    x.table.Turns P (x.quit handle key ticket).table := by
  rw [quit, table_settleTable]
  exact turns_leave hkey hticket x.table

theorem turns_vacate (h : x.Covers P handle) : x.table.Turns P (x.vacate handle).table := by
  unfold vacate
  split
  · next hfind =>
    have ⟨hkey, hticket⟩ := h _ _ (ticketAt_of_find? hfind)
    exact turns_quit hkey hticket x handle
  · exact .refl
  · exact .refl

theorem turns_seek (hheld : P.held handle) (hkey : P.key key) (hnext : P.ticket x.table.nextTicket)
    (fired : Option Bool) (deadline : Option ℕ) (now : ℕ) :
    x.table.Turns P (x.seek handle key fired deadline now).2.table := by
  unfold seek
  split
  · exact .refl
  · split
    · exact .tail (Turn.takeReady x.table hkey).turns (.holdNew _ _ hheld)
    · exact .refl
    · next hnone hopen =>
      split
      · exact .refl
      · exact (Turn.enter hkey hnext hnone hopen).turns

theorem turns_pollReceive (hheld : P.held handle) (hkey : P.key key) (hticket : P.ticket ticket)
    (x : Exchange κ α) (fired : Option Bool) (deadline : Option ℕ) (now : ℕ) :
    x.table.Turns P (x.pollReceive handle key ticket fired deadline now).2.table := by
  unfold pollReceive
  split
  · exact turns_quit hkey hticket x handle
  · split
    · next hsent => exact (Turn.collect hticket hheld hsent).turns
    · exact turns_quit hkey hticket x handle
    · split
      · exact turns_quit hkey hticket x handle
      · exact .refl

/-- **Callers take turns at the table**, inside a part that they mind. -/
theorem turns_act (hnext : ∀ ticket, x.table.nextTicket ≤ ticket → P.ticket ticket)
    {move : Move κ} (h : x.Minds P move) (now : ℕ) (deadline : Option ℕ) :
    x.table.Turns P (x.act now deadline move).2.table := by
  cases move with
  | receive handle key fired =>
    obtain ⟨-, hheld, hkey, hkeeps⟩ := h
    have vacated := turns_vacate hkeeps.covers
    have later := hnext _ vacated.numbers_le.1
    exact vacated.trans (turns_seek (x := x.vacate handle) hheld hkey later fired deadline now)
  | poll handle =>
    obtain ⟨-, hheld, hcovers, -, hkeys⟩ := h
    simp only [act, poll]
    split
    · exact .refl
    · next hfind =>
      obtain ⟨hkey, hticket⟩ := hcovers _ _ (ticketAt_of_find? hfind)
      exact turns_pollReceive hheld hkey hticket ..
    · next serial single woken hfind =>
      split
      · exact turns_advance (hkeys ⟨serial, single, woken, hfind⟩) hheld ..
      · exact .refl
  | cancel handle =>
    simp only [act, cancel]
    split <;> exact .refl
  | drop handle =>
    obtain ⟨-, hheld, hkeeps⟩ := h
    simp only [act, drop]
    split
    · exact turns_vacate hkeeps.covers
    · exact (Turn.release x.table hheld).turns
  | openCursor cursor => exact .refl
  | closeCursor cursor => exact .refl
  | next cursor handle single =>
    obtain ⟨-, hheld, hkeys, -, hkeeps⟩ := h
    simp only [act, next]
    split
    · exact .refl
    · next c hfind =>
      split
      · exact .refl
      · next hidle =>
        have hcovers := (hkeeps c hfind (by simpa using hidle)).covers
        exact (turns_vacate hcovers).trans (turns_seekNext hkeys hheld ..)
  | tryNext cursor =>
    rw [act]
    rcases x.tryNext_snd cursor with heq | heq
    · rw [heq]
    · exact heq ▸ turns_take h.1 x
  | view handle => exact .refl
  | clone handle copy =>
    simp only [act, clone]
    split
    · exact .refl
    · next hheld => exact (Turn.lend h.1 h.2 hheld).turns
  | unwrap handle copies =>
    simp only [act, unwrap]
    split
    · exact .refl
    · split
      · exact (Turn.release x.table h.1).turns
      · exact .refl

/-- So do answers that arrive. -/
theorem turns_deliver (hkey : P.key key) (x : Exchange κ α) (item : α) :
    x.table.Turns P (x.deliver key item).table := by
  rw [deliver, table_settleTable, deliver_eq_put]
  exact (Turn.put _ _ _ hkey).turns

/-- **Every event is turns at the table**, or the end of the connection. -/
theorem turns_step (x : Exchange κ α) (event : Event κ α) :
    x.table.Turns .all (x.step event).2.table ∨
      ∃ reason, (x.step event).2.table = (x.table.fail reason).2 := by
  cases event with
  | deliver key item => exact .inl (turns_deliver rfl x item)
  | fail reason => exact .inr ⟨reason, rfl⟩
  | move now deadline move => exact .inl (turns_act (fun _ _ => rfl) (minds_all x move) now deadline)
  | take => exact .inl (x.step_take_snd ▸ turns_take (fun _ => rfl) x)

end Exchange

end FramedDuplex
