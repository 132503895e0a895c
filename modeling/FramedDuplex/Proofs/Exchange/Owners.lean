import FramedDuplex.Proofs.Exchange.Map
import FramedDuplex.Proofs.Exchange.Part
import FramedDuplex.Proofs.Exchange.Shift
/-!
# Whose everything is

Where each number is used for calls and batches of one key, everything of an
exchange belongs to a key (`Exchange.OwnedBy`): each caller by its ticket, each
batch by its serial number. What is done for one key then minds what belongs to
the key (`OwnedBy.minds`), keeps the order of things (`OwnedBy.act`) and leaves
all that belongs to another key as it is (`Exchange.Aside`).
-/

namespace FramedDuplex

variable {κ α : Type} [DecidableEq κ]

/-- Which keys tickets, the serial numbers of batches and callers' numbers are
used for. -/
structure Owners (κ : Type) where
  ticket : ℕ → κ
  serial : ℕ → κ
  number : ℕ → κ

/-- What belongs to a key. -/
def Owners.on (o : Owners κ) (key : κ) : Part κ where
  key k := k = key
  ticket i := o.ticket i = key
  call n := o.number n = key
  held n := o.number n = key

/-- New numbers belong to a key. -/
structure Owners.Gives (o : Owners κ) (t : Table κ α) (key : κ) : Prop where
  ticket : ∀ i, t.nextTicket ≤ i → o.ticket i = key
  serial : ∀ i, t.nextSerial ≤ i → o.serial i = key

/-- The owners of the numbers in use, where new numbers belong to a key. -/
def Owners.since (o : Owners κ) (t : Table κ α) (key : κ) : Owners κ where
  ticket i := if i < t.nextTicket then o.ticket i else key
  serial i := if i < t.nextSerial then o.serial i else key
  number := o.number

omit [DecidableEq κ] in
theorem Owners.gives_since (o : Owners κ) (t : Table κ α) (key : κ) : (o.since t key).Gives t key :=
  ⟨fun _ hi => if_neg (by omega), fun _ hi => if_neg (by omega)⟩

variable {o : Owners κ} {j k : κ}

section On

variable {n : ℕ}

@[simp] theorem Owners.on_key : (o.on j).key k = decide (k = j) := rfl

@[simp] theorem Owners.on_ticket : (o.on j).ticket n = decide (o.ticket n = j) := rfl

@[simp] theorem Owners.on_call : (o.on j).call n = decide (o.number n = j) := rfl

@[simp] theorem Owners.on_held : (o.on j).held n = decide (o.number n = j) := rfl

end On

namespace Table

variable {t u v : Table κ α}

/-- Who waits, was told something or has a batch does so on the key that its
number is used for. -/
structure OwnedBy (o : Owners κ) (t : Table κ α) : Prop where
  waits : ∀ e ∈ t.waiting, e.2 < t.nextTicket ∧ o.ticket e.2 = e.1
  told : ∀ e ∈ t.resolved.entries, e.1 < t.nextTicket ∧
    ∀ batch, e.2.batch? = some batch →
      batch.serial < t.nextSerial ∧ o.serial batch.serial = o.ticket e.1
  held : ∀ e ∈ t.held.entries, e.2.serial < t.nextSerial ∧ o.serial e.2.serial = o.number e.1

namespace OwnedBy

omit [DecidableEq κ] in
theorem empty (o : Owners κ) : (empty : Table κ α).OwnedBy o :=
  ⟨fun _ h => by simp [Table.empty] at h, fun _ h => by simp [Table.empty, Handles.empty] at h,
    fun _ h => by simp [Table.empty, Handles.empty] at h⟩

/-- Who waits on a key has a ticket of the key. -/
theorem ticket_of_waitingOn (h : t.OwnedBy o) {i : ℕ} (hi : i ∈ t.waitingOn j) : o.ticket i = j :=
  (h.waits _ (mem_waitingOn.mp hi)).2

/-- A batch that belongs to a key has all its shares there. -/
theorem whole (h : t.OwnedBy o) {serial : ℕ} (hserial : o.serial serial = j) :
    t.Whole (o.on j) serial where
  resolved e he batch hbatch heq := by
    have := ((h.told e he).2 batch hbatch).2
    simp [← this, heq, hserial]
  held e he heq := by
    have := (h.held e he).2
    simp [← this, heq, hserial]

/-- **Nothing that a caller puts back reaches another key.** -/
theorem keeps (h : t.OwnedBy o) {i : ℕ} (hi : o.ticket i = j) : t.Keeps (o.on j) j i where
  inside := by simp
  caller := by simp [hi]
  whole batch hsent := by
    have := ((h.told _ (Handles.mem_entries_of_find? hsent)).2 batch rfl).2
    exact h.whole (this.trans hi)
  reaches batch hsent _ _ i hin := by
    have hwaits := (waits_forget.mp (mem_waitingOn.mp hin)).1
    simpa using (h.waits _ hwaits).2

omit [DecidableEq κ] in
/-- Numbers go on, and whatever is new belongs to the key that its number is used
for. -/
theorem add (h : t.OwnedBy o) (htickets : t.nextTicket ≤ u.nextTicket)
    (hserials : t.nextSerial ≤ u.nextSerial)
    (waits : ∀ e ∈ u.waiting, e ∈ t.waiting ∨ (e.2 < u.nextTicket ∧ o.ticket e.2 = e.1))
    (told : ∀ e ∈ u.resolved.entries, e ∈ t.resolved.entries ∨ (e.1 < u.nextTicket ∧
      ∀ batch, e.2.batch? = some batch →
        batch.serial < u.nextSerial ∧ o.serial batch.serial = o.ticket e.1))
    (held : ∀ e ∈ u.held.entries, e ∈ t.held.entries ∨
      (e.2.serial < u.nextSerial ∧ o.serial e.2.serial = o.number e.1)) : u.OwnedBy o where
  waits e he := (waits e he).elim
    (fun hold => ⟨(h.waits e hold).1.trans_le htickets, (h.waits e hold).2⟩) id
  told e he := (told e he).elim
    (fun hold => ⟨(h.told e hold).1.trans_le htickets, fun batch hbatch =>
      ((h.told e hold).2 batch hbatch).imp_left (·.trans_le hserials)⟩) id
  held e he := (held e he).elim
    (fun hold => (h.held e hold).imp_left (·.trans_le hserials)) id

/-- **A turn on a key leaves everything with its owner**, new batches belonging
to the key. -/
theorem turn (h : t.OwnedBy o) (hnew : ∀ i, t.nextSerial ≤ i → o.serial i = j)
    (turn : t.Turn (o.on j) u) : u.OwnedBy o := by
  have ⟨htickets, hserials⟩ := turn.numbers_le
  cases turn with
  | @put f key items hkey =>
    obtain rfl : key = j := by simpa using hkey
    rcases t.put_cases f key items with ⟨old, -, he⟩ | ⟨-, -, he⟩ | ⟨-, -, he⟩ <;>
      rw [he] at hserials ⊢
    · exact h.add (Nat.le_refl _) hserials (fun _ => .inl) (fun _ => .inl) fun _ => .inl
    · exact h.add (Nat.le_refl _) hserials (fun _ => .inl) (fun _ => .inl) fun _ => .inl
    · refine h.add (Nat.le_refl _) hserials (fun e hin => .inl (List.mem_filter.mp hin).1)
        (fun e hin => ?_) fun _ => .inl
      refine (Handles.mem_entries_of_foldl_insert hin).imp_right fun ⟨hwaits, htold⟩ => ?_
      refine ⟨(h.waits _ (mem_waitingOn.mp hwaits)).1, fun batch hbatch => ?_⟩
      obtain rfl : ⟨t.nextSerial, items⟩ = batch := by simpa [htold, Resolution.batch?] using hbatch
      exact ⟨Nat.lt_succ_self _, (hnew _ (Nat.le_refl _)).trans (h.ticket_of_waitingOn hwaits).symm⟩
  | forget =>
    exact h.add htickets hserials (fun e hin => .inl (List.mem_filter.mp hin).1)
      (fun e hin => .inl (Handles.mem_entries_erase.mp hin).1) fun _ => .inl
  | @enter key hkey hticket =>
    obtain rfl : key = j := by simpa using hkey
    refine h.add htickets hserials (fun e hin => ?_) (fun _ => .inl) fun _ => .inl
    refine (List.mem_append.mp hin).imp_right fun hin => ?_
    obtain rfl := List.mem_singleton.mp hin
    exact ⟨Nat.lt_succ_self _, by simpa using hticket⟩
  | takeReady => exact h.add htickets hserials (fun _ => .inl) (fun _ => .inl) fun _ => .inl
  | takeNext =>
    rw [takeNext_snd]
    exact h.add (Nat.le_refl _) (Nat.le_refl _) (fun _ => .inl) (fun _ => .inl) fun _ => .inl
  | holdNew items hheld =>
    refine h.add htickets hserials (fun _ => .inl) (fun _ => .inl) fun e hin => ?_
    refine (Handles.mem_entries_insert.mp hin).imp (·.1) ?_
    rintro rfl
    refine ⟨Nat.lt_succ_self _, (hnew _ (Nat.le_refl _)).trans ?_⟩
    simpa [eq_comm] using hheld
  | collect hticket hheld hsent =>
    refine h.add htickets hserials (fun _ => .inl)
      (fun e hin => .inl (Handles.mem_entries_erase.mp hin).1) fun e hin => ?_
    refine (Handles.mem_entries_insert.mp hin).imp (·.1) ?_
    rintro rfl
    have hbatch := (h.told _ (Handles.mem_entries_of_find? hsent)).2 _ rfl
    simp only [Owners.on_ticket, Owners.on_held, decide_eq_true_eq] at hticket hheld
    exact ⟨hbatch.1, hbatch.2.trans (hticket.trans hheld.symm)⟩
  | lend hheld hcopy hfind =>
    refine h.add htickets hserials (fun _ => .inl) (fun _ => .inl) fun e hin => ?_
    refine (Handles.mem_entries_insert.mp hin).imp (·.1) ?_
    rintro rfl
    have hbatch := h.held _ (Handles.mem_entries_of_find? hfind)
    simp only [Owners.on_held, decide_eq_true_eq] at hheld hcopy
    exact ⟨hbatch.1, hbatch.2.trans (hheld.trans hcopy.symm)⟩
  | release =>
    exact h.add htickets hserials (fun _ => .inl) (fun _ => .inl)
      fun e hin => .inl (Handles.mem_entries_erase.mp hin).1

theorem turns (h : t.OwnedBy o) (hnew : ∀ i, t.nextSerial ≤ i → o.serial i = j)
    (turns : t.Turns (o.on j) u) : u.OwnedBy o := by
  induction turns with
  | refl => exact h
  | tail before turn ih =>
    exact ih.turn (fun i hi => hnew i ((Turns.numbers_le before).2.trans hi)) turn

omit [DecidableEq κ] in
theorem fail (h : t.OwnedBy o) (reason : BrokenReason) : (t.fail reason).2.OwnedBy o := by
  refine ⟨fun e hin => by simp [Table.fail] at hin, fun e hin => ?_, h.held⟩
  rw [resolved_fail] at hin
  rcases Handles.mem_entries_of_foldl_insert hin with hold | ⟨hwaits, htold⟩
  · exact h.told e hold
  · obtain ⟨w, hw, he⟩ := List.mem_map.mp hwaits
    exact ⟨he ▸ (h.waits w hw).1, by simp [htold, Resolution.batch?]⟩

end OwnedBy

/-! ## What belongs to another key -/

/-- What `u` has of a part is what `t` has of it, but for the numbers that are
given next. -/
structure Aside (P : Part κ) (t u : Table κ α) : Prop where
  ready : u.ready.filter (P.key ·.1) = t.ready.filter (P.key ·.1)
  waiting : u.waiting.filter (P.ticket ·.2) = t.waiting.filter (P.ticket ·.2)
  resolved : u.resolved.only P.ticket = t.resolved.only P.ticket
  held : u.held.only P.held = t.held.only P.held
  broken : u.broken = t.broken

omit [DecidableEq κ] in
theorem Aside.refl (P : Part κ) (t : Table κ α) : t.Aside P t := ⟨rfl, rfl, rfl, rfl, rfl⟩

omit [DecidableEq κ] in
theorem Aside.trans {P : Part κ} (h : t.Aside P u) (h' : u.Aside P v) : t.Aside P v :=
  ⟨h'.ready.trans h.ready, h'.waiting.trans h.waiting, h'.resolved.trans h.resolved,
    h'.held.trans h.held, h'.broken.trans h.broken⟩

/-- Filtering for other things sees nothing of what is left out. -/
theorem filter_filter_of_imp {β : Type} {p q : β → Bool} (l : List β)
    (h : ∀ b ∈ l, p b → q b) : (l.filter q).filter p = l.filter p := by
  rw [List.filter_filter]
  refine List.filter_congr fun b hb => ?_
  cases hp : p b with
  | false => simp
  | true => simp [h b hb hp]

/-- **A turn on one key leaves what belongs to another as it is.** -/
theorem OwnedBy.aside (h : t.OwnedBy o) (hne : j ≠ k) (turn : t.Turn (o.on j) u) :
    t.Aside (o.on k) u := by
  -- what is used for the one key is not used for the other
  have apart : ∀ {key : κ}, decide (key = j) = true → decide (key = k) = false := by
    rintro key hkey
    obtain rfl : key = j := by simpa using hkey
    simpa using hne
  cases turn with
  | @put f key items hkey =>
    have hnot : key ≠ k := by simpa using apart hkey
    rcases t.put_cases f key items with ⟨old, -, he⟩ | ⟨-, -, he⟩ | ⟨-, -, he⟩ <;> rw [he]
    · refine ⟨?_, rfl, rfl, rfl, rfl⟩
      simp only [changeReady, List.filter_map]
      refine (List.map_congr_left fun e hin => ?_).trans (List.map_id _)
      obtain rfl : e.1 = k := by simpa using (List.mem_filter.mp hin).2
      simp [hnot.symm]
    · exact ⟨by simp [start, hnot], rfl, rfl, rfl, rfl⟩
    · have none : (t.waitingOn key).filter (o.on k).ticket = [] := by
        refine List.filter_eq_nil_iff.mpr fun i hi => ?_
        simp [h.ticket_of_waitingOn hi, hnot]
      refine ⟨rfl, filter_filter_of_imp _ fun e hin hk => ?_, ?_, rfl, rfl⟩
      · have hother : e.1 ≠ key := by
          rintro rfl
          exact hnot ((h.waits e hin).2.symm.trans (by simpa using hk))
        simpa using hother
      · rw [resolve, Handles.only_foldl_insert, none]
        rfl
  | @forget i hticket =>
    refine ⟨rfl, filter_filter_of_imp _ fun e _ hk => ?_,
      Handles.only_erase_of_not (apart hticket) _, rfl, rfl⟩
    have hother : e.2 ≠ i := by
      rintro rfl
      exact absurd hk (by simpa using apart hticket)
    simpa using hother
  | enter _ hticket => exact ⟨rfl, by simp [enter, apart hticket], rfl, rfl, rfl⟩
  | @takeReady key hkey =>
    refine ⟨filter_filter_of_imp _ fun e _ hk => ?_, rfl, rfl, rfl, rfl⟩
    have hother : e.1 ≠ key := by
      rintro rfl
      exact absurd hk (by simpa using apart hkey)
    simpa using hother
  | takeNext hkeys => exact absurd (apart (hkeys k)) (by simp)
  | holdNew items hheld =>
    exact ⟨rfl, rfl, rfl, by simp [holdNew, Handles.only_insert, apart hheld], rfl⟩
  | collect hticket hheld =>
    refine ⟨rfl, rfl, Handles.only_erase_of_not (apart hticket) _, ?_, rfl⟩
    simp [collect, Handles.only_insert, apart hheld]
  | lend _ hcopy => exact ⟨rfl, rfl, rfl, by simp [Handles.only_insert, apart hcopy], rfl⟩
  | release hheld => exact ⟨rfl, rfl, rfl, Handles.only_erase_of_not (apart hheld) _, rfl⟩

theorem OwnedBy.aside_turns (h : t.OwnedBy o) (hnew : ∀ i, t.nextSerial ≤ i → o.serial i = j)
    (hne : j ≠ k) (turns : t.Turns (o.on j) u) : t.Aside (o.on k) u := by
  induction turns with
  | refl => exact .refl _ t
  | tail before turn ih => exact ih.trans ((h.turns hnew before).aside hne turn)

end Table

namespace Exchange

variable {x y : Exchange κ α}

/-! ## Calls -/

/-- Whatever an exchange has belongs to a key, and no call is on a cursor. -/
structure OwnedBy (o : Owners κ) (x : Exchange κ α) : Prop where
  table : x.table.OwnedBy o
  calls : ∀ e ∈ x.calls.entries, ∃ ticket fired deadline,
    e.2 = .receive (o.number e.1) ticket fired deadline ∧
      o.ticket ticket = o.number e.1 ∧ ticket < x.table.nextTicket

omit [DecidableEq κ] in
/-- Where no call is on a cursor, nobody is to be woken. -/
theorem settleTable_of_receives
    (h : ∀ e ∈ x.calls.entries, ∀ serial single woken, e.2 ≠ .next serial single woken)
    (e : Table κ α × Bool) : x.settleTable e = { x with table := e.1 } := by
  obtain ⟨table, became⟩ := e
  cases became with
  | false => rfl
  | true =>
    have asleep : x.wake.calls = x.calls := by
      simp only [wake, Handles.map]
      congr 1
      refine (List.map_congr_left fun e he => ?_).trans (List.map_id _)
      obtain ⟨n, call⟩ := e
      cases call with
      | receive => rfl
      | next serial single woken => exact absurd rfl (h _ he serial single woken)
    exact congrArg (fun calls => { x with table, calls }) asleep

namespace OwnedBy

omit [DecidableEq κ] in
theorem empty (o : Owners κ) : (empty : Exchange κ α).OwnedBy o :=
  ⟨.empty o, fun _ h => by simp [Exchange.empty, Handles.empty] at h⟩

omit [DecidableEq κ] in
theorem receives (h : x.OwnedBy o) :
    ∀ e ∈ x.calls.entries, ∀ serial single woken, e.2 ≠ .next serial single woken := by
  intro e he serial single woken
  obtain ⟨ticket, fired, deadline, hcall, -⟩ := h.calls e he
  simp [hcall]

omit [DecidableEq κ] in
theorem call (h : x.OwnedBy o) {handle : ℕ} {call : Call κ}
    (hfind : x.calls.find? handle = some call) :
    ∃ ticket fired deadline, call = .receive (o.number handle) ticket fired deadline ∧
      o.ticket ticket = o.number handle ∧ ticket < x.table.nextTicket :=
  h.calls _ (Handles.mem_entries_of_find? hfind)

omit [DecidableEq κ] in
theorem numbered (h : x.OwnedBy o) : x.Numbered where
  waits e he := (h.table.waits e he).1
  told e he := ⟨(h.table.told e he).1, fun batch hb => ((h.table.told e he).2 batch hb).1⟩
  held e he := (h.table.held e he).1
  calls e he key ticket fired deadline hcall := by
    obtain ⟨_, _, _, howned, -, hlt⟩ := h.calls e he
    obtain ⟨-, rfl, -⟩ := Call.receive.inj (hcall.symm.trans howned)
    exact hlt

omit [DecidableEq κ] in
/-- It does not matter whose new numbers are. -/
theorem since (h : x.OwnedBy o) (key : κ) : x.OwnedBy (o.since x.table key) where
  table := by
    refine ⟨fun e he => ?_, fun e he => ?_, fun e he => ?_⟩
    · have ⟨hlt, howner⟩ := h.table.waits e he
      exact ⟨hlt, (if_pos hlt).trans howner⟩
    · have ⟨hlt, hbatch⟩ := h.table.told e he
      refine ⟨hlt, fun batch hb => ?_⟩
      have ⟨hserial, howner⟩ := hbatch batch hb
      exact ⟨hserial, (if_pos hserial).trans (howner.trans (if_pos hlt).symm)⟩
    · have ⟨hlt, howner⟩ := h.table.held e he
      exact ⟨hlt, (if_pos hlt).trans howner⟩
  calls e he := by
    obtain ⟨ticket, fired, deadline, hcall, howner, hlt⟩ := h.calls e he
    exact ⟨ticket, fired, deadline, hcall, (if_pos hlt).trans howner, hlt⟩

theorem part_since (h : x.OwnedBy o) (j key : κ) :
    x.part ((o.since x.table j).on key) = x.part (o.on key) := by
  have waiting : x.table.waiting.filter (((o.since x.table j).on key).ticket ·.2) =
      x.table.waiting.filter ((o.on key).ticket ·.2) :=
    List.filter_congr fun e he => by simp [Owners.since, (h.table.waits e he).1]
  have resolved : x.table.resolved.only ((o.since x.table j).on key).ticket =
      x.table.resolved.only (o.on key).ticket :=
    congrArg Handles.mk (List.filter_congr fun e he => by
      simp [Owners.since, (h.table.told e he).1])
  simp only [Exchange.part, Table.part, waiting, resolved]
  rfl

/-- What a call puts back stays on the key of its number. -/
theorem keeps (h : x.OwnedBy o) {handle : ℕ} (hhandle : o.number handle = j) :
    x.Keeps (o.on j) handle := by
  intro key i hat
  obtain ⟨fired, deadline, hfind⟩ := call_of_ticketAt hat
  obtain ⟨_, _, _, hcall, hticket, -⟩ := h.call hfind
  obtain ⟨rfl, rfl, -⟩ := Call.receive.inj hcall
  rw [hhandle] at hticket ⊢
  exact h.table.keeps hticket

end OwnedBy

/-! ## Moves on a key -/

/-- The key that a move is on, numbers being used for keys. Nothing on a cursor
is on a key. -/
def Move.key? (keyOf : ℕ → κ) : Move κ → Option κ
  | receive _ key _ => some key
  | poll handle | cancel handle | drop handle | view handle | clone handle _ | unwrap handle _ =>
    some (keyOf handle)
  | openCursor _ | closeCursor _ | next .. | tryNext _ => none

/-- A move keeps to what numbers are used for. -/
def Move.Named (keyOf : ℕ → κ) : Move κ → Prop
  | receive handle key _ => keyOf handle = key
  | clone handle copy => keyOf copy = keyOf handle
  | poll _ | cancel _ | drop _ | view _ | unwrap .. => True
  | openCursor _ | closeCursor _ | next .. | tryNext _ => False

variable {move : Move κ}

/-- What is done on a key minds what belongs to it. -/
theorem OwnedBy.minds (h : x.OwnedBy o) (hnamed : move.Named o.number)
    (hkey : move.key? o.number = some j) : x.Minds (o.on j) move := by
  cases move with
  | receive handle key fired =>
    obtain rfl : key = j := by simpa [Move.key?] using hkey
    have hhandle : o.number handle = key := hnamed
    exact ⟨by simpa using hhandle, by simpa using hhandle, by simp, h.keeps hhandle⟩
  | poll handle =>
    have hhandle : o.number handle = j := by simpa [Move.key?] using hkey
    refine ⟨by simpa using hhandle, by simpa using hhandle, (h.keeps hhandle).covers,
      fun _ => h.keeps hhandle, ?_⟩
    rintro ⟨serial, single, woken, hfind⟩
    exact absurd rfl (h.receives _ (Handles.mem_entries_of_find? hfind) serial single woken)
  | cancel handle =>
    have hhandle : o.number handle = j := by simpa [Move.key?] using hkey
    exact (by simpa using hhandle : (o.on j).call handle = true)
  | drop handle =>
    have hhandle : o.number handle = j := by simpa [Move.key?] using hkey
    exact ⟨by simpa using hhandle, by simpa using hhandle, h.keeps hhandle⟩
  | view handle =>
    have hhandle : o.number handle = j := by simpa [Move.key?] using hkey
    exact (by simpa using hhandle : (o.on j).held handle = true)
  | clone handle copy =>
    have hhandle : o.number handle = j := by simpa [Move.key?] using hkey
    have hcopy : o.number copy = j := hnamed.trans hhandle
    exact ⟨by simpa using hhandle, by simpa using hcopy⟩
  | unwrap handle copies =>
    have hhandle : o.number handle = j := by simpa [Move.key?] using hkey
    refine ⟨by simpa using hhandle, fun batch hfind => ?_⟩
    have hbatch := h.table.held _ (Handles.mem_entries_of_find? hfind)
    exact h.table.whole (hbatch.2.trans hhandle)
  | openCursor | closeCursor | next | tryNext => simp [Move.key?] at hkey

/-- The calls of `y` are those of `x`, but for the call of a number. -/
inductive Recalls (o : Owners κ) (key : κ) (x y : Exchange κ α) : Prop where
  | same : y.calls = x.calls → Recalls o key x y
  | ended (handle : ℕ) : o.number handle = key → y.calls = x.calls.erase handle → Recalls o key x y
  | begun (handle ticket : ℕ) (fired : Option Bool) (deadline : Option ℕ) :
      o.number handle = key → o.ticket ticket = key → ticket < y.table.nextTicket →
        y.calls = x.calls.insert handle (.receive key ticket fired deadline) → Recalls o key x y

namespace OwnedBy

theorem calls_quit (h : x.OwnedBy o) (handle : ℕ) (key : κ) (ticket : ℕ) :
    (x.quit handle key ticket).calls = x.calls.erase handle := by
  rw [quit, settleTable_of_receives]
  exact fun e he => h.receives e (Handles.mem_entries_erase.mp he).1

theorem calls_vacate (h : x.OwnedBy o) (handle : ℕ) :
    (x.vacate handle).calls = x.calls.erase handle := by
  unfold vacate
  split
  · exact h.calls_quit ..
  · rfl
  · next hnone => exact (Handles.erase_of_find?_eq_none hnone).symm

/-- **What is done on a key starts and ends calls of the key only.** -/
theorem recalls (h : x.OwnedBy o) (hnew : o.Gives x.table j) (hnamed : move.Named o.number)
    (hkey : move.key? o.number = some j) (now : ℕ) (deadline : Option ℕ) :
    x.Recalls o j (x.act now deadline move).2 := by
  cases move with
  | receive handle key fired =>
    obtain rfl : key = j := by simpa [Move.key?] using hkey
    have hhandle : o.number handle = key := hnamed
    have later := (turns_vacate (h.keeps hhandle).covers).numbers_le.1
    have vacated := h.calls_vacate handle
    simp only [act, receive, seek]
    split
    · exact .ended handle hhandle vacated
    · split
      · exact .ended handle hhandle vacated
      · exact .ended handle hhandle vacated
      · split
        · exact .ended handle hhandle vacated
        · refine .begun handle (x.vacate handle).table.nextTicket fired deadline hhandle
            (hnew.ticket _ later) (Nat.lt_succ_self _) ?_
          have renamed := Handles.insert_erase x.calls handle
            (.receive key (x.vacate handle).table.nextTicket fired deadline)
          rw [← vacated] at renamed
          exact renamed
  | poll handle =>
    have hhandle : o.number handle = j := by simpa [Move.key?] using hkey
    simp only [act, poll]
    split
    · exact .same rfl
    · simp only [pollReceive]
      split
      · exact .ended handle hhandle (h.calls_quit ..)
      · split
        · exact .ended handle hhandle rfl
        · exact .ended handle hhandle (h.calls_quit ..)
        · split
          · exact .ended handle hhandle (h.calls_quit ..)
          · exact .same rfl
    · next serial single woken hfind =>
      exact absurd rfl (h.receives _ (Handles.mem_entries_of_find? hfind) serial single woken)
  | cancel handle =>
    have hhandle : o.number handle = j := by simpa [Move.key?] using hkey
    simp only [act, cancel]
    split
    · next key ticket deadline hfind =>
      obtain ⟨_, _, _, hcall, hticket, hlt⟩ := h.call hfind
      obtain ⟨rfl, rfl, -⟩ := Call.receive.inj hcall
      rw [hhandle] at hticket ⊢
      exact .begun handle _ _ _ hhandle hticket hlt rfl
    · exact .same rfl
  | drop handle =>
    have hhandle : o.number handle = j := by simpa [Move.key?] using hkey
    simp only [act, drop]
    split
    · exact .ended handle hhandle (h.calls_vacate handle)
    · exact .same rfl
  | view handle => exact .same rfl
  | clone handle copy =>
    simp only [act, clone]
    split <;> exact .same rfl
  | unwrap handle copies =>
    simp only [act, unwrap]
    split
    · exact .same rfl
    · split <;> exact .same rfl
  | openCursor | closeCursor | next | tryNext => simp [Move.key?] at hkey

omit [DecidableEq κ] in
/-- Calls of a key that come and go leave every call with its owner. -/
theorem of_recalls (h : x.OwnedBy o) (htable : y.table.OwnedBy o)
    (hlater : x.table.nextTicket ≤ y.table.nextTicket) (hcalls : x.Recalls o j y) :
    y.OwnedBy o := by
  have old : ∀ e ∈ x.calls.entries, ∃ ticket fired deadline,
      e.2 = .receive (o.number e.1) ticket fired deadline ∧
        o.ticket ticket = o.number e.1 ∧ ticket < y.table.nextTicket := by
    intro e he
    obtain ⟨ticket, fired, deadline, hcall, hticket, hlt⟩ := h.calls e he
    exact ⟨ticket, fired, deadline, hcall, hticket, hlt.trans_le hlater⟩
  refine ⟨htable, fun e he => ?_⟩
  cases hcalls with
  | same heq => exact old e (heq ▸ he)
  | ended handle hhandle heq =>
    rw [heq] at he
    exact old e (Handles.mem_entries_erase.mp he).1
  | begun handle ticket fired deadline hhandle hticket hlt heq =>
    rw [heq] at he
    rcases Handles.mem_entries_insert.mp he with ⟨hold, -⟩ | rfl
    · exact old e hold
    · exact ⟨ticket, fired, deadline, by rw [hhandle], hticket.trans hhandle.symm, hlt⟩

/-- **A move on a key leaves everything with its owner.** -/
theorem act (h : x.OwnedBy o) (hnew : o.Gives x.table j) (hnamed : move.Named o.number)
    (hkey : move.key? o.number = some j) (now : ℕ) (deadline : Option ℕ) :
    (x.act now deadline move).2.OwnedBy o := by
  have turns := turns_act (fun i hi => by simpa using hnew.ticket i hi) (h.minds hnamed hkey)
    now deadline
  exact h.of_recalls (h.table.turns hnew.serial turns) turns.numbers_le.1
    (h.recalls hnew hnamed hkey now deadline)

theorem sameCursors (h : x.OwnedBy o) (hkey : (move.key? o.number).isSome) (now : ℕ)
    (deadline : Option ℕ) : x.SameCursors (x.act now deadline move).2 := by
  refine (shifts_act ?_ now deadline).sameCursors
  cases move with
  | poll handle =>
    rintro serial ⟨single, woken, hfind⟩
    exact h.receives _ (Handles.mem_entries_of_find? hfind) serial single woken rfl
  | receive | cancel | drop | view | clone | unwrap => trivial
  | openCursor | closeCursor | next | tryNext => simp [Move.key?] at hkey

end OwnedBy

/-! ## What belongs to another key -/

/-- What `y` has of a part is what `x` has of it, but for the numbers that are
given next. -/
structure Aside (P : Part κ) (x y : Exchange κ α) : Prop where
  table : x.table.Aside P y.table
  calls : y.calls.only P.call = x.calls.only P.call
  same : x.SameCursors y

omit [DecidableEq κ] in
/-- The part is the same then. -/
theorem Aside.part {P : Part κ} (h : x.Aside P y) : y.part P =
    { x.part P with
      table := { (x.part P).table with
        nextTicket := y.table.nextTicket
        nextSerial := y.table.nextSerial } } := by
  obtain ⟨⟨hready, hwaiting, hresolved, hheld, hbroken⟩, hcalls, ⟨hcursors, hnext⟩⟩ := h
  simp only [Exchange.part, Table.part, hready, hwaiting, hresolved, hheld, hbroken, hcalls,
    hcursors, hnext]

/-- Calls of one key come and go beside those of another. -/
theorem Recalls.aside (h : x.Recalls o j y) (hne : j ≠ k) :
    y.calls.only (o.on k).call = x.calls.only (o.on k).call := by
  have apart : ∀ handle, o.number handle = j → decide (o.number handle = k) = false := by
    rintro handle rfl
    simpa using hne
  cases h with
  | same heq => rw [heq]
  | ended handle hhandle heq => rw [heq, Handles.only_erase_of_not (apart handle hhandle)]
  | begun handle ticket fired deadline hhandle hticket hlt heq =>
    rw [heq, Handles.only_insert, Owners.on_call, apart handle hhandle]
    rfl

/-- **A move on one key leaves what belongs to another as it is.** -/
theorem OwnedBy.aside (h : x.OwnedBy o) (hnew : o.Gives x.table j) (hnamed : move.Named o.number)
    (hkey : move.key? o.number = some j) (hne : j ≠ k) (now : ℕ) (deadline : Option ℕ) :
    x.Aside (o.on k) (x.act now deadline move).2 where
  table := h.table.aside_turns hnew.serial hne
    (turns_act (fun i hi => by simpa using hnew.ticket i hi) (h.minds hnamed hkey) now deadline)
  calls := (h.recalls hnew hnamed hkey now deadline).aside hne
  same := h.sameCursors (by simp [hkey]) now deadline

end Exchange

end FramedDuplex
