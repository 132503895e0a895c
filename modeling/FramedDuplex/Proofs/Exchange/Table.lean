import FramedDuplex.Exchange.Table
import FramedDuplex.Proofs.Handles
import Mathlib.Data.List.Perm.Basic
/-!
# What the table's operations change

Each operation on the table is described by what it does to four things that
can be asked: which answers are ready under a key (`Table.readyAt?`), who waits
(`Table.Waits`), who was told to collect which batch (`Table.Sent`), and which
batches are held. Everything proved later speaks of these four.

Answers arrive in two ways, brought or put back, and both are one operation
here (`Table.put`): it differs only in the end at which answers are joined to
those that are ready. A caller that goes is the second thing to know
(`Table.leave_cases`).
-/

namespace FramedDuplex

namespace Table

variable {κ α : Type} {t : Table κ α} {f : List α → List α}
variable {key other : κ} {items : List α} {ticket handle serial : ℕ} {batch : Batch α}

/-- A caller waits on a key. -/
def Waits (t : Table κ α) (key : κ) (ticket : ℕ) : Prop :=
  (key, ticket) ∈ t.waiting

/-- A caller was told to collect a batch and has not. -/
def Sent (t : Table κ α) (ticket : ℕ) (batch : Batch α) : Prop :=
  t.resolved.find? ticket = some (.batch batch)

/-- Nobody who waits was told anything. -/
def Untold (t : Table κ α) : Prop :=
  ∀ key ticket, t.Waits key ticket → t.resolved.find? ticket = none

/-- Nothing has two entries: no key among those that are ready, and no number
among those that name something. -/
structure Tidy (t : Table κ α) : Prop where
  ready : (t.ready.map (·.1)).Nodup
  resolved : t.resolved.Distinct
  held : t.held.Distinct

/-- One caller is told one thing. -/
theorem Sent.unique {a b : Batch α} (ha : t.Sent ticket a) (hb : t.Sent ticket b) : a = b := by
  have := ha.symm.trans hb
  simpa using this

/-! ## Nothing yet -/

theorem not_sent_empty : ¬ (empty : Table κ α).Sent ticket batch := by
  simp [Sent, empty]

theorem not_waits_empty : ¬ (empty : Table κ α).Waits key ticket := by
  simp [Waits, empty]

theorem tidy_empty : (empty : Table κ α).Tidy :=
  ⟨List.nodup_nil, Handles.distinct_empty, Handles.distinct_empty⟩

/-! ## Without a caller -/

/-- The table without a caller. -/
def forget (t : Table κ α) (ticket : ℕ) : Table κ α :=
  { t with
    waiting := t.waiting.filter (·.2 ≠ ticket)
    resolved := t.resolved.erase ticket }

theorem waits_forget {other : ℕ} :
    (t.forget ticket).Waits key other ↔ t.Waits key other ∧ other ≠ ticket := by
  simp [forget, Waits]

theorem sent_forget {other : ℕ} :
    (t.forget ticket).Sent other batch ↔ t.Sent other batch ∧ other ≠ ticket := by
  simp only [forget, Sent, Handles.find?_erase]
  by_cases he : other = ticket
  · simp [he]
  · simp [he]

theorem Tidy.forget (h : t.Tidy) (ticket : ℕ) : (t.forget ticket).Tidy :=
  ⟨h.ready, h.resolved.erase ticket, h.held⟩

/-- **Nobody has a share of a batch** exactly if nobody is to collect it and
nobody holds it. -/
theorem shares_eq_zero_iff (h : t.Tidy) : t.shares serial = 0 ↔
    (∀ ticket batch, t.Sent ticket batch → batch.serial ≠ serial) ∧
      ∀ handle batch, t.held.find? handle = some batch → batch.serial ≠ serial := by
  simp only [shares, Nat.add_eq_zero_iff, List.countP_eq_zero, List.mem_filterMap,
    decide_eq_true_eq, Handles.mem_things_iff h.resolved, Handles.mem_things_iff h.held]
  -- those who will collect are counted among all who were told something
  refine and_congr ⟨fun hs ticket batch hsent => ?_, ?_⟩ ⟨fun hh n b hb => hh b ⟨n, hb⟩, ?_⟩
  · exact hs batch ⟨.batch batch, ⟨ticket, hsent⟩, rfl⟩
  · rintro hs batch ⟨told, ⟨ticket, hfind⟩, hbatch⟩
    cases told with
    | broken reason => simp [Resolution.batch?] at hbatch
    | batch b =>
      obtain rfl : b = batch := by simpa [Resolution.batch?] using hbatch
      exact hs ticket b hfind
  · rintro hh b ⟨n, hb⟩
    exact hh n b hb

/-! ## Without a connection -/

variable {reason : BrokenReason}

/-- Those who wait are told the reason. -/
theorem resolved_fail : (t.fail reason).2.resolved =
    (t.waiting.map (·.2)).foldl (·.insert · (.broken reason)) t.resolved := by
  rw [List.foldl_map]
  rfl

/-- **The end of the connection sends nobody a batch**, and takes none away
from those who were told to collect one. -/
theorem sent_fail (free : t.Untold) :
    (t.fail reason).2.Sent ticket batch ↔ t.Sent ticket batch := by
  rw [Sent, Sent, resolved_fail, Handles.find?_foldl_insert]
  split
  · next h =>
    obtain ⟨⟨key, _⟩, hw, rfl⟩ := List.mem_map.mp h
    simp [free key _ hw]
  · rfl

theorem not_waits_fail : ¬ (t.fail reason).2.Waits key ticket := by
  simp [fail, Waits]

theorem Tidy.fail (h : t.Tidy) (reason : BrokenReason) : (t.fail reason).2.Tidy := by
  refine ⟨h.ready, ?_, h.held⟩
  rw [resolved_fail]
  exact h.resolved.foldl_insert _ _

/-! ## What is ready -/

variable [DecidableEq κ]

theorem readyAt?_empty (key : κ) : (empty : Table κ α).readyAt? key = none := rfl

/-- What is ready has an entry. -/
theorem mem_ready_of_readyAt? (h : t.readyAt? key = some items) : (key, items) ∈ t.ready := by
  obtain ⟨⟨k, _⟩, he, rfl⟩ := Option.map_eq_some_iff.mp h
  have hk : k = key := by simpa using List.find?_some he
  exact hk ▸ List.mem_of_find?_eq_some he

/-- Nothing is ready under a key exactly if the key has no entry. -/
theorem readyAt?_eq_none_iff : t.readyAt? key = none ↔ key ∉ t.ready.map (·.1) := by
  simp only [readyAt?, Option.map_eq_none_iff, List.find?_eq_none, List.mem_map, not_exists]
  simp

/-- An entry is ready, where no key has two. -/
theorem readyAt?_of_mem (h : t.Tidy) (hmem : (key, items) ∈ t.ready) :
    t.readyAt? key = some items := by
  cases hr : t.readyAt? key with
  | none => exact absurd (List.mem_map_of_mem hmem) (readyAt?_eq_none_iff.mp hr)
  | some found =>
    have := List.inj_on_of_nodup_map h.ready (mem_ready_of_readyAt? hr) hmem rfl
    rw [(Prod.mk.inj this).2]

theorem readyAt?_changeReady : (t.changeReady key f).readyAt? other =
    if other = key then (t.readyAt? key).map f else t.readyAt? other := by
  simp only [readyAt?, changeReady, List.find?_map, Function.comp_def, Option.map_map]
  by_cases ho : other = key
  · subst ho
    rw [if_pos rfl]
    cases hr : t.ready.find? (·.1 = other) with
    | none => rfl
    | some e =>
      have he : e.1 = other := by simpa using List.find?_some hr
      simp [he]
  · rw [if_neg ho]
    cases hr : t.ready.find? (·.1 = other) with
    | none => rfl
    | some e =>
      have he : e.1 = other := by simpa using List.find?_some hr
      simp [he, ho]

theorem readyAt?_takeReady : (t.takeReady key).readyAt? other =
    if other = key then none else t.readyAt? other := by
  simp only [readyAt?, takeReady, List.find?_filter]
  by_cases ho : other = key
  · subst ho
    simp
  · rw [if_neg ho]
    congr 2
    funext e
    by_cases he : e.1 = other
    · simp [he, ho]
    · simp [he]

omit [DecidableEq κ] in
/-- Taking what has been ready longest changes nothing but what is ready. -/
theorem takeNext_snd (t : Table κ α) : t.takeNext.2 = { t with ready := t.ready.tail } := by
  obtain ⟨ready, waiting, resolved, held, broken, nextTicket, nextSerial⟩ := t
  cases ready <;> rfl

/-- Taking what has been ready longest takes what is ready under its key. -/
theorem readyAt?_takeNext (h : t.Tidy) (hhead : t.ready.head? = some (key, items)) (other : κ) :
    t.takeNext.2.readyAt? other = if other = key then none else t.readyAt? other := by
  obtain ⟨rest, hr⟩ : ∃ rest, t.ready = (key, items) :: rest := by
    cases hl : t.ready with
    | nil => simp [hl] at hhead
    | cons e rest =>
      rw [hl, List.head?_cons, Option.some.injEq] at hhead
      exact ⟨rest, by rw [hhead]⟩
  -- no other entry has the key, so the look-up finds none behind the first
  have hkeys := h.ready
  rw [hr, List.map_cons, List.nodup_cons] at hkeys
  by_cases ho : other = key
  · subst ho
    rw [if_pos rfl, readyAt?_eq_none_iff]
    simpa [takeNext, hr] using hkeys.1
  · have hne : ¬ key = other := fun e => ho e.symm
    simp [readyAt?, takeNext, hr, ho, hne]

/-- `u` is what is left of `t` when what is ready under a key is taken: who waits
and what was sent stays. -/
structure Taken (t u : Table κ α) (key : κ) : Prop where
  ready : ∀ other, u.readyAt? other = if other = key then none else t.readyAt? other
  waiting : u.waiting = t.waiting
  resolved : u.resolved = t.resolved
  nextTicket : u.nextTicket = t.nextTicket

theorem Taken.sent {u : Table κ α} (h : t.Taken u key) : u.Sent ticket batch ↔ t.Sent ticket batch := by
  rw [Sent, h.resolved]
  rfl

theorem taken_takeReady (t : Table κ α) (key : κ) (handle : ℕ) (items : List α) :
    t.Taken ((t.takeReady key).holdNew handle items) key :=
  ⟨fun _ => readyAt?_takeReady, rfl, rfl, rfl⟩

theorem taken_takeNext (h : t.Tidy) (hhead : t.ready.head? = some (key, items)) :
    t.Taken t.takeNext.2 key := by
  refine ⟨readyAt?_takeNext h hhead, ?_, ?_, ?_⟩
  all_goals rw [takeNext_snd]

/-! ## Arrivals -/

theorem mem_waitingOn : ticket ∈ t.waitingOn key ↔ t.Waits key ticket := by
  simp [waitingOn, Waits]

/-- Joining answers to those that are ready loses none and adds no other. -/
def Joins (f : List α → List α) (items : List α) : Prop :=
  ∀ old, (f old).Perm (items ++ old)

theorem joins_back (items : List α) : Joins (· ++ items) items :=
  fun _ => List.perm_append_comm

theorem joins_front (items : List α) : Joins (items ++ ·) items := fun _ => .rfl

theorem Joins.mem (h : Joins f items) {old : List α} {item : α} :
    item ∈ f old ↔ item ∈ items ∨ item ∈ old := by
  rw [(h old).mem_iff, List.mem_append]

/-- A key becomes ready. -/
def start (t : Table κ α) (key : κ) (items : List α) : Table κ α :=
  { t with ready := t.ready ++ [(key, items)] }

/-- Answers arrive under a key and are joined by `f` to those that are ready. -/
def put (t : Table κ α) (f : List α → List α) (key : κ) (items : List α) : Table κ α :=
  if (t.readyAt? key).isSome then t.changeReady key f
  else if (t.waitingOn key).isEmpty then t.start key items
  else t.resolve key items

/-- Answers that are brought are joined at the end. -/
theorem deliver_eq_put (t : Table κ α) (key : κ) (items : List α) :
    (t.deliver key items).1 = t.put (· ++ items) key items := by
  unfold deliver put
  split
  · rfl
  · split <;> rfl

/-- **Answers that are put back are joined in front**, and else arrive like any
others. -/
theorem restore_eq_put (t : Table κ α) (key : κ) (items : List α) :
    (t.restore key items).1 = t.put (items ++ ·) key items := by
  unfold restore
  split
  · next h => rw [put, if_pos h]
  · next h =>
    rw [deliver_eq_put, put, if_neg h, put, if_neg h]

/-- **What an arrival does**: it joins what is ready, or it makes the key ready,
or it answers those who wait. -/
theorem put_cases (t : Table κ α) (f : List α → List α) (key : κ) (items : List α) :
    (∃ old, t.readyAt? key = some old ∧ t.put f key items = t.changeReady key f) ∨
      (t.readyAt? key = none ∧ (∀ ticket, ¬ t.Waits key ticket) ∧
        t.put f key items = t.start key items) ∨
      (t.readyAt? key = none ∧ (∃ ticket, t.Waits key ticket) ∧
        t.put f key items = t.resolve key items) := by
  cases hr : t.readyAt? key with
  | some old => exact .inl ⟨old, rfl, by simp [put, hr]⟩
  | none =>
    cases hw : t.waitingOn key with
    | nil =>
      refine .inr (.inl ⟨rfl, fun ticket h => ?_, by simp [put, hr, hw]⟩)
      have := mem_waitingOn.mpr h
      simp [hw] at this
    | cons ticket rest =>
      refine .inr (.inr ⟨rfl, ⟨ticket, ?_⟩, by simp [put, hr, hw]⟩)
      exact mem_waitingOn.mp (by simp [hw])

theorem readyAt?_start (h : t.readyAt? key = none) : (t.start key items).readyAt? other =
    if other = key then some items else t.readyAt? other := by
  simp only [readyAt?, start, List.find?_append] at h ⊢
  by_cases ho : other = key
  · subst ho
    simp [Option.map_eq_none_iff.mp h]
  · have hne : ¬ key = other := fun e => ho e.symm
    simp [ho, hne]

theorem waits_resolve : (t.resolve key items).Waits other ticket ↔
    t.Waits other ticket ∧ other ≠ key := by
  simp [resolve, Waits]

/-- **Those who wait are told to collect one batch**, which has a new serial
number. -/
theorem find?_resolve : (t.resolve key items).resolved.find? ticket =
    if ticket ∈ t.waitingOn key then some (.batch ⟨t.nextSerial, items⟩)
    else t.resolved.find? ticket :=
  Handles.find?_foldl_insert ..

/-- So, where nobody who waits was told anything before, a batch is to be
collected if it was before or is the new one. -/
theorem sent_resolve (free : t.Untold) :
    (t.resolve key items).Sent ticket batch ↔
      t.Sent ticket batch ∨ (t.Waits key ticket ∧ batch = ⟨t.nextSerial, items⟩) := by
  rw [Sent, find?_resolve]
  split
  · next h =>
    have hnone := free key ticket (mem_waitingOn.mp h)
    constructor
    · intro he
      obtain rfl : (⟨t.nextSerial, items⟩ : Batch α) = batch := by simpa using he
      exact .inr ⟨mem_waitingOn.mp h, rfl⟩
    · rintro (hsent | ⟨-, rfl⟩)
      · simp [Sent, hnone] at hsent
      · rfl
  · next h =>
    constructor
    · exact .inl
    · rintro (hsent | ⟨hw, -⟩)
      · exact hsent
      · exact absurd (mem_waitingOn.mpr hw) h

/-- An arrival sends one new batch at most, and sends it to those who wait. -/
theorem sent_of_put (free : t.Untold)
    (h : (t.put f key items).Sent ticket batch) :
    t.Sent ticket batch ∨ (t.Waits key ticket ∧ batch = ⟨t.nextSerial, items⟩) := by
  rcases put_cases t f key items with ⟨old, -, he⟩ | ⟨-, -, he⟩ | ⟨-, -, he⟩ <;> rw [he] at h
  · exact .inl h
  · exact .inl h
  · exact (sent_resolve free).mp h

theorem waits_of_put (h : (t.put f key items).Waits other ticket) : t.Waits other ticket := by
  rcases put_cases t f key items with ⟨old, -, he⟩ | ⟨-, -, he⟩ | ⟨-, -, he⟩ <;> rw [he] at h
  · exact h
  · exact h
  · exact (waits_resolve.mp h).1

theorem nextTicket_put : (t.put f key items).nextTicket = t.nextTicket := by
  rcases put_cases t f key items with ⟨old, -, he⟩ | ⟨-, -, he⟩ | ⟨-, -, he⟩ <;> rw [he] <;> rfl

theorem Tidy.put (h : t.Tidy) (f : List α → List α) (key : κ) (items : List α) :
    (t.put f key items).Tidy := by
  rcases put_cases t f key items with ⟨old, -, he⟩ | ⟨hnone, -, he⟩ | ⟨-, -, he⟩ <;> rw [he]
  · refine ⟨?_, h.resolved, h.held⟩
    simpa [changeReady, Function.comp_def] using h.ready
  · refine ⟨?_, h.resolved, h.held⟩
    rw [start, List.map_append]
    exact List.Nodup.append h.ready (by simp) (by simpa using readyAt?_eq_none_iff.mp hnone)
  · exact ⟨h.ready, h.resolved.foldl_insert _ _, h.held⟩

/-! ## Departures -/

omit [DecidableEq κ] in
theorem bind_batch?_eq_some :
    (t.resolved.find? ticket).bind (·.batch?) = some batch ↔ t.Sent ticket batch := by
  rw [Sent]
  cases t.resolved.find? ticket with
  | none => simp
  | some told => cases told <;> simp [Resolution.batch?]

theorem leave_eq (t : Table κ α) (key : κ) (ticket : ℕ) :
    t.leave key ticket =
      match (t.resolved.find? ticket).bind (·.batch?) with
      | none => (t.forget ticket, false)
      | some batch =>
        if (t.forget ticket).shares batch.serial = 0 then
          (t.forget ticket).restore key batch.items
        else
          (t.forget ticket, false) := rfl

/-- **What a departure does.** A caller that was sent a batch which nobody else
has a share of puts it back; any other just goes. -/
theorem leave_cases (t : Table κ α) (key : κ) (ticket : ℕ) :
    ((t.leave key ticket).1 = t.forget ticket ∧
      ∀ batch, t.Sent ticket batch → (t.forget ticket).shares batch.serial ≠ 0) ∨
    ∃ batch, t.Sent ticket batch ∧ (t.forget ticket).shares batch.serial = 0 ∧
      (t.leave key ticket).1 = (t.forget ticket).put (batch.items ++ ·) key batch.items := by
  rw [leave_eq]
  cases hres : t.resolved.find? ticket with
  | none => exact .inl ⟨rfl, fun batch h => by simp [Sent, hres] at h⟩
  | some told =>
    cases told with
    | broken reason => exact .inl ⟨rfl, fun batch h => by simp [Sent, hres] at h⟩
    | batch b =>
      by_cases hs : (t.forget ticket).shares b.serial = 0
      · refine .inr ⟨b, hres, hs, ?_⟩
        rw [← restore_eq_put]
        exact congrArg Prod.fst (if_pos hs)
      · refine .inl ⟨congrArg Prod.fst (if_neg hs), fun batch h => ?_⟩
        rwa [h.unique hres]

/-- The second of the two ways. -/
theorem leave_of_shares (key : κ) (hsent : t.Sent ticket batch)
    (hshares : (t.forget ticket).shares batch.serial = 0) :
    (t.leave key ticket).1 = (t.forget ticket).put (batch.items ++ ·) key batch.items := by
  rcases t.leave_cases key ticket with ⟨-, hothers⟩ | ⟨c, hc, -, he⟩
  · exact absurd hshares (hothers batch hsent)
  · obtain rfl := hc.unique hsent
    exact he

end Table

end FramedDuplex
