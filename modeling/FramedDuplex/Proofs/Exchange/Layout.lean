import FramedDuplex.Proofs.Exchange.Represents
/-!
# The layout of the table along a run

The slots go through a run by the same deeds as the table of the exchange
(`SlotTable.perform`) and represent it at every point. So what is true of the table
is true of the slots and the order, which no single operation keeps in line by
itself (`SlotTable.WellKept`): the order is of the ready keys, each once, as they
became ready last (`SlotTable.InTurn`), nobody is listed twice or in the wrong slot,
and the two counts count what they say.
-/

namespace FramedDuplex

variable {κ α : Type} [DecidableEq κ] {b : Board κ α} {d : Deed κ α} {p q : List (Deed κ α)}

namespace SlotTable

variable {s : SlotTable κ (Letter κ α)} {callers : List (κ × ℕ)} {key : κ}
variable {t : Table κ (Letter κ α)}

/-! ## Deeds on the slots -/

/-- The slots after a deed. What is taken is what the slots have. -/
def perform (s : SlotTable κ (Letter κ α)) : Deed κ α → SlotTable κ (Letter κ α)
  | .bring message => (s.deliver message.key [message]).1
  | .fail reason => (s.fail reason).2
  | .enter key => (s.register key).2
  | .leave key ticket => (s.unregister key ticket).1
  | .claim key _ handle =>
    match s.takeReady key with
    | (some items, u) => u.holdNew handle items
    | (none, u) => u
  | .take .. => s.takeNext.2
  | .collect _ ticket _ handle => s.collect ticket handle
  | .hold handle items => s.holdNew handle items
  | .lend copy batch => { s with held := s.held.insert copy batch }
  | .release handle => { s with held := s.held.erase handle }

/-- The slots after a journal. -/
def after (s : SlotTable κ (Letter κ α)) (journal : List (Deed κ α)) : SlotTable κ (Letter κ α) :=
  journal.foldl perform s

/-- Items become a batch in somebody's hands. -/
theorem Represents.holdNew (h : s.Represents t callers) (handle : ℕ) (items : List (Letter κ α)) :
    (s.holdNew handle items).Represents (t.holdNew handle items) callers := by
  refine ⟨h.slots, h.order, h.channels, h.distinct, ?_, h.broken, h.nextTicket, ?_⟩
  · simp only [SlotTable.holdNew, Table.holdNew, h.held, h.nextSerial]
  · simp only [SlotTable.holdNew, Table.holdNew, h.nextSerial]

/-- **A deed does to the slots what it does to the table.** -/
theorem Represents.perform (h : s.Represents b.table b.callers) (hb : b.Sound)
    (hmet : Met b.table b.callers) (hd : b.Allows d) (hw : b.Warrants d) :
    (s.perform d).Represents (b.perform d).table (b.perform d).callers := by
  cases d with
  | bring message => exact (h.deliver hb.manned message.key [message]).1
  | fail reason => exact (h.fail hb.manned hmet reason).2
  | enter key => exact (h.register hb.manned hw.1).2
  | leave key ticket => exact (h.unregister hb.tidy hb.manned hmet hd).1
  | claim key items handle =>
    obtain ⟨hitems, htaken⟩ := h.takeReady hb.tidy hmet key
    rw [hd] at hitems
    have hpair : s.takeReady key = (some items, (s.takeReady key).2) := Prod.ext hitems rfl
    rw [SlotTable.perform, hpair]
    exact htaken.holdNew handle items
  | take key items => exact (h.takeNext hb.tidy hmet).2
  | collect key ticket batch handle => exact h.collect hd.1 hd.2 handle
  | hold handle items => exact h.holdNew handle items
  | lend copy batch =>
    exact ⟨h.slots, h.order, h.channels, h.distinct, congrArg (·.insert copy batch) h.held,
      h.broken, h.nextTicket, h.nextSerial⟩
  | release handle =>
    exact ⟨h.slots, h.order, h.channels, h.distinct, congrArg (·.erase handle) h.held, h.broken,
      h.nextTicket, h.nextSerial⟩

/-- **The slots represent the table** at every point of a journal. -/
theorem Represents.after (h : s.Represents b.table b.callers) (hb : b.Sound)
    (hmet : Met b.table b.callers) (hq : b.Permits q) (hw : b.Each Board.Warrants q) :
    (s.after q).Represents (b.after q).table (b.after q).callers := by
  induction q generalizing b s with
  | nil => exact h
  | cons d rest ih =>
    exact ih (h.perform hb hmet hq.1 hw.1) (hb.perform hq.1)
      (Board.met_perform hmet hb hq.1 hw.1) hq.2 hw.2

theorem represents_after (hq : (Board.empty : Board κ α).Permits q)
    (hw : (Board.empty : Board κ α).Each Board.Warrants q) :
    ((SlotTable.empty : SlotTable κ (Letter κ α)).after q).Represents
      ((Board.empty : Board κ α).after q).table ((Board.empty : Board κ α).after q).callers :=
  Represents.empty.after Board.Sound.empty Met.empty hq hw

/-! ## The order of the ready keys -/

/-- A key has answers ready. -/
def Ready {β : Type} (s : SlotTable κ β) (key : κ) : Prop :=
  ∃ items, s.slots.lookup key = some (.ready items)

theorem Represents.ready_iff (h : s.Represents t callers) : s.Ready key ↔ key ∈ s.order := by
  have hkeys : key ∈ t.ready.map (·.1) ↔ t.readyAt? key ≠ none := by
    rw [Ne, Table.readyAt?_eq_none_iff, not_not]
  rw [h.order, hkeys, Option.ne_none_iff_exists']
  simp only [Ready, h.slots, Table.slot?_eq_ready_iff]

/-- A key became ready with the deed that comes after the first `n` of a journal,
and has been ready since. -/
def ReadySince (journal : List (Deed κ α)) (key : κ) (n : ℕ) : Prop :=
  n < journal.length ∧ ¬ (empty.after (journal.take n)).Ready key ∧
    ∀ m, n < m → m ≤ journal.length → (empty.after (journal.take m)).Ready key

/-- **Keys are in the order in which they became ready last.** -/
def InTurn (journal : List (Deed κ α)) : Prop :=
  (∀ key ∈ (empty.after journal).order, ∃ n, ReadySince journal key n) ∧
    (empty.after journal).order.Pairwise fun key other =>
      ∀ n m, ReadySince journal key n → ReadySince journal other m → n < m

/-- A key that stays ready has been ready for as long. -/
theorem ReadySince.concat {n : ℕ} (h : ReadySince p key n)
    (hready : (empty.after (p ++ [d])).Ready key) : ReadySince (p ++ [d]) key n := by
  obtain ⟨hlt, hnot, hsince⟩ := h
  refine ⟨by simp; omega, ?_, fun m hnm hm => ?_⟩
  · rwa [List.take_append_of_le_length (by omega)]
  · rcases Nat.lt_or_ge p.length m with hlong | hshort
    · rwa [List.take_of_length_le (by simp; omega)]
    · rw [List.take_append_of_le_length hshort]
      exact hsince m hnm hshort

/-- A key that was ready already has been for as long as before. -/
theorem ReadySince.of_concat {n : ℕ} (h : ReadySince (p ++ [d]) key n)
    (hready : (empty.after p).Ready key) : ReadySince p key n := by
  obtain ⟨hlt, hnot, hsince⟩ := h
  rw [List.length_append, List.length_singleton] at hlt hsince
  have hn : n < p.length := by
    by_contra hge
    obtain rfl : n = p.length := by omega
    rw [List.take_left'  rfl] at hnot
    exact hnot hready
  refine ⟨hn, ?_, fun m hnm hm => ?_⟩
  · rwa [List.take_append_of_le_length (by omega)] at hnot
  · have := hsince m hnm (by omega)
    rwa [List.take_append_of_le_length hm] at this

/-- A key that was not ready is ready since the last deed. -/
theorem readySince_concat_of_not_ready (hnot : ¬ (empty.after p).Ready key)
    (hready : (empty.after (p ++ [d])).Ready key) {n : ℕ} :
    ReadySince (p ++ [d]) key n ↔ n = p.length := by
  constructor
  · rintro ⟨hlt, -, hsince⟩
    by_contra hne
    rw [List.length_append, List.length_singleton] at hlt hsince
    have := hsince p.length (by omega) (by omega)
    rw [List.take_left' rfl] at this
    exact hnot this
  · rintro rfl
    refine ⟨by simp, ?_, fun m hm hle => ?_⟩
    · rwa [List.take_left' rfl]
    · rwa [List.take_of_length_le (by simp; omega)]

end SlotTable

/-- An arrival makes its key ready or none. -/
theorem Table.keys_put (t : Table κ α) (f : List α → List α) (key : κ) (items : List α) :
    (t.put f key items).ready.map (·.1) = t.ready.map (·.1) ∨
      key ∉ t.ready.map (·.1) ∧
        (t.put f key items).ready.map (·.1) = t.ready.map (·.1) ++ [key] := by
  rcases t.put_cases f key items with ⟨old, -, he⟩ | ⟨hnone, -, he⟩ | ⟨-, -, he⟩ <;> rw [he]
  · exact .inl (by simp [changeReady, Function.comp_def])
  · exact .inr ⟨readyAt?_eq_none_iff.mp hnone, by simp [start]⟩
  · exact .inl rfl

/-- **A deed takes keys out of the order or adds one at the end.** -/
theorem Board.keys_perform (b : Board κ α) (d : Deed κ α) :
    ((b.perform d).table.ready.map (·.1)).Sublist (b.table.ready.map (·.1)) ∨
      ∃ key, key ∉ b.table.ready.map (·.1) ∧
        (b.perform d).table.ready.map (·.1) = b.table.ready.map (·.1) ++ [key] := by
  cases d with
  | bring message =>
    rw [perform, Table.deliver_eq_put]
    rcases b.table.keys_put (· ++ [message]) message.key [message] with hsame | hnew
    · exact .inl (hsame ▸ List.Sublist.refl _)
    · exact .inr ⟨_, hnew⟩
  | leave key ticket =>
    rw [perform]
    rcases b.table.leave_cases key ticket with ⟨he, -⟩ | ⟨batch, -, -, he⟩ <;> rw [he]
    · exact .inl (List.Sublist.refl _)
    · rcases (b.table.forget ticket).keys_put (batch.items ++ ·) key batch.items with hsame | hnew
      · exact .inl (hsame ▸ List.Sublist.refl _)
      · exact .inr ⟨_, hnew⟩
  | claim key items handle => exact .inl (List.filter_sublist.map _)
  | take key items =>
    rw [perform, Table.takeNext_snd]
    exact .inl ((List.tail_sublist _).map _)
  | fail reason => exact .inl (List.Sublist.refl _)
  | enter key => exact .inl (List.Sublist.refl _)
  | collect key ticket batch handle => exact .inl (List.Sublist.refl _)
  | hold handle items => exact .inl (List.Sublist.refl _)
  | lend copy batch => exact .inl (List.Sublist.refl _)
  | release handle => exact .inl (List.Sublist.refl _)

namespace SlotTable

variable {s : SlotTable κ (Letter κ α)} {callers : List (κ × ℕ)} {key : κ}
variable {t : Table κ (Letter κ α)}

/-- **The order is kept by every journal**: a deed leaves the keys that stay in
turn, and a key that it makes ready comes last. -/
theorem inTurn_after (hq : (Board.empty : Board κ α).Permits q)
    (hw : (Board.empty : Board κ α).Each Board.Warrants q) : InTurn q := by
  induction q using List.reverseRecOn with
  | nil => exact ⟨fun key h => by simp [after, empty] at h, List.Pairwise.nil⟩
  | append_singleton p d ih =>
    have hp := (Board.permits_append.mp hq).1
    have hwp := (Board.each_append.mp hw).1
    obtain ⟨hsince, hpairs⟩ := ih hp hwp
    have before := represents_after hp hwp
    have now := represents_after hq hw
    have stays : ∀ {key}, key ∈ (empty.after p).order → key ∈ (empty.after (p ++ [d])).order →
        ∃ n, ReadySince (p ++ [d]) key n := by
      intro key hold hstill
      obtain ⟨n, hn⟩ := hsince key hold
      exact ⟨n, hn.concat (now.ready_iff.mpr hstill)⟩
    have horder := now.order
    rw [Board.after_concat] at horder
    rcases Board.keys_perform ((Board.empty : Board κ α).after p) d with hsub | ⟨key, hnew, hadd⟩
    · rw [← before.order, ← horder] at hsub
      refine ⟨fun key hkey => stays (hsub.subset hkey) hkey,
        (hpairs.sublist hsub).imp_of_mem fun {key other} hkey hother hlt n m hn hm => ?_⟩
      exact hlt n m (hn.of_concat (before.ready_iff.mpr (hsub.subset hkey)))
        (hm.of_concat (before.ready_iff.mpr (hsub.subset hother)))
    · rw [← before.order] at hnew
      rw [← before.order, ← horder] at hadd
      have hlast : ∀ {n}, ReadySince (p ++ [d]) key n ↔ n = p.length :=
        readySince_concat_of_not_ready (mt before.ready_iff.mp hnew)
          (now.ready_iff.mpr (by rw [hadd]; simp))
      rw [InTurn, hadd]
      refine ⟨fun k hk => ?_, List.pairwise_append.mpr ⟨?_, List.pairwise_singleton _ _, ?_⟩⟩
      · rcases List.mem_append.mp hk with hold | hk
        · exact stays hold (hadd ▸ hk)
        · obtain rfl := List.mem_singleton.mp hk
          exact ⟨_, hlast.mpr rfl⟩
      · refine hpairs.imp_of_mem fun {k other} hk hother hlt n m hn hm => ?_
        exact hlt n m (hn.of_concat (before.ready_iff.mpr hk))
          (hm.of_concat (before.ready_iff.mpr hother))
      -- an old key has been ready since before the last deed
      · intro k hk other hother n m hn hm
        obtain rfl := List.mem_singleton.mp hother
        rw [hlast] at hm
        have := (hn.of_concat (before.ready_iff.mpr hk)).1
        omega

/-! ## The representation invariant -/

/-- So many keys have a property. -/
def CountsKeys (n : ℕ) (P : κ → Prop) : Prop :=
  ∃ keys : List κ, keys.Nodup ∧ keys.length = n ∧ ∀ key, key ∈ keys ↔ P key

namespace CountsKeys

variable {n m : ℕ} {P Q : κ → Prop}

omit [DecidableEq κ] in
theorem congr (h : CountsKeys n P) (hiff : ∀ key, P key ↔ Q key) : CountsKeys n Q := by
  obtain ⟨keys, hnodup, hlength, hmem⟩ := h
  exact ⟨keys, hnodup, hlength, fun key => (hmem key).trans (hiff key)⟩

omit [DecidableEq κ] in
theorem unique (h : CountsKeys n P) (h' : CountsKeys m P) : n = m := by
  obtain ⟨keys, hnodup, rfl, hmem⟩ := h
  obtain ⟨keys', hnodup', rfl, hmem'⟩ := h'
  refine ((List.perm_ext_iff_of_nodup hnodup hnodup').mpr fun key => ?_).length_eq
  rw [hmem, hmem']

end CountsKeys

/-- The slots with callers are counted. -/
theorem countsKeys_pendingCount (s : SlotTable κ (Letter κ α)) :
    CountsKeys s.pendingCount fun key => ∃ tickets, s.slots.lookup key = some (.waiting tickets) := by
  refine ⟨(s.slots.entries.filter fun e => !e.2.isReady).map (·.1), ?_, ?_, fun key => ?_⟩
  · exact List.Nodup.sublist (List.filter_sublist.map _) s.slots.nodupKeys
  · rw [List.length_map, ← List.countP_eq_length_filter]
    rfl
  · simp only [List.mem_map, List.mem_filter]
    constructor
    · rintro ⟨⟨k, slot⟩, ⟨he, hslot⟩, rfl⟩
      cases slot with
      | ready items => simp [Slot.isReady] at hslot
      | waiting tickets => exact ⟨tickets, AList.mem_lookup_iff.mpr he⟩
    · rintro ⟨tickets, hslot⟩
      exact ⟨⟨key, .waiting tickets⟩, ⟨AList.mem_lookup_iff.mp hslot, rfl⟩, rfl⟩

/-- Erasing duplicates leaves none. -/
theorem nodup_eraseDups : ∀ keys : List κ, keys.eraseDups.Nodup
  | [] => List.nodup_nil
  | key :: rest => by
    rw [List.eraseDups_cons]
    refine List.nodup_cons.mpr ⟨?_, nodup_eraseDups _⟩
    simp [List.mem_eraseDups]
termination_by keys => keys.length
decreasing_by
  exact Nat.lt_succ_of_le (List.length_filter_le _ _)

/-- The keys that somebody waits on are counted in the table too. -/
theorem countsKeys_pendingCount_table (t : Table κ α) :
    CountsKeys t.pendingCount fun key => ∃ ticket, t.Waits key ticket := by
  refine ⟨_, nodup_eraseDups _, rfl, fun key => ?_⟩
  simp [Table.Waits]

/-- **Slots and order are in line with each other and with the calls.** -/
structure WellKept (s : SlotTable κ (Letter κ α)) (x : Exchange κ (Letter κ α)) : Prop where
  nodup_order : s.order.Nodup
  mem_order : ∀ key, key ∈ s.order ↔ s.Ready key
  /-- The key that has been ready longest is taken, and none is skipped. -/
  oldest : ∀ key rest, s.order = key :: rest → ∃ items,
    s.slots.lookup key = some (.ready items) ∧
      s.takeNext = (some (key, items), { s with slots := s.slots.erase key, order := rest })
  nothing : s.order = [] → s.takeNext = (none, s)
  ready : ∀ key items, s.slots.lookup key = some (.ready items) → items ≠ []
  waiting : ∀ key tickets, s.slots.lookup key = some (.waiting tickets) → tickets ≠ []
  nodup_listed : s.listed.Nodup
  early : ∀ ticket ∈ s.listed, ticket < s.nextTicket
  /-- A live call that was told nothing is in the slot of its key, and nowhere
  else. -/
  calls : ∀ handle key ticket, x.Unanswered handle key ticket →
    (∃ tickets, s.slots.lookup key = some (.waiting tickets) ∧ ticket ∈ tickets) ∧
      s.listed.count ticket = 1
  /-- Nobody else is in a slot. -/
  callers : ∀ key tickets ticket, s.slots.lookup key = some (.waiting tickets) →
    ticket ∈ tickets → ∃ handle, x.Unanswered handle key ticket
  closed : s.broken.isSome → ∀ key tickets, s.slots.lookup key ≠ some (.waiting tickets)
  readyCount : CountsKeys s.readyCount s.Ready
  pendingCount : CountsKeys s.pendingCount fun key => ∃ handle ticket, x.Unanswered handle key ticket

theorem Represents.wellKept {x : Exchange κ (Letter κ α)} (h : s.Represents b.table b.callers)
    (hb : b.Sound) (hmet : Met b.table b.callers) (hfollows : b.Follows x) : s.WellKept x := by
  have waits : ∀ {key ticket}, b.table.Waits key ticket ↔ ∃ handle, x.Unanswered handle key ticket :=
    Exchange.waits_iff_unanswered hb hfollows hmet
  have ready : ∀ {key items}, s.slots.lookup key = some (.ready items) ↔
      b.table.readyAt? key = some items := fun {key items} => by
    rw [h.slots, Table.slot?_eq_ready_iff]
  have waiting : ∀ {key tickets}, s.slots.lookup key = some (.waiting tickets) ↔
      b.table.readyAt? key = none ∧ b.table.waitingOn key = tickets ∧ tickets ≠ [] :=
    fun {key tickets} => by rw [h.slots, Table.slot?_eq_waiting_iff]
  have nodup := h.nodup_listed hmet
  exact {
    nodup_order := h.order ▸ hb.tidy.ready
    mem_order := fun key => h.ready_iff.symm
    oldest := by
      intro key rest horder
      obtain ⟨items, hslot⟩ := h.ready_iff.mpr (horder ▸ List.mem_cons_self ..)
      exact ⟨items, hslot, takeNext_of_ready horder hslot⟩
    nothing := takeNext_of_nil
    ready := fun key items hslot => (hb.placed.plain.1 key items (ready.mp hslot)).2
    waiting := fun key tickets hslot => (waiting.mp hslot).2.2
    nodup_listed := nodup
    early := by
      intro ticket hin
      obtain ⟨⟨key, _⟩, hw, rfl⟩ := List.mem_map.mp ((h.mem_listed_iff hmet).mp hin)
      rw [h.nextTicket]
      exact hb.manned.early key _ (hb.manned.waits key _ hw)
    calls := by
      intro handle key ticket hcall
      have hw : b.table.Waits key ticket := waits.mpr ⟨handle, hcall⟩
      have hin := Table.mem_waitingOn.mpr hw
      have hslot : s.slots.lookup key = some (.waiting (b.table.waitingOn key)) :=
        waiting.mpr ⟨hmet.apart key ticket hw, rfl, List.ne_nil_of_mem hin⟩
      exact ⟨⟨_, hslot, hin⟩, List.count_eq_one_of_mem nodup (mem_listed.mpr ⟨key, _, hslot, hin⟩)⟩
    callers := by
      intro key tickets ticket hslot hin
      obtain ⟨-, rfl, -⟩ := waiting.mp hslot
      exact waits.mp (Table.mem_waitingOn.mp hin)
    closed := by
      intro hover key tickets hslot
      obtain ⟨-, hwaiting, hne⟩ := waiting.mp hslot
      rw [h.broken] at hover
      refine hne ?_
      rw [← hwaiting, Table.waitingOn, hmet.closed hover]
      rfl
    readyCount := ⟨s.order, h.order ▸ hb.tidy.ready, rfl, fun key => h.ready_iff.symm⟩
    pendingCount := by
      refine (countsKeys_pendingCount s).congr fun key => ?_
      constructor
      · rintro ⟨tickets, hslot⟩
        obtain ⟨-, rfl, hne⟩ := waiting.mp hslot
        obtain ⟨ticket, hin⟩ := List.exists_mem_of_ne_nil _ hne
        obtain ⟨handle, hcall⟩ := waits.mp (Table.mem_waitingOn.mp hin)
        exact ⟨handle, ticket, hcall⟩
      · rintro ⟨handle, ticket, hcall⟩
        have hw : b.table.Waits key ticket := waits.mpr ⟨handle, hcall⟩
        have hin := Table.mem_waitingOn.mpr hw
        exact ⟨_, waiting.mpr ⟨hmet.apart key ticket hw, rfl, List.ne_nil_of_mem hin⟩⟩ }

end SlotTable

namespace Exchange

/-- The slots after a run from the beginning. -/
def slotsAfter (events : List (Event κ α)) : SlotTable κ (Letter κ α) :=
  SlotTable.empty.after (journal empty (stamped events))

/-- **The representation invariant.** After every run the slots and the order
represent the table of the exchange, whose callers are the calls that wait for a
key; they are in line with each other and with those calls; the keys are in the
order in which they became ready last; and the table's two counts are theirs. -/
theorem wellKept_slotsAfter (events : List (Event κ α)) :
    (∃ callers, (∀ key ticket, (key, ticket) ∈ callers ↔
        ∃ handle, (stateAfter events).ticketAt handle = some (key, ticket)) ∧
      (slotsAfter events).Represents (stateAfter events).table callers) ∧
    (slotsAfter events).WellKept (stateAfter events) ∧
    SlotTable.InTurn (journal empty (stamped events)) ∧
    (stateAfter events).table.readyCount = (slotsAfter events).readyCount ∧
    (stateAfter events).table.pendingCount = (slotsAfter events).pendingCount := by
  have sound := sound_boardAfter events
  have met := met_boardAfter events
  have follows : (boardAfter events).Follows (stateAfter events) := follows_boardAfter events
  have permits := permits_journal events
  have warrants := warrants_journal events
  have represents : (slotsAfter events).Represents (boardAfter events).table
    (boardAfter events).callers := SlotTable.represents_after permits warrants
  have kept := represents.wellKept sound met follows
  refine ⟨⟨_, follows.callers, follows.table ▸ represents⟩, kept,
    SlotTable.inTurn_after permits warrants, ?_, ?_⟩ <;> rw [← follows.table]
  · rw [Table.readyCount, SlotTable.readyCount, represents.order, List.length_map]
  · refine (SlotTable.countsKeys_pendingCount_table _).unique (kept.pendingCount.congr fun key => ?_)
    simp only [waits_iff_unanswered sound follows met]
    exact exists_comm

/-- A key that was taken and became ready again comes behind one that stayed
ready; a caller waits on a third. -/
example :
    let s := slotsAfter [.deliver 0 10, .deliver 1 20, .move 0 none (.receive 1 0 none),
      .move 0 none (.receive 2 2 none), .deliver 0 11]
    s.order = [1, 0] ∧ s.listed = [0] ∧ s.readyCount = 2 ∧ s.pendingCount = 1 := by
  decide

end Exchange

end FramedDuplex
