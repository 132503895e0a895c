import FramedDuplex.Proofs.Exchange.Met
import FramedDuplex.Proofs.Exchange.Slots
/-!
# The slots represent the table

The table in slots and the table that an exchange has are two forms of one thing
(`SlotTable.Represents`): each slot has what the table has under its key, and the
order has the table's keys. Every operation does the same to both and gives the
same results. That needs what callers and answers that have met have (`Met`): a
slot has no room for answers and callers at once.
-/

namespace FramedDuplex

variable {κ α : Type} [DecidableEq κ] {t u : Table κ α} {s : SlotTable κ α}
variable {callers : List (κ × ℕ)} {key other : κ} {items : List α} {ticket handle : ℕ}

namespace Table

/-! ## The slot of a key -/

/-- The slot that a key should have. -/
def slot? (t : Table κ α) (key : κ) : Option (Slot α) :=
  match t.readyAt? key, t.waitingOn key with
  | some items, _ => some (.ready items)
  | none, [] => none
  | none, ticket :: rest => some (.waiting (ticket :: rest))

theorem slot?_of_ready (h : t.readyAt? key = some items) : t.slot? key = some (.ready items) := by
  rw [slot?, h]

theorem slot?_of_none (h : t.readyAt? key = none) : t.slot? key =
    if t.waitingOn key = [] then none else some (.waiting (t.waitingOn key)) := by
  rw [slot?, h]
  cases t.waitingOn key <;> simp

theorem slot?_congr (hready : u.readyAt? key = t.readyAt? key)
    (hwaiting : u.waitingOn key = t.waitingOn key) : u.slot? key = t.slot? key := by
  rw [slot?, slot?, hready, hwaiting]

theorem slot?_eq_ready_iff : t.slot? key = some (.ready items) ↔ t.readyAt? key = some items := by
  cases hr : t.readyAt? key with
  | some found => simp [slot?_of_ready hr]
  | none =>
    rw [slot?_of_none hr]
    split <;> simp

theorem slot?_eq_waiting_iff {tickets : List ℕ} : t.slot? key = some (.waiting tickets) ↔
    t.readyAt? key = none ∧ t.waitingOn key = tickets ∧ tickets ≠ [] := by
  cases hr : t.readyAt? key with
  | some found => simp [slot?_of_ready hr]
  | none =>
    rw [slot?_of_none hr]
    split
    · next hnil =>
      rw [hnil]
      simp only [true_and, reduceCtorEq, false_iff, not_and]
      rintro rfl
      simp
    · next hne =>
      simp only [Option.some.injEq, Slot.waiting.injEq, true_and]
      exact ⟨fun h => ⟨h, h ▸ hne⟩, And.left⟩

/-! ## Who waits on a key -/

theorem waitingOn_forget : (t.forget ticket).waitingOn key =
    (t.waitingOn key).filter (· ≠ ticket) := by
  simp only [waitingOn, forget, List.filter_filter, List.filter_map, Bool.and_comm]
  rfl

/-- Who does not wait on a key is not missed there. -/
theorem filter_waitingOn (h : ¬ t.Waits key ticket) :
    (t.waitingOn key).filter (· ≠ ticket) = t.waitingOn key := by
  refine List.filter_eq_self.mpr fun i hi => ?_
  have hne : i ≠ ticket := by
    rintro rfl
    exact h (mem_waitingOn.mp hi)
  simpa using hne

/-- A caller that does not wait on a key leaves its slot as it is. -/
theorem slot?_forget (h : ¬ t.Waits key ticket) : (t.forget ticket).slot? key = t.slot? key := by
  refine slot?_congr rfl ?_
  rw [waitingOn_forget, filter_waitingOn h]

theorem waitingOn_resolve : (t.resolve key items).waitingOn other =
    if other = key then [] else t.waitingOn other := by
  simp only [waitingOn, resolve, List.filter_filter]
  by_cases h : other = key
  · simp [h]
  · rw [if_neg h]
    congr 1
    refine List.filter_congr fun e _ => ?_
    by_cases he : e.1 = other <;> simp [he, h]

theorem waitingOn_enter : (t.enter key).2.waitingOn other =
    t.waitingOn other ++ if other = key then [t.nextTicket] else [] := by
  simp only [waitingOn, enter, List.filter_append, List.map_append]
  by_cases h : other = key
  · simp [h]
  · have hne : ¬ key = other := fun e => h e.symm
    simp [h, hne]

end Table

/-- **Slots represent a table with callers.** -/
structure SlotTable.Represents (s : SlotTable κ α) (t : Table κ α) (callers : List (κ × ℕ)) :
    Prop where
  slots : ∀ key, s.slots.lookup key = t.slot? key
  order : s.order = t.ready.map (·.1)
  /-- A live caller has a channel, which holds what the caller was told. -/
  channels : ∀ ticket, s.channels.find? ticket =
    if ticket ∈ callers.map (·.2) then some (t.resolved.find? ticket) else none
  distinct : s.channels.Distinct
  held : s.held = t.held
  broken : s.broken = t.broken
  nextTicket : s.nextTicket = t.nextTicket
  nextSerial : s.nextSerial = t.nextSerial

namespace SlotTable.Represents

theorem empty : (SlotTable.empty : SlotTable κ α).Represents Table.empty [] :=
  ⟨fun _ => rfl, rfl, fun _ => rfl, Handles.distinct_empty, rfl, rfl, rfl, rfl⟩

theorem contains_iff (h : s.Represents t callers) :
    s.channels.contains ticket ↔ ticket ∈ callers.map (·.2) := by
  rw [Handles.contains, h.channels]
  split <;> simp [*]

/-- A slot changes. -/
theorem lookup_insert (h : s.Represents t callers) {slot : Slot α}
    (hkey : u.slot? key = some slot) (hothers : ∀ other, other ≠ key → u.slot? other = t.slot? other)
    (other : κ) : (s.slots.insert key slot).lookup other = u.slot? other := by
  by_cases ho : other = key
  · subst ho
    rw [AList.lookup_insert, hkey]
  · rw [AList.lookup_insert_ne ho, h.slots, hothers other ho]

/-- A slot is taken out. -/
theorem lookup_erase (h : s.Represents t callers) (hkey : u.slot? key = none)
    (hothers : ∀ other, other ≠ key → u.slot? other = t.slot? other) (other : κ) :
    (s.slots.erase key).lookup other = u.slot? other := by
  by_cases ho : other = key
  · subst ho
    rw [AList.lookup_erase, hkey]
  · rw [AList.lookup_erase_ne ho, h.slots, hothers other ho]

/-- Callers who live are told something, each in its channel. -/
theorem find?_send (h : s.Represents t callers) {tickets : List ℕ} {told : Resolution α}
    (hlive : ∀ i ∈ tickets, i ∈ callers.map (·.2))
    (htold : ∀ i, u.resolved.find? i = if i ∈ tickets then some told else t.resolved.find? i)
    (ticket : ℕ) : (send s.channels tickets told).find? ticket =
      if ticket ∈ callers.map (·.2) then some (u.resolved.find? ticket) else none := by
  simp only [SlotTable.find?_send, h.contains_iff, h.channels, htold]
  by_cases hin : ticket ∈ tickets
  · simp only [hin, hlive ticket hin, and_self, if_true]
  · simp only [hin, false_and, if_false]

/-! ## Arrivals -/

/-- Answers join those that are ready. -/
theorem changeReady (h : s.Represents t callers) {old : List α} (hold : t.readyAt? key = some old)
    (f : List α → List α) :
    { s with slots := s.slots.insert key (.ready (f old)) }.Represents (t.changeReady key f)
      callers where
  slots := by
    refine h.lookup_insert (Table.slot?_of_ready ?_) fun other ho => Table.slot?_congr ?_ rfl
    · rw [Table.readyAt?_changeReady, if_pos rfl, hold]
      rfl
    · rw [Table.readyAt?_changeReady, if_neg ho]
  order := by
    rw [h.order]
    simp [Table.changeReady, Function.comp_def]
  channels := h.channels
  distinct := h.distinct
  held := h.held
  broken := h.broken
  nextTicket := h.nextTicket
  nextSerial := h.nextSerial

/-- A key becomes ready. -/
theorem makeReady (h : s.Represents t callers) (hnone : t.readyAt? key = none) :
    (s.makeReady key items).Represents (t.start key items) callers where
  slots := by
    refine h.lookup_insert (Table.slot?_of_ready ?_) fun other ho => Table.slot?_congr ?_ rfl
    · rw [Table.readyAt?_start hnone, if_pos rfl]
    · rw [Table.readyAt?_start hnone, if_neg ho]
  order := by
    rw [SlotTable.makeReady, h.order]
    simp [Table.start]
  channels := h.channels
  distinct := h.distinct
  held := h.held
  broken := h.broken
  nextTicket := h.nextTicket
  nextSerial := h.nextSerial

section Manned

variable {t : Table κ (Letter κ α)} {s : SlotTable κ (Letter κ α)} {items : List (Letter κ α)}

/-- Callers who wait are told to collect one batch. -/
theorem resolve (h : s.Represents t callers) (hman : Manned t callers)
    (hnone : t.readyAt? key = none) :
    { s with
      slots := s.slots.erase key
      channels := send s.channels (t.waitingOn key) (.batch ⟨s.nextSerial, items⟩)
      nextSerial := s.nextSerial + 1 }.Represents (t.resolve key items) callers where
  slots := by
    refine h.lookup_erase ?_ fun other ho => Table.slot?_congr rfl ?_
    · have hready : (t.resolve key items).readyAt? key = none := hnone
      rw [Table.slot?_of_none hready, Table.waitingOn_resolve, if_pos rfl, if_pos rfl]
    · rw [Table.waitingOn_resolve, if_neg ho]
  order := h.order
  channels := by
    refine h.find?_send (fun i hi => ?_) fun i => ?_
    · exact hman.live (Table.mem_waitingOn.mp hi)
    · rw [h.nextSerial]
      exact Table.find?_resolve
  distinct := distinct_send h.distinct
  held := h.held
  broken := h.broken
  nextTicket := h.nextTicket
  nextSerial := by rw [h.nextSerial]; rfl

/-- **Answers are brought.** -/
theorem deliver (h : s.Represents t callers) (hman : Manned t callers) (key : κ)
    (items : List (Letter κ α)) :
    (s.deliver key items).1.Represents (t.deliver key items).1 callers ∧
      (s.deliver key items).2 = (t.deliver key items).2 := by
  unfold SlotTable.deliver Table.deliver
  cases hready : t.readyAt? key with
  | some old =>
    rw [h.slots, Table.slot?_of_ready hready]
    exact ⟨h.changeReady hready (· ++ items), rfl⟩
  | none =>
    rw [h.slots, Table.slot?_of_none hready]
    cases hw : t.waitingOn key with
    | nil => exact ⟨h.makeReady hready, rfl⟩
    | cons first rest =>
      have hlive : (first :: rest).any s.channels.contains := by
        refine List.any_eq_true.mpr ⟨first, by simp, h.contains_iff.mpr ?_⟩
        exact hman.live (Table.mem_waitingOn.mp (by simp [hw] : first ∈ t.waitingOn key))
      simp only [reduceCtorEq, if_false, hlive, if_true, Option.isSome_none, Bool.false_eq_true,
        List.isEmpty_cons]
      exact ⟨hw ▸ h.resolve hman hready, trivial⟩

/-- **Answers are put back.** -/
theorem restore (h : s.Represents t callers) (hman : Manned t callers) (key : κ)
    (items : List (Letter κ α)) :
    (s.restore key items).1.Represents (t.restore key items).1 callers ∧
      (s.restore key items).2 = (t.restore key items).2 := by
  unfold SlotTable.restore Table.restore
  cases hready : t.readyAt? key with
  | some old =>
    rw [h.slots, Table.slot?_of_ready hready]
    exact ⟨h.changeReady hready (items ++ ·), rfl⟩
  | none =>
    rw [h.slots, Table.slot?_of_none hready]
    split
    · next hslot => split at hslot <;> simp at hslot
    · exact h.deliver hman key items

end Manned

/-! ## What is taken -/

/-- What is ready under a key is taken, and the key has no slot any more. -/
theorem lookup_erase_of_taken (h : s.Represents t callers) (hmet : Met t callers)
    (hitems : t.readyAt? key = some items) (htaken : t.Taken u key) (other : κ) :
    (s.slots.erase key).lookup other = u.slot? other := by
  have waitingOn : ∀ k, u.waitingOn k = t.waitingOn k := fun k => by
    rw [Table.waitingOn, htaken.waiting, Table.waitingOn]
  refine h.lookup_erase ?_ (fun k hk => Table.slot?_congr ?_ (waitingOn k)) other
  · have hnone : u.readyAt? key = none := by rw [htaken.ready, if_pos rfl]
    rw [Table.slot?_of_none hnone, waitingOn, hmet.nobody hitems, if_pos rfl]
  · rw [htaken.ready, if_neg hk]

/-- **What is ready under a key is taken**, and a key without is left as it was. -/
theorem takeReady (h : s.Represents t callers) (htidy : t.Tidy) (hmet : Met t callers) (key : κ) :
    (s.takeReady key).1 = t.readyAt? key ∧
      (s.takeReady key).2.Represents (t.takeReady key) callers := by
  unfold SlotTable.takeReady
  rw [h.slots]
  cases hready : t.readyAt? key with
  | some items =>
    have htaken : t.Taken (t.takeReady key) key :=
      ⟨fun _ => Table.readyAt?_takeReady, rfl, rfl, rfl⟩
    rw [Table.slot?_of_ready hready]
    refine ⟨rfl, h.lookup_erase_of_taken hmet hready htaken, ?_, h.channels, h.distinct, h.held,
      h.broken, h.nextTicket, h.nextSerial⟩
    show s.order.erase key = (t.ready.filter _).map _
    rw [h.order, htidy.ready.erase_eq_filter, List.filter_map]
    congr 2
    funext e
    by_cases he : e.1 = key <;> simp [he]
  | none =>
    have hsame : t.takeReady key = t := by
      have hkeys := Table.readyAt?_eq_none_iff.mp hready
      have hfilter : t.ready.filter (·.1 ≠ key) = t.ready := by
        refine List.filter_eq_self.mpr fun e he => ?_
        have hne : e.1 ≠ key := fun hk => hkeys (hk ▸ List.mem_map_of_mem he)
        simpa using hne
      rw [Table.takeReady, hfilter]
    rw [Table.slot?_of_none hready, hsame]
    split
    · next hslot => split at hslot <;> simp at hslot
    · next tickets hslot =>
      refine ⟨rfl, fun other => ?_, h.order, h.channels, h.distinct, h.held, h.broken,
        h.nextTicket, h.nextSerial⟩
      by_cases ho : other = key
      · subst ho
        rw [AList.lookup_insert, Table.slot?_of_none hready, hslot]
      · rw [AList.lookup_insert_ne ho, AList.lookup_erase_ne ho, h.slots]
    · exact ⟨rfl, h⟩

/-- **The key that has been ready longest is taken at once**: it is the first in
the order, and its slot is ready. -/
theorem takeNext (h : s.Represents t callers) (htidy : t.Tidy) (hmet : Met t callers) :
    s.takeNext.1 = t.takeNext.1 ∧ s.takeNext.2.Represents t.takeNext.2 callers := by
  cases hready : t.ready with
  | nil =>
    have hnil : s.order = [] := by simp [h.order, hready]
    have ht : t.takeNext = (none, t) := by rw [Table.takeNext, hready]
    rw [takeNext_of_nil hnil, ht]
    exact ⟨rfl, h⟩
  | cons e rest =>
    obtain ⟨key, items⟩ := e
    have hitems : t.readyAt? key = some items := Table.readyAt?_of_mem htidy (by simp [hready])
    have horder : s.order = key :: rest.map (·.1) := by simp [h.order, hready]
    have hslot : s.slots.lookup key = some (.ready items) := by
      rw [h.slots, Table.slot?_of_ready hitems]
    have ht : t.takeNext = (some (key, items), { t with ready := rest }) := by
      rw [Table.takeNext, hready]
    have hhead : t.ready.head? = some (key, items) := by rw [hready, List.head?_cons]
    have htaken : t.Taken t.takeNext.2 key := Table.taken_takeNext htidy hhead
    rw [takeNext_of_ready horder hslot, ht]
    rw [ht] at htaken
    exact ⟨rfl, h.lookup_erase_of_taken hmet hitems htaken, rfl, h.channels, h.distinct, h.held,
      h.broken, h.nextTicket, h.nextSerial⟩

/-! ## Callers -/

section Callers

variable {t : Table κ (Letter κ α)} {s : SlotTable κ (Letter κ α)} {batch : Batch (Letter κ α)}

/-- **A caller comes** to a key with nothing ready. -/
theorem register (h : s.Represents t callers) (hman : Manned t callers)
    (hnone : t.readyAt? key = none) : (s.register key).1 = (t.enter key).1 ∧
      (s.register key).2.Represents (t.enter key).2 (callers ++ [(key, t.nextTicket)]) := by
  have hslots : (s.register key).2.slots =
      s.slots.insert key (.waiting (t.waitingOn key ++ [t.nextTicket])) := by
    unfold SlotTable.register
    rw [h.slots, Table.slot?_of_none hnone, h.nextTicket]
    cases t.waitingOn key <;> rfl
  have hready : ∀ k, (t.enter key).2.readyAt? k = t.readyAt? k := fun _ => rfl
  refine ⟨h.nextTicket, fun other => ?_, h.order, fun ticket => ?_, h.distinct.insert _ _, h.held,
    h.broken, ?_, h.nextSerial⟩
  · rw [hslots]
    refine h.lookup_insert ?_ (fun k hk => Table.slot?_congr (hready k) ?_) other
    · rw [Table.slot?_of_none ((hready key).trans hnone), Table.waitingOn_enter, if_pos rfl,
        if_neg (by simp)]
    · rw [Table.waitingOn_enter, if_neg hk, List.append_nil]
  · show (s.channels.insert s.nextTicket none).find? ticket = _
    rw [Handles.find?_insert, h.nextTicket, h.channels, List.map_append]
    by_cases ht : ticket = t.nextTicket
    · subst ht
      simp [Table.enter, hman.untold_next]
    · rw [if_neg ht]
      exact if_congr (by simp [ht]) rfl rfl
  · show s.nextTicket + 1 = t.nextTicket + 1
    rw [h.nextTicket]

/-- The slots list exactly those who wait. -/
theorem mem_listed_iff (h : s.Represents t callers) (hmet : Met t callers) :
    ticket ∈ s.listed ↔ ticket ∈ t.waiting.map (·.2) := by
  simp only [mem_listed, h.slots, Table.slot?_eq_waiting_iff]
  constructor
  · rintro ⟨key, tickets, ⟨-, rfl, -⟩, hin⟩
    exact List.mem_map.mpr ⟨_, Table.mem_waitingOn.mp hin, rfl⟩
  · intro hin
    obtain ⟨⟨key, _⟩, hw, rfl⟩ := List.mem_map.mp hin
    have hwaits := Table.mem_waitingOn.mpr hw
    exact ⟨key, _, ⟨hmet.apart key _ hw, rfl, List.ne_nil_of_mem hwaits⟩, hwaits⟩

/-- **Nobody is listed twice.** -/
theorem nodup_listed (h : s.Represents t callers) (hmet : Met t callers) : s.listed.Nodup := by
  have waitingOn : ∀ {key tickets}, s.slots.lookup key = some (.waiting tickets) →
      t.waitingOn key = tickets := fun hslot =>
    (Table.slot?_eq_waiting_iff.mp (h.slots _ ▸ hslot)).2.1
  refine SlotTable.nodup_listed (fun key tickets hslot => ?_)
    fun key other tickets more ticket hslot hslot' hin hin' => ?_
  · rw [← waitingOn hslot]
    exact hmet.once.sublist (List.filter_sublist.map _)
  · rw [← waitingOn hslot] at hin
    rw [← waitingOn hslot'] at hin'
    have := List.inj_on_of_nodup_map hmet.once (Table.mem_waitingOn.mp hin)
      (Table.mem_waitingOn.mp hin') rfl
    exact congrArg Prod.fst this

/-- **The connection breaks.** -/
theorem fail (h : s.Represents t callers) (hman : Manned t callers) (hmet : Met t callers)
    (reason : BrokenReason) : (s.fail reason).1 = (t.fail reason).1 ∧
      (s.fail reason).2.Represents (t.fail reason).2 callers := by
  have hlive : ∀ i ∈ s.listed, i ∈ callers.map (·.2) := by
    intro i hi
    obtain ⟨⟨key, _⟩, hw, rfl⟩ := List.mem_map.mp ((h.mem_listed_iff hmet).mp hi)
    exact hman.live hw
  refine ⟨?_, fun key => ?_, h.order, h.find?_send hlive fun i => ?_, distinct_send h.distinct,
    h.held, ?_, h.nextTicket, h.nextSerial⟩
  · have hall : s.listed.countP s.channels.contains = s.listed.length :=
      List.countP_eq_length.mpr fun i hi => h.contains_iff.mpr (hlive i hi)
    have hperm : s.listed.Perm (t.waiting.map (·.2)) :=
      (List.perm_ext_iff_of_nodup (h.nodup_listed hmet) hmet.once).mpr fun _ =>
        h.mem_listed_iff hmet
    show s.listed.countP s.channels.contains = t.waiting.length
    rw [hall, hperm.length_eq, List.length_map]
  · rw [lookup_fail, h.slots]
    have hready : (t.fail reason).2.readyAt? key = t.readyAt? key := rfl
    cases hr : t.readyAt? key with
    | some items =>
      rw [Table.slot?_of_ready hr, Table.slot?_of_ready (hready.trans hr)]
      rfl
    | none =>
      have hnobody : (t.fail reason).2.waitingOn key = [] := rfl
      rw [Table.slot?_of_none hr, Table.slot?_of_none (hready.trans hr), hnobody, if_pos rfl]
      split <;> rfl
  · rw [Table.resolved_fail, Handles.find?_foldl_insert]
    simp only [h.mem_listed_iff hmet]
  · show s.broken.or (some reason) = t.broken.or (some reason)
    rw [h.broken]

/-- The channel of a caller that goes is no more. -/
theorem find?_erase (h : s.Represents t callers) (gone ticket : ℕ) :
    (s.channels.erase gone).find? ticket =
      if ticket ∈ (callers.filter (·.2 ≠ gone)).map (·.2) then
        some ((t.resolved.erase gone).find? ticket)
      else none := by
  have hin : ticket ∈ (callers.filter (·.2 ≠ gone)).map (·.2) ↔
      ticket ∈ callers.map (·.2) ∧ ticket ≠ gone := by
    simp only [List.mem_map, List.mem_filter]
    constructor
    · rintro ⟨e, ⟨he, hne⟩, rfl⟩
      exact ⟨⟨e, he, rfl⟩, by simpa using hne⟩
    · rintro ⟨⟨e, he, rfl⟩, hne⟩
      exact ⟨e, ⟨he, by simpa using hne⟩, rfl⟩
  rw [Handles.find?_erase, Handles.find?_erase, h.channels]
  by_cases ht : ticket = gone
  · rw [if_pos ht, if_neg fun hc => (hin.mp hc).2 ht]
  · rw [if_neg ht, if_neg ht]
    exact if_congr ⟨fun hc => hin.mpr ⟨hc, ht⟩, fun hc => (hin.mp hc).1⟩ rfl rfl

/-- **A caller collects its batch.** -/
theorem collect (h : s.Represents t callers) (hin : (key, ticket) ∈ callers)
    (hsent : t.Sent ticket batch) (handle : ℕ) :
    (s.collect ticket handle).Represents (t.collect ticket handle batch)
      (callers.filter (·.2 ≠ ticket)) := by
  have hchannel : s.channels.find? ticket = some (some (.batch batch)) := by
    rw [h.channels, if_pos (List.mem_map.mpr ⟨_, hin, rfl⟩), hsent]
  rw [SlotTable.collect, hchannel]
  refine ⟨h.slots, h.order, h.find?_erase ticket, h.distinct.erase ticket, ?_, h.broken,
    h.nextTicket, h.nextSerial⟩
  show s.held.insert handle batch = t.held.insert handle batch
  rw [h.held]

/-- A batch is in a channel exactly if a caller was sent it. -/
theorem channel_eq_batch_iff (h : s.Represents t callers) (hman : Manned t callers) :
    s.channels.find? ticket = some (some (.batch batch)) ↔ t.Sent ticket batch := by
  rw [h.channels]
  split
  · simp [Table.Sent]
  · next hgone =>
    simp only [reduceCtorEq, false_iff]
    intro hsent
    obtain ⟨key, hin⟩ := hman.told ticket _ hsent
    exact hgone (List.mem_map.mpr ⟨_, hin, rfl⟩)

/-- **The slots and the table agree on who has a share of a batch**, or that
nobody has. -/
theorem shares_eq_zero_iff (h : s.Represents t callers) (htidy : t.Tidy) (hman : Manned t callers)
    (serial : ℕ) : s.shares serial = 0 ↔ t.shares serial = 0 := by
  have hsent : (s.channels.things.filterMap (·.bind (·.batch?))).countP (·.serial = serial) = 0 ↔
      ∀ ticket batch, t.Sent ticket batch → batch.serial ≠ serial := by
    simp only [List.countP_eq_zero, List.mem_filterMap, decide_eq_true_eq,
      Handles.mem_things_iff h.distinct]
    constructor
    · intro hs ticket batch hsent
      exact hs batch ⟨_, ⟨ticket, (h.channel_eq_batch_iff hman).mpr hsent⟩, rfl⟩
    · rintro hs batch ⟨told, ⟨ticket, hfind⟩, hbatch⟩
      obtain ⟨found, rfl, hfound⟩ := Option.bind_eq_some_iff.mp hbatch
      cases found with
      | broken reason => simp [Resolution.batch?] at hfound
      | batch b =>
        obtain rfl : b = batch := by simpa [Resolution.batch?] using hfound
        exact hs ticket b ((h.channel_eq_batch_iff hman).mp hfind)
  rw [SlotTable.shares, Nat.add_eq_zero_iff, hsent, h.held, Table.shares_eq_zero_iff htidy]
  refine and_congr_right fun _ => ?_
  simp only [List.countP_eq_zero, decide_eq_true_eq, Handles.mem_things_iff htidy.held]
  constructor
  · intro hh n b hb
    exact hh b ⟨n, hb⟩
  · rintro hh b ⟨n, hb⟩
    exact hh n b hb

/-- A caller goes that is in no slot. -/
theorem giveBack (h : s.Represents t callers) (htidy : t.Tidy) (hman : Manned t callers)
    (hin : (key, ticket) ∈ callers) (hnot : ∀ k, ¬ t.Waits k ticket) :
    (s.giveBack key ticket).1.Represents (t.leave key ticket).1
        (callers.filter (·.2 ≠ ticket)) ∧
      (s.giveBack key ticket).2 = (t.leave key ticket).2 := by
  have hgone : { s with channels := s.channels.erase ticket }.Represents (t.forget ticket)
      (callers.filter (·.2 ≠ ticket)) := by
    refine ⟨fun k => ?_, h.order, h.find?_erase ticket, h.distinct.erase ticket, h.held, h.broken,
      h.nextTicket, h.nextSerial⟩
    rw [Table.slot?_forget (hnot k), h.slots]
  have hchannel : s.channels.find? ticket = some (t.resolved.find? ticket) := by
    rw [h.channels, if_pos (List.mem_map.mpr ⟨_, hin, rfl⟩)]
  rw [SlotTable.giveBack, hchannel, Option.bind_some, Table.leave_eq]
  cases (t.resolved.find? ticket).bind (·.batch?) with
  | none => exact ⟨hgone, rfl⟩
  | some batch =>
    have hshares := hgone.shares_eq_zero_iff (htidy.forget ticket) (hman.forget ticket) batch.serial
    by_cases hs : (t.forget ticket).shares batch.serial = 0
    · simp only [hs, hshares.mpr hs, if_true]
      exact hgone.restore (hman.forget ticket) key batch.items
    · simp only [hs, mt hshares.mp hs, if_false]
      exact ⟨hgone, trivial⟩

/-- **A caller goes**: out of its slot, or with what is in its channel. -/
theorem unregister (h : s.Represents t callers) (htidy : t.Tidy) (hman : Manned t callers)
    (hmet : Met t callers) (hin : (key, ticket) ∈ callers) :
    (s.unregister key ticket).1.Represents (t.leave key ticket).1
        (callers.filter (·.2 ≠ ticket)) ∧
      (s.unregister key ticket).2 = (t.leave key ticket).2 := by
  cases htold : t.resolved.find? ticket with
  | some told =>
    have hnot : ∀ k, ¬ t.Waits k ticket := fun k hw => by simp [hman.free k ticket hw] at htold
    have hsame : s.unregister key ticket = s.giveBack key ticket := by
      rw [SlotTable.unregister]
      split
      · next tickets hslot =>
        -- the slot is another caller's
        obtain ⟨-, rfl, -⟩ := Table.slot?_eq_waiting_iff.mp (h.slots key ▸ hslot)
        rw [Table.filter_waitingOn (hnot key), if_pos rfl]
      · rfl
    rw [hsame]
    exact h.giveBack htidy hman hin hnot
  | none =>
    have hw : t.Waits key ticket := hmet.waits key ticket hin htold
    have hready : t.readyAt? key = none := hmet.apart key ticket hw
    have hmem : ticket ∈ t.waitingOn key := Table.mem_waitingOn.mpr hw
    have hslot : s.slots.lookup key = some (.waiting (t.waitingOn key)) := by
      rw [h.slots, Table.slot?_of_none hready, if_neg (List.ne_nil_of_mem hmem)]
    have hlength : ((t.waitingOn key).filter (· ≠ ticket)).length ≠ (t.waitingOn key).length := by
      intro he
      have := List.length_filter_eq_length_iff.mp he ticket hmem
      simp at this
    have hleave : t.leave key ticket = (t.forget ticket, false) := by
      rw [Table.leave_eq, htold]
      rfl
    have hothers : ∀ other, other ≠ key → (t.forget ticket).slot? other = t.slot? other := by
      intro other ho
      refine Table.slot?_forget fun hw' => ho ?_
      exact hman.one (hman.waits key ticket hw) (hman.waits other ticket hw')
    have hkey : (t.forget ticket).slot? key =
        if (t.waitingOn key).filter (· ≠ ticket) = [] then none
        else some (.waiting ((t.waitingOn key).filter (· ≠ ticket))) := by
      have hnone : (t.forget ticket).readyAt? key = none := hready
      rw [Table.slot?_of_none hnone, Table.waitingOn_forget]
    rw [SlotTable.unregister, hslot, hleave]
    simp only [if_neg hlength]
    refine ⟨⟨?_, h.order, h.find?_erase ticket, h.distinct.erase ticket, h.held, h.broken,
      h.nextTicket, h.nextSerial⟩, trivial⟩
    by_cases hleft : (t.waitingOn key).filter (· ≠ ticket) = []
    · rw [if_pos hleft] at hkey
      simp only [hleft, List.isEmpty_nil, if_true]
      exact h.lookup_erase hkey hothers
    · rw [if_neg hleft] at hkey
      simp only [List.isEmpty_iff, hleft, if_false]
      exact h.lookup_insert hkey hothers

end Callers

end SlotTable.Represents

end FramedDuplex
