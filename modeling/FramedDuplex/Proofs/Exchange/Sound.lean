import FramedDuplex.Proofs.Exchange.Callers
import FramedDuplex.Proofs.Exchange.Serials
import Mathlib.Data.List.Range
/-!
# What is true of every board

A board that came about by permitted deeds is sound (`Board.sound_after`). Its
callers and serial numbers are as they should be (`Manned`, `Serials`), each
message is in one place at most and there once (`Placed`), and it is lost to
nobody (`Kept`). The proof goes deed by deed; only a departure has an argument to
it, since what becomes of the batch depends on who else was sent it.
-/

namespace FramedDuplex

variable {κ α : Type} [DecidableEq κ] {t u : Table κ (Letter κ α)} {key : κ} {ticket : ℕ}
variable {items : List (Letter κ α)} {batch : Batch (Letter κ α)}
variable {handed more : List (Handout κ α)} {delivered : List (Letter κ α)}
variable {f : List (Letter κ α) → List (Letter κ α)}

/-! ## Places -/

/-- **A message is in one place at most**, and nowhere twice. No batch is
empty. -/
structure Placed (t : Table κ (Letter κ α)) (delivered : List (Letter κ α)) : Prop where
  one : ∀ m p q, t.At m p → t.At m q → p = q
  known : ∀ m p, t.At m p → m ∈ delivered
  plain : t.Every fun items => items.Nodup ∧ items ≠ []

namespace Placed

theorem empty : Placed (Table.empty : Table κ (Letter κ α)) [] :=
  ⟨fun _ _ _ h => absurd h Table.not_at_empty, fun _ _ h => absurd h Table.not_at_empty,
    Table.every_empty⟩

/-- Nothing comes to a place where it was not. -/
theorem mono (h : Placed t delivered) (hat : ∀ m p, u.At m p → t.At m p)
    (hplain : u.Every fun items => items.Nodup ∧ items ≠ []) : Placed u delivered :=
  ⟨fun m p q hp hq => h.one m p q (hat m p hp) (hat m q hq),
    fun m p hp => h.known m p (hat m p hp), hplain⟩

theorem congr (h : Placed t delivered) (hready : ∀ key, u.readyAt? key = t.readyAt? key)
    (hsent : ∀ ticket batch, u.Sent ticket batch ↔ t.Sent ticket batch) : Placed u delivered :=
  h.mono (fun _ _ => (Table.at_congr hready hsent).mp)
    ((Table.every_congr hready hsent).mpr h.plain)

theorem forget (h : Placed t delivered) (ticket : ℕ) : Placed (t.forget ticket) delivered :=
  h.mono (fun _ _ => Table.at_of_at_forget) (h.plain.forget ticket)

theorem of_taken (h : Placed t delivered) (htaken : t.Taken u key) : Placed u delivered :=
  h.mono (fun _ _ hp => ((Table.at_of_taken htaken).mp hp).1) (h.plain.of_taken htaken)

/-- **An arrival of messages that are nowhere yet.** -/
theorem put (h : Placed t delivered) (free : t.Untold)
    (hf : Table.Joins f items) (hnew : ∀ m ∈ items, ∀ p, ¬ t.At m p)
    (hin : ∀ m ∈ items, m ∈ delivered) (hplain : items.Nodup ∧ items ≠ []) :
    Placed (t.put f key items) delivered := by
  obtain ⟨home, -, hat⟩ := Table.at_put key free hf
  refine ⟨fun m p q hp hq => ?_, fun m p hp => ?_, h.plain.put free hplain fun old hold => ?_⟩
  · rcases (hat m p).mp hp with hp | ⟨hm, rfl⟩ <;> rcases (hat m q).mp hq with hq | ⟨hm', rfl⟩
    · exact h.one m p q hp hq
    · exact absurd hp (hnew m hm' p)
    · exact absurd hq (hnew m hm q)
    · rfl
  · rcases (hat m p).mp hp with hp | ⟨hm, -⟩
    · exact h.known m p hp
    · exact hin m hm
  · obtain ⟨hnodup, -⟩ := h.plain.1 key old hold
    have apart : items.Disjoint old := fun m hm hm' => hnew m hm (.ready key) ⟨old, hold, hm'⟩
    refine ⟨(hf old).nodup_iff.mpr (hplain.1.append hnodup apart), fun hnil => hplain.2 ?_⟩
    have := hnil ▸ hf old
    exact (List.append_eq_nil_iff.mp this.symm.eq_nil).1

/-- A batch that is put back is nowhere any more. -/
theorem not_at_forget (h : Placed t delivered) (tidy : t.Tidy) (hsent : t.Sent ticket batch)
    (hshares : (t.forget ticket).shares batch.serial = 0) {m : Letter κ α}
    (hm : m ∈ batch.items) (p : Place κ) : ¬ (t.forget ticket).At m p := by
  intro hp
  obtain rfl := h.one m p _ (Table.at_of_at_forget hp) (hsent.at hm)
  obtain ⟨i, c, hc, he, -⟩ := hp
  exact ((Table.shares_eq_zero_iff (tidy.forget ticket)).mp hshares).1 i c hc he

end Placed

/-! ## Messages are kept -/

/-- Every message that was delivered is on the table or was handed out. -/
def Kept (t : Table κ (Letter κ α)) (delivered : List (Letter κ α))
    (handed : List (Handout κ α)) : Prop :=
  ∀ m ∈ delivered, (∃ p, t.At m p) ∨ ∃ out ∈ handed, m ∈ out.items

namespace Kept

/-- What was in a place still is, or was handed out by now. -/
theorem step (h : Kept t delivered handed) (hmore : ∀ out ∈ handed, out ∈ more)
    (hat : ∀ m p, t.At m p → (∃ q, u.At m q) ∨ ∃ out ∈ more, m ∈ out.items) :
    Kept u delivered more := by
  intro m hm
  rcases h m hm with ⟨p, hp⟩ | ⟨out, hout, hin⟩
  · exact hat m p hp
  · exact .inr ⟨out, hmore out hout, hin⟩

theorem congr (h : Kept t delivered handed) (hready : ∀ key, u.readyAt? key = t.readyAt? key)
    (hsent : ∀ ticket batch, u.Sent ticket batch ↔ t.Sent ticket batch) : Kept u delivered handed :=
  h.step (fun _ => id) fun _ p hp => .inl ⟨p, (Table.at_congr hready hsent).mpr hp⟩

/-- **What is taken from under a key is handed out.** -/
theorem of_taken (h : Kept t delivered handed) (hitems : t.readyAt? key = some items)
    (htaken : t.Taken u key) :
    Kept u delivered (handed ++ [.ready key items]) := by
  refine h.step (fun out hout => List.mem_append.mpr (.inl hout)) fun m p hp => ?_
  by_cases hkey : p = .ready key
  · subst hkey
    obtain ⟨found, hfound, hm⟩ := hp
    obtain rfl : items = found := by simpa [hitems] using hfound
    exact .inr ⟨.ready key items, by simp, hm⟩
  · exact .inl ⟨p, (Table.at_of_taken htaken).mpr ⟨hp, hkey⟩⟩

end Kept

namespace Board

variable {b : Board κ α} {d : Deed κ α}

/-- What is true of a board that came about by permitted deeds. -/
structure Sound (b : Board κ α) : Prop where
  tidy : b.table.Tidy
  manned : Manned b.table b.callers
  serials : Serials b.table b.handed
  placed : Placed b.table b.delivered
  kept : Kept b.table b.delivered b.handed
  numbered : b.delivered.map (·.number) = List.range b.delivered.length
  known : ∀ out ∈ b.handed, ∀ m ∈ out.items, m ∈ b.delivered ∧ m.key = out.key
  /-- Who collected a batch is no caller any more, and never comes again. -/
  gone : ∀ key ticket batch, .share key ticket batch ∈ b.handed →
    ticket < b.table.nextTicket ∧ ∀ k, (k, ticket) ∉ b.callers

namespace Sound

theorem empty : (Board.empty : Board κ α).Sound :=
  ⟨Table.tidy_empty, Manned.empty, Serials.empty, Placed.empty,
    fun m hm => by simp [Board.empty] at hm, rfl, fun out h => by simp [Board.empty] at h,
    fun _ _ _ h => by simp [Board.empty] at h⟩

theorem number_lt (h : b.Sound) {m : Letter κ α} (hm : m ∈ b.delivered) :
    m.number < b.delivered.length := by
  have : m.number ∈ b.delivered.map (·.number) := List.mem_map_of_mem hm
  rwa [h.numbered, List.mem_range] at this

/-- A message with the next number was not delivered before. -/
theorem not_mem_of_next (h : b.Sound) {m : Letter κ α} (hm : m.number = b.delivered.length) :
    m ∉ b.delivered := by
  intro hin
  have := h.number_lt hin
  omega

/-- Two messages with one number are one. -/
theorem eq_of_number (h : b.Sound) {m n : Letter κ α} (hm : m ∈ b.delivered)
    (hn : n ∈ b.delivered) (he : m.number = n.number) : m = n := by
  have : (b.delivered.map (·.number)).Nodup := h.numbered ▸ List.nodup_range
  exact List.inj_on_of_nodup_map this hm hn he

/-- A message is delivered. -/
theorem bring (h : b.Sound) {m : Letter κ α} (hm : m.number = b.delivered.length) :
    (b.perform (.bring m)).Sound := by
  have hnew : ∀ m' ∈ [m], ∀ p, ¬ b.table.At m' p := by
    intro m' hm' p hp
    obtain rfl : m' = m := by simpa using hm'
    exact h.not_mem_of_next hm (h.placed.known _ p hp)
  have hkey : ∀ m' ∈ [m], m'.key = m.key := by simp
  -- the message counts as delivered before the table has it
  have grown : Placed b.table (b.delivered ++ [m]) :=
    ⟨h.placed.one, fun m p hp => List.mem_append.mpr (.inl (h.placed.known m p hp)), h.placed.plain⟩
  have joins := Table.joins_back [m]
  obtain ⟨home, -, hat⟩ := Table.at_put m.key h.manned.free joins
  rw [perform, Table.deliver_eq_put]
  exact {
    tidy := h.tidy.put _ _ _
    manned := h.manned.put joins hkey
    serials := h.serials.put h.manned.free
    placed := grown.put h.manned.free joins hnew (by simp) (by simp)
    kept := by
      intro m' hm'
      rcases List.mem_append.mp hm' with hold | hlast
      · rcases h.kept m' hold with ⟨p, hp⟩ | hout
        · exact .inl ⟨p, (hat m' p).mpr (.inl hp)⟩
        · exact .inr hout
      · exact .inl ⟨home, (hat m' home).mpr (.inr ⟨hlast, rfl⟩)⟩
    numbered := by
      rw [List.map_append, List.length_append, h.numbered]
      simp [List.range_succ, hm]
    known := by
      intro out hout m' hm'
      obtain ⟨hin, hkey⟩ := h.known out hout m' hm'
      exact ⟨List.mem_append.mpr (.inl hin), hkey⟩
    gone := by simpa only [Table.nextTicket_put] using h.gone }

/-- The connection ends. -/
theorem fail (h : b.Sound) (reason : BrokenReason) : (b.perform (.fail reason)).Sound := by
  have hready : ∀ k, (b.table.fail reason).2.readyAt? k = b.table.readyAt? k := fun _ => rfl
  have hsent : ∀ i a, (b.table.fail reason).2.Sent i a ↔ b.table.Sent i a :=
    fun _ _ => Table.sent_fail h.manned.free
  have hserials : Serials (b.table.fail reason).2 b.handed := by
    refine h.serials.mono ?_ (Nat.le_refl _) (fun n a ha => ⟨n, ha⟩) fun _ => id
    rintro a (⟨i, hs⟩ | hshare)
    · exact .inl ⟨i, (hsent i a).mp hs⟩
    · exact .inr hshare
  exact {
    tidy := h.tidy.fail reason
    manned := h.manned.fail reason
    serials := hserials
    placed := h.placed.congr hready hsent
    kept := h.kept.congr hready hsent
    numbered := h.numbered
    known := h.known
    gone := h.gone }

/-- A caller comes. -/
theorem enter (h : b.Sound) (key : κ) : (b.perform (.enter key)).Sound where
  tidy := ⟨h.tidy.ready, h.tidy.resolved, h.tidy.held⟩
  manned := h.manned.enter key
  serials := ⟨h.serials.early, h.serials.heldEarly, h.serials.one, h.serials.collected⟩
  placed := h.placed.congr (fun _ => rfl) fun _ _ => .rfl
  kept := h.kept.congr (fun _ => rfl) fun _ _ => .rfl
  numbered := h.numbered
  known := h.known
  gone := by
    intro k i a hshare
    obtain ⟨hlt, hout⟩ := h.gone k i a hshare
    refine ⟨Nat.lt_succ_of_lt hlt, fun k' hin => ?_⟩
    rcases List.mem_append.mp hin with hold | hnew
    · exact hout k' hold
    · -- the ticket of the new caller was nobody's before
      obtain ⟨-, rfl⟩ : k' = key ∧ i = b.table.nextTicket := by simpa using hnew
      exact Nat.lt_irrefl _ hlt

/-- Who collected a batch does not come back when another caller goes. -/
theorem gone_of_left (h : b.Sound) (ticket : ℕ) :
    ∀ k i a, .share k i a ∈ b.handed →
      i < b.table.nextTicket ∧ ∀ k', (k', i) ∉ b.callers.filter (·.2 ≠ ticket) := by
  intro k i a hshare
  obtain ⟨hlt, hout⟩ := h.gone k i a hshare
  exact ⟨hlt, fun k' hk' => hout k' (List.mem_filter.mp hk').1⟩

/-- **A caller goes** and leaves its batch, if it has one, to others. -/
theorem forget (h : b.Sound) (hothers : ∀ batch, b.table.Sent ticket batch →
      (b.table.forget ticket).shares batch.serial ≠ 0) :
    Sound { b with
      table := b.table.forget ticket, callers := b.callers.filter (·.2 ≠ ticket) } where
  tidy := h.tidy.forget ticket
  manned := h.manned.forget ticket
  serials := h.serials.forget ticket
  placed := h.placed.forget ticket
  kept := by
    refine h.kept.step (fun _ => id) fun m p hp => ?_
    rcases Table.at_forget_of_at ticket hp with hp | ⟨batch, hsent, hm, rfl⟩
    · exact .inl ⟨p, hp⟩
    -- somebody else was sent the batch: it is still to be collected, or was
    · rcases h.serials.other_share h.tidy hsent (hothers batch hsent) with ⟨i, hi⟩ | ⟨k, i, hshare⟩
      · exact .inl ⟨_, hi.at hm⟩
      · exact .inr ⟨_, hshare, hm⟩
  numbered := h.numbered
  known := h.known
  gone := h.gone_of_left ticket

/-- **A caller goes and puts its batch back**, nobody having a share of it. -/
theorem putBack (h : b.Sound) (hin : (key, ticket) ∈ b.callers) (hsent : b.table.Sent ticket batch)
    (hshares : (b.table.forget ticket).shares batch.serial = 0) :
    Sound { b with
      table := (b.table.forget ticket).put (batch.items ++ ·) key batch.items
      callers := b.callers.filter (·.2 ≠ ticket) } := by
  have left := h.manned.forget ticket
  have joins := Table.joins_front batch.items
  have hnew : ∀ m ∈ batch.items, ∀ p, ¬ (b.table.forget ticket).At m p := by
    intro m hm
    exact h.placed.not_at_forget h.tidy hsent hshares hm
  have hknown : ∀ m ∈ batch.items, m ∈ b.delivered := by
    intro m hm
    exact h.placed.known m _ (hsent.at hm)
  have hplain := h.placed.plain.2 ticket batch hsent
  obtain ⟨home, -, hat⟩ := Table.at_put key left.free joins
  exact {
    tidy := (h.tidy.forget ticket).put _ _ _
    manned := left.put joins (h.manned.sent key ticket batch hin hsent)
    serials := (h.serials.forget ticket).put left.free
    placed := (h.placed.forget ticket).put left.free joins hnew hknown hplain
    kept := by
      refine h.kept.step (fun _ => id) fun m p hp => ?_
      rcases Table.at_forget_of_at ticket hp with hp | ⟨c, hc, hm, -⟩
      · exact .inl ⟨p, (hat m p).mpr (.inl hp)⟩
      -- the only place that is gone is the batch, and its messages have a new one
      · obtain rfl := hc.unique hsent
        exact .inl ⟨home, (hat m home).mpr (.inr ⟨hm, rfl⟩)⟩
    numbered := h.numbered
    known := h.known
    gone := by
      rw [Table.nextTicket_put]
      exact h.gone_of_left ticket }

/-- **A caller goes**, one way or the other. -/
theorem leave (h : b.Sound) (hin : (key, ticket) ∈ b.callers) :
    (b.perform (.leave key ticket)).Sound := by
  rw [perform]
  rcases b.table.leave_cases key ticket with ⟨he, hothers⟩ | ⟨batch, hsent, hshares, he⟩
  · rw [he]
    exact h.forget hothers
  · rw [he]
    exact h.putBack hin hsent hshares

/-- What is ready under a key is taken, and becomes a batch or does not. -/
theorem of_taken (h : b.Sound) {u : Table κ (Letter κ α)}
    (hitems : b.table.readyAt? key = some items) (htaken : b.table.Taken u key) (htidy : u.Tidy)
    (hserials : Serials u b.handed) :
    Sound { b with table := u, handed := b.handed ++ [.ready key items] } := by
  -- what was ready is nobody's share
  have hshare : ∀ k i a, .share k i a ∈ b.handed ++ [.ready key items] → .share k i a ∈ b.handed := by
    intro k i a hin
    simpa using hin
  exact {
    tidy := htidy
    manned := h.manned.of_taken htaken
    serials := by
      refine hserials.mono ?_ (Nat.le_refl _) (fun n a ha => ⟨n, ha⟩)
        fun out hout => List.mem_append.mpr (.inl hout)
      rintro a (hs | ⟨k, i, hin⟩)
      · exact .inl hs
      · exact .inr ⟨k, i, hshare k i a hin⟩
    placed := h.placed.of_taken htaken
    kept := h.kept.of_taken hitems htaken
    numbered := h.numbered
    known := by
      intro out hout m hm
      rcases List.mem_append.mp hout with hold | hnew
      · exact h.known out hold m hm
      · obtain rfl : out = .ready key items := by simpa using hnew
        have hkey := h.manned.ready key items hitems m hm
        exact ⟨h.placed.known m (.ready key) ⟨items, hitems, hm⟩, hkey⟩
    gone := by
      intro k i a hin
      rw [htaken.nextTicket]
      exact h.gone k i a (hshare k i a hin) }

/-- A caller finds messages ready. -/
theorem claim (h : b.Sound) (hitems : b.table.readyAt? key = some items) (handle : ℕ) :
    (b.perform (.claim key items handle)).Sound := by
  have hserials : Serials (b.table.takeReady key) b.handed :=
    ⟨h.serials.early, h.serials.heldEarly, h.serials.one, h.serials.collected⟩
  exact h.of_taken hitems (b.table.taken_takeReady key handle items)
    ⟨h.tidy.ready.sublist (List.filter_sublist.map _), h.tidy.resolved, h.tidy.held.insert _ _⟩
    (hserials.holdNew handle items)

/-- What has been ready longest is taken. -/
theorem take (h : b.Sound) (hhead : b.table.ready.head? = some (key, items)) :
    (b.perform (.take key items)).Sound := by
  have hrest : b.table.takeNext.2 = { b.table with ready := b.table.ready.tail } :=
    Table.takeNext_snd b.table
  have hitems : b.table.readyAt? key = some items :=
    Table.readyAt?_of_mem h.tidy (List.mem_of_mem_head? hhead)
  have htaken := Table.taken_takeNext h.tidy hhead
  rw [perform]
  rw [hrest] at htaken ⊢
  exact h.of_taken hitems htaken
    ⟨h.tidy.ready.sublist ((List.tail_sublist _).map _), h.tidy.resolved, h.tidy.held⟩
    ⟨h.serials.early, h.serials.heldEarly, h.serials.one, h.serials.collected⟩

/-- A caller collects its batch. -/
theorem collect (h : b.Sound) (hin : (key, ticket) ∈ b.callers) (hsent : b.table.Sent ticket batch)
    (handle : ℕ) : (b.perform (.collect key ticket batch handle)).Sound where
  tidy := ⟨h.tidy.ready, h.tidy.resolved.erase ticket, h.tidy.held.insert _ _⟩
  manned := h.manned.collect ticket handle batch hsent
  serials := h.serials.collect key handle hsent
  placed := (h.placed.forget ticket).congr (fun _ => rfl) fun _ _ => .rfl
  kept := by
    refine h.kept.step (fun out hout => List.mem_append.mpr (.inl hout)) fun m p hp => ?_
    rcases Table.at_forget_of_at ticket hp with hp | ⟨c, hc, hm, -⟩
    · exact .inl ⟨p, (Table.at_congr (fun _ => rfl) fun _ _ => .rfl).mp hp⟩
    · obtain rfl := hc.unique hsent
      exact .inr ⟨.share key ticket c, List.mem_append.mpr (.inr (by simp)), hm⟩
  numbered := h.numbered
  known := by
    intro out hout m hm
    rcases List.mem_append.mp hout with hold | hnew
    · exact h.known out hold m hm
    · obtain rfl : out = .share key ticket batch := by simpa using hnew
      exact ⟨h.placed.known m _ (hsent.at hm), h.manned.sent key ticket batch hin hsent m hm⟩
  gone := by
    intro k i a hshare
    rcases List.mem_append.mp hshare with hold | hnew
    · exact h.gone_of_left ticket k i a hold
    · obtain ⟨-, rfl, -⟩ : k = key ∧ i = ticket ∧ a = batch := by simpa using hnew
      exact ⟨h.manned.early key i hin, fun k' hk' => by simpa using (List.mem_filter.mp hk').2⟩

/-- Only who holds what changes, and what is held was held or is new. -/
theorem of_held (h : b.Sound) {u : Table κ (Letter κ α)} (hready : u.ready = b.table.ready)
    (hwaiting : u.waiting = b.table.waiting) (hresolved : u.resolved = b.table.resolved)
    (hticket : u.nextTicket = b.table.nextTicket) (hheld : u.held.Distinct)
    (hserials : Serials u b.handed) : Sound { b with table := u } := by
  obtain ⟨ready, waiting, resolved, held, broken, nextTicket, nextSerial⟩ := u
  subst hready hwaiting hresolved hticket
  exact ⟨⟨h.tidy.ready, h.tidy.resolved, hheld⟩,
    ⟨h.manned.early, h.manned.apart, h.manned.waits, h.manned.told, h.manned.free, h.manned.ready,
      h.manned.sent⟩, hserials, h.placed.congr (fun _ => rfl) fun _ _ => .rfl,
    h.kept.congr (fun _ => rfl) fun _ _ => .rfl, h.numbered, h.known, h.gone⟩

end Sound

/-- **A permitted deed keeps a board sound.** -/
theorem Sound.perform (h : b.Sound) (hd : b.Allows d) : (b.perform d).Sound := by
  cases d with
  | bring message => exact h.bring hd
  | fail reason => exact h.fail reason
  | enter key => exact h.enter key
  | leave key ticket => exact h.leave hd
  | claim key items handle => exact h.claim hd handle
  | take key items => exact h.take hd
  | collect key ticket batch handle => exact h.collect hd.1 hd.2 handle
  | hold handle items =>
    exact h.of_held rfl rfl rfl rfl (h.tidy.held.insert _ _) (h.serials.holdNew handle items)
  | lend copy batch =>
    obtain ⟨n, hn⟩ := hd
    refine h.of_held rfl rfl rfl rfl (h.tidy.held.insert _ _) ?_
    refine h.serials.mono (fun _ => id) (Nat.le_refl _) (fun m a ha => ?_) fun _ => id
    rw [Handles.find?_insert] at ha
    split at ha
    · exact ⟨n, hn.trans ha⟩
    · exact ⟨m, ha⟩
  | release handle =>
    refine h.of_held rfl rfl rfl rfl (h.tidy.held.erase _) ?_
    refine h.serials.mono (fun _ => id) (Nat.le_refl _) (fun m a ha => ?_) fun _ => id
    rw [Handles.find?_erase] at ha
    split at ha
    · simp at ha
    · exact ⟨m, ha⟩

/-- **Every board that came about by permitted deeds is sound.** -/
theorem sound_after {journal : List (Deed κ α)} (h : (empty : Board κ α).Permits journal) :
    ((empty : Board κ α).after journal).Sound :=
  h.keeps Sound.empty fun _ _ => Sound.perform

end Board

end FramedDuplex
