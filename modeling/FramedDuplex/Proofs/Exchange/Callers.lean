import FramedDuplex.Proofs.Exchange.Board
/-!
# Callers

A caller has one ticket and waits under one key. It is told something at most
once, and as long as it waits it was told nothing. What is ready under a key, or
was sent to a caller of the key, came under that key (`Manned`).

Each thing that happens on the table is followed here: arrivals, the end of the
connection, and the coming, going and collecting of a caller.
-/

namespace FramedDuplex

variable {κ α : Type} {t u : Table κ (Letter κ α)} {callers : List (κ × ℕ)}
variable {key : κ} {ticket : ℕ} {items : List (Letter κ α)}
variable {f : List (Letter κ α) → List (Letter κ α)}

/-- The table's callers are those that live, each under one key, and what lies
under a key or is sent to a caller of it came under that key. -/
structure Manned [DecidableEq κ] (t : Table κ (Letter κ α)) (callers : List (κ × ℕ)) :
    Prop where
  early : ∀ key ticket, (key, ticket) ∈ callers → ticket < t.nextTicket
  apart : (callers.map (·.2)).Nodup
  waits : ∀ key ticket, t.Waits key ticket → (key, ticket) ∈ callers
  told : ∀ ticket told, t.resolved.find? ticket = some told → ∃ key, (key, ticket) ∈ callers
  free : t.Untold
  ready : ∀ key items, t.readyAt? key = some items → ∀ m ∈ items, m.key = key
  sent : ∀ key ticket batch, (key, ticket) ∈ callers → t.Sent ticket batch →
    ∀ m ∈ batch.items, m.key = key

namespace Manned

variable [DecidableEq κ]

/-- A ticket belongs to one key. -/
theorem one (h : Manned t callers) {k : κ} (hk : (key, ticket) ∈ callers)
    (hk' : (k, ticket) ∈ callers) : k = key :=
  congrArg Prod.fst (List.inj_on_of_nodup_map h.apart hk' hk rfl)

/-- The next ticket was told nothing: what was told something is a caller's, and
a caller's ticket is not new. -/
theorem untold_next (h : Manned t callers) : t.resolved.find? t.nextTicket = none := by
  by_contra hsome
  obtain ⟨told, htold⟩ := Option.ne_none_iff_exists'.mp hsome
  obtain ⟨key, hin⟩ := h.told _ told htold
  exact Nat.lt_irrefl _ (h.early key _ hin)

/-- Who waits lives. -/
theorem live (h : Manned t callers) (hw : t.Waits key ticket) : ticket ∈ callers.map (·.2) :=
  List.mem_map.mpr ⟨_, h.waits key ticket hw, rfl⟩

theorem empty : Manned (Table.empty : Table κ (Letter κ α)) [] where
  early _ _ h := by simp at h
  apart := List.nodup_nil
  waits _ _ h := absurd h Table.not_waits_empty
  told _ _ h := by simp [Table.empty] at h
  free _ _ h := absurd h Table.not_waits_empty
  ready _ _ h := by simp [Table.readyAt?_empty] at h
  sent _ _ _ h := by simp at h

/-- An arrival under a key. -/
theorem put (h : Manned t callers) (hf : Table.Joins f items)
    (hkey : ∀ m ∈ items, m.key = key) : Manned (t.put f key items) callers := by
  rcases t.put_cases f key items with ⟨old, hold, he⟩ | ⟨hnone, -, he⟩ | ⟨-, -, he⟩ <;> rw [he]
  · refine ⟨h.early, h.apart, h.waits, h.told, h.free, fun k found hk m hm => ?_, h.sent⟩
    rw [Table.readyAt?_changeReady, hold] at hk
    split at hk
    · next hkk =>
      obtain rfl : f old = found := by simpa using hk
      rcases hf.mem.mp hm with hm | hm
      · exact hkk ▸ hkey m hm
      · exact hkk ▸ h.ready key old hold m hm
    · exact h.ready k found hk m hm
  · refine ⟨h.early, h.apart, h.waits, h.told, h.free, fun k found hk m hm => ?_, h.sent⟩
    rw [Table.readyAt?_start hnone] at hk
    split at hk
    · next hkk =>
      obtain rfl : items = found := by simpa using hk
      exact hkk ▸ hkey m hm
    · exact h.ready k found hk m hm
  · refine ⟨h.early, h.apart, fun k i hw => h.waits k i (Table.waits_resolve.mp hw).1,
      fun i told hi => ?_, fun k i hw => ?_, h.ready, fun k i batch hin hsent m hm => ?_⟩
    · rw [Table.find?_resolve] at hi
      split at hi
      · next hw => exact ⟨key, h.waits key i (Table.mem_waitingOn.mp hw)⟩
      · exact h.told i told hi
    -- who waits on another key was not among those who were answered
    · obtain ⟨hwait, hne⟩ := Table.waits_resolve.mp hw
      have hother : i ∉ t.waitingOn key := fun hin =>
        hne (h.one (h.waits key i (Table.mem_waitingOn.mp hin)) (h.waits k i hwait))
      rw [Table.find?_resolve, if_neg hother]
      exact h.free k i hwait
    · rcases (Table.sent_resolve h.free).mp hsent with hold | ⟨hw, rfl⟩
      · exact h.sent k i batch hin hold m hm
      · rw [h.one (h.waits key i hw) hin]
        exact hkey m hm

/-- A caller goes. -/
theorem forget (h : Manned t callers) (ticket : ℕ) :
    Manned (t.forget ticket) (callers.filter (·.2 ≠ ticket)) where
  early k i hin := h.early k i (List.mem_filter.mp hin).1
  apart := h.apart.sublist (List.filter_sublist.map _)
  waits k i hw := by
    obtain ⟨hwait, hne⟩ := Table.waits_forget.mp hw
    exact List.mem_filter.mpr ⟨h.waits k i hwait, by simpa using hne⟩
  told i told hi := by
    rw [Table.forget, Handles.find?_erase] at hi
    split at hi
    · simp at hi
    · next hne =>
      obtain ⟨k, hin⟩ := h.told i told hi
      exact ⟨k, List.mem_filter.mpr ⟨hin, by simpa using hne⟩⟩
  free k i hw := by
    obtain ⟨hwait, hne⟩ := Table.waits_forget.mp hw
    rw [Table.forget, Handles.find?_erase, if_neg hne]
    exact h.free k i hwait
  ready := h.ready
  sent k i batch hin hsent :=
    h.sent k i batch (List.mem_filter.mp hin).1 (Table.sent_forget.mp hsent).1

/-- The connection ends. -/
theorem fail (h : Manned t callers) (reason : BrokenReason) :
    Manned (t.fail reason).2 callers where
  early := h.early
  apart := h.apart
  waits _ _ hw := absurd hw Table.not_waits_fail
  told i told hi := by
    rw [Table.resolved_fail, Handles.find?_foldl_insert] at hi
    split at hi
    · next hw =>
      obtain ⟨⟨k, _⟩, hwait, rfl⟩ := List.mem_map.mp hw
      exact ⟨k, h.waits k _ hwait⟩
    · exact h.told i told hi
  free _ _ hw := absurd hw Table.not_waits_fail
  ready := h.ready
  sent k i batch hin hsent := h.sent k i batch hin ((Table.sent_fail h.free).mp hsent)

/-- A caller comes. Its ticket is new. -/
theorem enter (h : Manned t callers) (key : κ) :
    Manned (t.enter key).2 (callers ++ [(key, t.nextTicket)]) where
  early k i hin := by
    show i < t.nextTicket + 1
    rcases List.mem_append.mp hin with hold | hnew
    · have := h.early k i hold
      omega
    · obtain ⟨-, rfl⟩ : k = key ∧ i = t.nextTicket := by simpa using hnew
      omega
  apart := by
    rw [List.map_append]
    refine List.Nodup.append h.apart (by simp) ?_
    simp only [List.map_cons, List.map_nil, List.disjoint_singleton, List.mem_map, not_exists]
    rintro ⟨k, _⟩ ⟨hin, rfl⟩
    exact Nat.lt_irrefl _ (h.early k _ hin)
  waits k i hw := by
    rcases List.mem_append.mp hw with hold | hnew
    · exact List.mem_append.mpr (.inl (h.waits k i hold))
    · exact List.mem_append.mpr (.inr hnew)
  told i told hi := by
    obtain ⟨k, hin⟩ := h.told i told hi
    exact ⟨k, List.mem_append.mpr (.inl hin)⟩
  free k i hw := by
    rcases List.mem_append.mp hw with hold | hnew
    · exact h.free k i hold
    · obtain ⟨-, rfl⟩ : k = key ∧ i = t.nextTicket := by simpa using hnew
      exact h.untold_next
  ready := h.ready
  sent k i batch hin hsent := by
    rcases List.mem_append.mp hin with hold | hnew
    · exact h.sent k i batch hold hsent
    · obtain ⟨-, rfl⟩ : k = key ∧ i = t.nextTicket := by simpa using hnew
      have hnone : (t.enter key).2.resolved.find? t.nextTicket = none := h.untold_next
      simp [Table.Sent, hnone] at hsent

/-- What is ready is taken, and nothing else changes for the callers. -/
theorem of_taken (h : Manned t callers) (htaken : t.Taken u key) : Manned u callers where
  early := htaken.nextTicket ▸ h.early
  apart := h.apart
  waits k i hw := by
    rw [Table.Waits, htaken.waiting] at hw
    exact h.waits k i hw
  told := htaken.resolved ▸ h.told
  free k i hw := by
    rw [Table.Waits, htaken.waiting] at hw
    rw [htaken.resolved]
    exact h.free k i hw
  ready k found hk := by
    rw [htaken.ready] at hk
    split at hk
    · simp at hk
    · exact h.ready k found hk
  sent k i b hin hb := h.sent k i b hin (htaken.sent.mp hb)

/-- A caller collects its batch. -/
theorem collect (h : Manned t callers) (ticket handle : ℕ) (batch : Batch (Letter κ α))
    (hsent : t.Sent ticket batch) :
    Manned (t.collect ticket handle batch) (callers.filter (·.2 ≠ ticket)) := by
  have left := h.forget ticket
  refine ⟨left.early, left.apart, fun k i hw => ?_, left.told, fun k i hw => ?_, left.ready,
    left.sent⟩
  -- who was sent a batch does not wait, so collecting it ends no waiting
  all_goals
    have hne : i ≠ ticket := by
      rintro rfl
      have hnone := h.free k i hw
      simp [Table.Sent, hnone] at hsent
  · exact left.waits k i (Table.waits_forget.mpr ⟨hw, hne⟩)
  · exact left.free k i (Table.waits_forget.mpr ⟨hw, hne⟩)

end Manned

end FramedDuplex
