import FramedDuplex.Proofs.Exchange.Callers
/-!
# Serial numbers

Callers that are answered together are sent one batch, and its serial number is
how the table tells whether anybody else has a share of it. That works because a
serial number is one batch's, whether the batch is still to be collected, was
collected or is held (`Serials`). So the table is right about the batch of a
caller that goes: if it is not put back then it is not lost either
(`Serials.other_share`).
-/

namespace FramedDuplex

variable {κ α : Type} {t u : Table κ (Letter κ α)} {key : κ} {ticket : ℕ}
variable {items : List (Letter κ α)} {batch : Batch (Letter κ α)}
variable {handed more : List (Handout κ α)} {f : List (Letter κ α) → List (Letter κ α)}

/-- A batch was sent: it is still to be collected, or a share of it was. -/
def WasSent (t : Table κ (Letter κ α)) (handed : List (Handout κ α))
    (batch : Batch (Letter κ α)) : Prop :=
  (∃ ticket, t.Sent ticket batch) ∨ ∃ key ticket, .share key ticket batch ∈ handed

/-- **A serial number is one batch's**, and who holds a batch that others are
still to collect has it from one who did collect it. -/
structure Serials (t : Table κ (Letter κ α)) (handed : List (Handout κ α)) : Prop where
  early : ∀ a, WasSent t handed a → a.serial < t.nextSerial
  heldEarly : ∀ n a, t.held.find? n = some a → a.serial < t.nextSerial
  one : ∀ a c, WasSent t handed a → WasSent t handed c → a.serial = c.serial → a = c
  collected : ∀ a n c, WasSent t handed a → t.held.find? n = some c → a.serial = c.serial →
    ∃ key ticket, .share key ticket a ∈ handed

namespace Serials

theorem empty : Serials (Table.empty : Table κ (Letter κ α)) [] := by
  have none : ∀ a, ¬ WasSent (Table.empty : Table κ (Letter κ α)) [] a := by
    rintro a (⟨ticket, h⟩ | ⟨key, ticket, h⟩)
    · exact Table.not_sent_empty h
    · simp at h
  exact ⟨fun a h => absurd h (none a), fun n a h => by simp [Table.empty] at h,
    fun a c h => absurd h (none a), fun a n c h => absurd h (none a)⟩

/-- Nothing new is sent or held. -/
theorem mono (h : Serials t handed) (hsent : ∀ a, WasSent u more a → WasSent t handed a)
    (hserial : t.nextSerial ≤ u.nextSerial)
    (hheld : ∀ n a, u.held.find? n = some a → ∃ m, t.held.find? m = some a)
    (hmore : ∀ out ∈ handed, out ∈ more) : Serials u more where
  early a ha := Nat.lt_of_lt_of_le (h.early a (hsent a ha)) hserial
  heldEarly n a ha := by
    obtain ⟨m, hm⟩ := hheld n a ha
    exact Nat.lt_of_lt_of_le (h.heldEarly m a hm) hserial
  one a c ha hc := h.one a c (hsent a ha) (hsent c hc)
  collected a n c ha hc he := by
    obtain ⟨m, hm⟩ := hheld n c hc
    obtain ⟨key, ticket, hshare⟩ := h.collected a m c (hsent a ha) hm he
    exact ⟨key, ticket, hmore _ hshare⟩

theorem forget (h : Serials t handed) (ticket : ℕ) : Serials (t.forget ticket) handed := by
  refine h.mono ?_ (Nat.le_refl _) (fun n a ha => ⟨n, ha⟩) fun _ => id
  rintro a (⟨i, hs⟩ | hshare)
  · exact .inl ⟨i, (Table.sent_forget.mp hs).1⟩
  · exact .inr hshare

/-- **A batch that an arrival makes has a new number.** -/
theorem put [DecidableEq κ] (h : Serials t handed) (free : t.Untold) :
    Serials (t.put f key items) handed := by
  rcases t.put_cases f key items with ⟨old, -, he⟩ | ⟨-, -, he⟩ | ⟨-, -, he⟩ <;> rw [he]
  · exact h.mono (fun _ => id) (Nat.le_refl _) (fun n a ha => ⟨n, ha⟩) fun _ => id
  · exact h.mono (fun _ => id) (Nat.le_refl _) (fun n a ha => ⟨n, ha⟩) fun _ => id
  · have sent : ∀ a, WasSent (t.resolve key items) handed a →
        WasSent t handed a ∨ a = ⟨t.nextSerial, items⟩ := by
      rintro a (⟨i, hs⟩ | hshare)
      · rcases (Table.sent_resolve free).mp hs with hold | ⟨-, rfl⟩
        · exact .inl (.inl ⟨i, hold⟩)
        · exact .inr rfl
      · exact .inl (.inr hshare)
    refine ⟨fun a ha => ?_, fun n a ha => ?_, fun a c ha hc he => ?_, fun a n c ha hc he => ?_⟩
    · rcases sent a ha with hold | rfl
      · exact Nat.lt_succ_of_lt (h.early a hold)
      · exact Nat.lt_succ_self _
    · exact Nat.lt_succ_of_lt (h.heldEarly n a ha)
    -- an old batch and the new one differ in their numbers
    · rcases sent a ha with hold | rfl <;> rcases sent c hc with hold' | rfl
      · exact h.one a c hold hold' he
      · exact absurd he (Nat.ne_of_lt (h.early a hold))
      · exact absurd he.symm (Nat.ne_of_lt (h.early c hold'))
      · rfl
    · rcases sent a ha with hold | rfl
      · exact h.collected a n c hold hc he
      · exact absurd he.symm (Nat.ne_of_lt (h.heldEarly n c hc))

/-- **A batch made of messages that were taken has a new number too.** -/
theorem holdNew (h : Serials t handed) (handle : ℕ) (items : List (Letter κ α)) :
    Serials (t.holdNew handle items) handed where
  early a ha := Nat.lt_succ_of_lt (h.early a ha)
  heldEarly n a ha := by
    rw [Table.holdNew, Handles.find?_insert] at ha
    split at ha
    · obtain rfl : ⟨t.nextSerial, items⟩ = a := by simpa using ha
      exact Nat.lt_succ_self _
    · exact Nat.lt_succ_of_lt (h.heldEarly n a ha)
  one := h.one
  collected a n c ha hc he := by
    rw [Table.holdNew, Handles.find?_insert] at hc
    split at hc
    · obtain rfl : ⟨t.nextSerial, items⟩ = c := by simpa using hc
      exact absurd he (Nat.ne_of_lt (h.early a ha))
    · exact h.collected a n c ha hc he

/-- The share that a caller collects is handed out. -/
theorem collect (h : Serials t handed) (key : κ) (handle : ℕ) (hsent : t.Sent ticket batch) :
    Serials (t.collect ticket handle batch) (handed ++ [.share key ticket batch]) := by
  have sent : ∀ a, WasSent (t.collect ticket handle batch)
      (handed ++ [.share key ticket batch]) a → WasSent t handed a := by
    rintro a (⟨i, hs⟩ | ⟨k, i, hshare⟩)
    · exact .inl ⟨i, (Table.sent_forget.mp hs).1⟩
    · rcases List.mem_append.mp hshare with hold | hnew
      · exact .inr ⟨k, i, hold⟩
      · obtain ⟨-, rfl, rfl⟩ : k = key ∧ i = ticket ∧ a = batch := by simpa using hnew
        exact .inl ⟨_, hsent⟩
  refine ⟨fun a ha => h.early a (sent a ha), fun n a ha => ?_,
    fun a c ha hc => h.one a c (sent a ha) (sent c hc), fun a n c ha hc he => ?_⟩
  · rw [Table.collect, Handles.find?_insert] at ha
    split at ha
    · obtain rfl : batch = a := by simpa using ha
      exact h.early _ (.inl ⟨_, hsent⟩)
    · exact h.heldEarly n a ha
  · rw [Table.collect, Handles.find?_insert] at hc
    split at hc
    -- what is held now is the batch just collected, and its number is no other's
    · obtain rfl : batch = c := by simpa using hc
      obtain rfl := h.one a _ (sent a ha) (.inl ⟨_, hsent⟩) he
      exact ⟨key, ticket, List.mem_append.mpr (.inr (by simp))⟩
    · obtain ⟨k, i, hshare⟩ := h.collected a n c (sent a ha) hc he
      exact ⟨k, i, List.mem_append.mpr (.inl hshare)⟩

/-- **A batch with other shares is not lost** when a receiver goes: another was
sent it, or a share of it was collected. -/
theorem other_share (h : Serials t handed) (tidy : t.Tidy) (hsent : t.Sent ticket batch)
    (hshares : (t.forget ticket).shares batch.serial ≠ 0) :
    (∃ i, (t.forget ticket).Sent i batch) ∨ ∃ key i, .share key i batch ∈ handed := by
  rw [Ne, Table.shares_eq_zero_iff (tidy.forget ticket), not_and_or] at hshares
  rcases hshares with hother | hheld
  · push Not at hother
    obtain ⟨i, c, hc, he⟩ := hother
    have hold := (Table.sent_forget.mp hc).1
    obtain rfl := h.one c batch (.inl ⟨i, hold⟩) (.inl ⟨ticket, hsent⟩) he
    exact .inl ⟨i, hc⟩
  · push Not at hheld
    obtain ⟨n, c, hc, he⟩ := hheld
    exact .inr (h.collected batch n c (.inl ⟨ticket, hsent⟩) hc he.symm)

end Serials

end FramedDuplex
