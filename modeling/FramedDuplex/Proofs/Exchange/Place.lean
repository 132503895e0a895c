import FramedDuplex.Proofs.Exchange.Table
/-!
# Where an answer is

An answer on the table is ready under a key or lies in a batch that was sent
(`Place`). Callers who share a batch have it in one place. What the operations
on the table do is said here in terms of places: an arrival puts all its answers
in one place and moves no other (`Table.at_put`), and a caller that goes leaves
every answer where it was except those of its own batch
(`Table.at_forget_of_at`). What holds of every batch on the table is
`Table.Every`.
-/

namespace FramedDuplex

/-- A place for answers on the table. -/
inductive Place (κ : Type) where
  | ready (key : κ)
  /-- In the batch with a serial number, on the way to those who share it. -/
  | sent (serial : ℕ)

namespace Table

variable {κ α : Type} [DecidableEq κ] {t : Table κ α} {f : List α → List α}
variable {key : κ} {item : α} {items : List α} {place : Place κ} {ticket : ℕ} {batch : Batch α}
variable {Q : List α → Prop}

/-- An answer is in a place. -/
def At (t : Table κ α) (item : α) : Place κ → Prop
  | .ready key => ∃ items, t.readyAt? key = some items ∧ item ∈ items
  | .sent serial => ∃ ticket batch, t.Sent ticket batch ∧ batch.serial = serial ∧ item ∈ batch.items

/-- Everything that is ready or was sent has a property. -/
def Every (t : Table κ α) (Q : List α → Prop) : Prop :=
  (∀ key items, t.readyAt? key = some items → Q items) ∧
    ∀ ticket batch, t.Sent ticket batch → Q batch.items

theorem Sent.at (h : t.Sent ticket batch) (hitem : item ∈ batch.items) :
    t.At item (.sent batch.serial) :=
  ⟨ticket, batch, h, rfl, hitem⟩

theorem not_at_empty : ¬ (empty : Table κ α).At item place := by
  cases place with
  | ready key => simp [At, readyAt?_empty]
  | sent serial => simp [At, not_sent_empty]

theorem every_empty : (empty : Table κ α).Every Q :=
  ⟨fun key items h => by simp [readyAt?_empty] at h, fun _ _ h => absurd h not_sent_empty⟩

/-! ## Changes that move nothing -/

variable {u : Table κ α}

/-- Places depend on what is ready and what was sent, and on nothing else. -/
theorem at_congr (hready : ∀ key, u.readyAt? key = t.readyAt? key)
    (hsent : ∀ ticket batch, u.Sent ticket batch ↔ t.Sent ticket batch) :
    u.At item place ↔ t.At item place := by
  cases place with
  | ready key => simp only [At, hready]
  | sent serial => simp only [At, hsent]

theorem every_congr (hready : ∀ key, u.readyAt? key = t.readyAt? key)
    (hsent : ∀ ticket batch, u.Sent ticket batch ↔ t.Sent ticket batch) :
    u.Every Q ↔ t.Every Q := by
  simp only [Every, hready, hsent]

/-! ## Arrivals -/

/-- **An arrival puts its answers in one place**, under the key or in a new
batch, and moves no other. -/
theorem at_put (key : κ) (free : t.Untold) (hf : Joins f items) :
    ∃ home : Place κ, (home = .ready key ∨ home = .sent t.nextSerial) ∧
      ∀ item place, (t.put f key items).At item place ↔
        t.At item place ∨ (item ∈ items ∧ place = home) := by
  rcases put_cases t f key items with ⟨old, hold, he⟩ | ⟨hnone, -, he⟩ | ⟨-, hw, he⟩ <;> rw [he]
  · refine ⟨.ready key, .inl rfl, fun item place => ?_⟩
    cases place with
    | sent serial => simp [At, Sent, changeReady]
    | ready k =>
      simp only [At, readyAt?_changeReady, hold]
      by_cases hk : k = key
      · subst hk
        simp [hold, hf.mem, or_comm]
      · simp [hk]
  · refine ⟨.ready key, .inl rfl, fun item place => ?_⟩
    cases place with
    | sent serial => simp [At, Sent, start]
    | ready k =>
      simp only [At, readyAt?_start hnone]
      by_cases hk : k = key
      · subst hk
        simp [hnone]
      · simp [hk]
  · refine ⟨.sent t.nextSerial, .inr rfl, fun item place => ?_⟩
    cases place with
    | ready k => simp [At, readyAt?, resolve]
    | sent serial =>
      -- somebody waits, so the new batch is a place that answers can be in
      obtain ⟨waiter, hwaiter⟩ := hw
      simp only [At, sent_resolve free]
      constructor
      · rintro ⟨ticket, batch, hsent | ⟨-, rfl⟩, rfl, hitem⟩
        · exact .inl ⟨ticket, batch, hsent, rfl, hitem⟩
        · exact .inr ⟨hitem, rfl⟩
      · rintro (⟨ticket, batch, hsent, rfl, hitem⟩ | ⟨hitem, hplace⟩)
        · exact ⟨ticket, batch, .inl hsent, rfl, hitem⟩
        · obtain rfl : serial = t.nextSerial := by simpa using hplace
          exact ⟨waiter, _, .inr ⟨hwaiter, rfl⟩, rfl, hitem⟩

/-- What holds of every batch holds after an arrival, if it holds of what
arrives, alone and joined to what is ready. -/
theorem Every.put (h : t.Every Q) (free : t.Untold) (hitems : Q items)
    (hjoin : ∀ old, t.readyAt? key = some old → Q (f old)) : (t.put f key items).Every Q := by
  rcases put_cases t f key items with ⟨old, hold, he⟩ | ⟨hnone, -, he⟩ | ⟨-, -, he⟩ <;> rw [he]
  · refine ⟨fun k found hk => ?_, h.2⟩
    rw [readyAt?_changeReady, hold] at hk
    split at hk
    · obtain rfl : f old = found := by simpa using hk
      exact hjoin old hold
    · exact h.1 k found hk
  · refine ⟨fun k found hk => ?_, h.2⟩
    rw [readyAt?_start hnone] at hk
    split at hk
    · obtain rfl : items = found := by simpa using hk
      exact hitems
    · exact h.1 k found hk
  · refine ⟨h.1, fun ticket batch hsent => ?_⟩
    rcases (sent_resolve free).mp hsent with hold | ⟨-, rfl⟩
    · exact h.2 ticket batch hold
    · exact hitems

/-! ## Answers that are taken -/

/-- Taking what is ready under a key leaves all other answers where they are. -/
theorem at_of_taken (h : t.Taken u key) :
    u.At item place ↔ t.At item place ∧ place ≠ .ready key := by
  cases place with
  | sent serial => simp [At, h.sent]
  | ready k =>
    simp only [At, h.ready, ne_eq, Place.ready.injEq]
    by_cases hk : k = key
    · simp [hk]
    · simp [hk]

theorem Every.of_taken (h : t.Every Q) (htaken : t.Taken u key) : u.Every Q := by
  refine ⟨fun k items hk => ?_, fun ticket batch hs => h.2 ticket batch (htaken.sent.mp hs)⟩
  rw [htaken.ready] at hk
  split at hk
  · simp at hk
  · exact h.1 k items hk

/-! ## Callers that go -/

theorem at_of_at_forget (h : (t.forget ticket).At item place) : t.At item place := by
  cases place with
  | ready key => exact h
  | sent serial =>
    obtain ⟨other, batch, hsent, hserial, hitem⟩ := h
    exact ⟨other, batch, (sent_forget.mp hsent).1, hserial, hitem⟩

/-- **A caller that goes takes no answer from its place** but those of the batch
it was sent. -/
theorem at_forget_of_at (ticket : ℕ) (h : t.At item place) : (t.forget ticket).At item place ∨
    ∃ batch, t.Sent ticket batch ∧ item ∈ batch.items ∧ place = .sent batch.serial := by
  cases place with
  | ready key => exact .inl h
  | sent serial =>
    obtain ⟨other, batch, hsent, rfl, hitem⟩ := h
    by_cases ho : other = ticket
    · exact .inr ⟨batch, ho ▸ hsent, hitem, rfl⟩
    · exact .inl ⟨other, batch, sent_forget.mpr ⟨hsent, ho⟩, rfl, hitem⟩

theorem Every.forget (h : t.Every Q) (ticket : ℕ) : (t.forget ticket).Every Q :=
  ⟨h.1, fun other batch hsent => h.2 other batch (sent_forget.mp hsent).1⟩

end Table

end FramedDuplex
