import FramedDuplex.Proofs.Exchange.Woken
/-!
# The table when the connection has ended

What callers do and answers that arrive tell nobody that the connection has
ended, and do not end it. Once it has ended, and with it the waiting, they tell
nobody anything any more: what a caller was told stays as it is until the caller
has heard it (`Table.Later`).

The end itself tells each caller that was told nothing why the connection ended,
wakes the cursors, and touches nothing else (`Exchange.Ended`).
-/

namespace FramedDuplex

variable {κ α : Type}

namespace Table

variable {t u : Table κ α} {key : κ} {items : List α} {ticket : ℕ}

/-- The table `u` comes after `t`, with nothing in between but what callers do and
answers that arrive. -/
structure Later (t u : Table κ α) : Prop where
  broken : u.broken = t.broken
  /-- Nobody is told that the connection has ended. -/
  told : ∀ ticket reason, u.resolved.find? ticket = some (.broken reason) →
    t.resolved.find? ticket = some (.broken reason)
  /-- Where the connection has ended and nobody waits, nobody is told anything. -/
  closed : t.broken.isSome = true → t.waiting = [] → u.waiting = [] ∧
    ∀ ticket told, u.resolved.find? ticket = some told → t.resolved.find? ticket = some told

namespace Later

theorem refl (t : Table κ α) : t.Later t := ⟨rfl, fun _ _ => id, fun _ hnil => ⟨hnil, fun _ _ => id⟩⟩

theorem trans {v : Table κ α} (h : t.Later u) (h' : u.Later v) : t.Later v where
  broken := h'.broken.trans h.broken
  told ticket reason hv := h.told ticket reason (h'.told ticket reason hv)
  closed hover hnil := by
    obtain ⟨hnil', hsame⟩ := h.closed hover hnil
    obtain ⟨hnil'', hsame'⟩ := h'.closed (h.broken ▸ hover) hnil'
    exact ⟨hnil'', fun ticket told hv => hsame ticket told (hsame' ticket told hv)⟩

/-- Nobody comes, and nobody is told anything. -/
theorem of_fewer (hbroken : u.broken = t.broken) (hwaiting : t.waiting = [] → u.waiting = [])
    (hresolved : ∀ ticket told, u.resolved.find? ticket = some told →
      t.resolved.find? ticket = some told) : t.Later u :=
  ⟨hbroken, fun ticket _ => hresolved ticket _, fun _ hnil => ⟨hwaiting hnil, hresolved⟩⟩

theorem of_same (hbroken : u.broken = t.broken) (hwaiting : u.waiting = t.waiting)
    (hresolved : u.resolved = t.resolved) : t.Later u :=
  of_fewer hbroken (fun hnil => hwaiting.trans hnil) fun _ _ hu => hresolved ▸ hu

theorem forget (t : Table κ α) (ticket : ℕ) : t.Later (t.forget ticket) := by
  refine of_fewer rfl (fun hnil => ?_) fun other told hu => ?_
  · show t.waiting.filter _ = []
    rw [hnil]
    rfl
  · simp only [Table.forget, Handles.find?_erase] at hu
    split at hu
    · simp at hu
    · exact hu

theorem collect (t : Table κ α) (ticket handle : ℕ) (batch : Batch α) :
    t.Later (t.collect ticket handle batch) := by
  refine of_fewer rfl id fun other told hu => ?_
  simp only [Table.collect, Handles.find?_erase] at hu
  split at hu
  · simp at hu
  · exact hu

theorem takeNext (t : Table κ α) : t.Later t.takeNext.2 := by
  rw [takeNext_snd]
  exact of_same rfl rfl rfl

variable [DecidableEq κ]

/-- An arrival answers those who wait, if any do, with a batch. -/
theorem put (t : Table κ α) (f : List α → List α) (key : κ) (items : List α) :
    t.Later (t.put f key items) := by
  rcases t.put_cases f key items with ⟨old, -, he⟩ | ⟨-, -, he⟩ | ⟨-, ⟨other, hwaits⟩, he⟩ <;> rw [he]
  · exact of_same rfl rfl rfl
  · exact of_same rfl rfl rfl
  · refine ⟨rfl, fun ticket reason hu => ?_, fun _ hnil => ?_⟩
    · rw [find?_resolve] at hu
      split at hu
      · simp at hu
      · exact hu
    · rw [Waits, hnil] at hwaits
      simp at hwaits

omit [DecidableEq κ] in
theorem enter (hopen : t.broken = none) (key : κ) : t.Later (t.enter key).2 :=
  ⟨rfl, fun _ _ => id, fun hover => by simp [hopen] at hover⟩

/-- **No turn at the table ends the connection**, or tells anybody that it has
ended. -/
theorem turn {P : Part κ} (h : t.Turn P u) : t.Later u := by
  cases h with
  | put f items => exact put t f _ items
  | forget => exact forget ..
  | enter _ _ _ hopen => exact enter hopen _
  | collect => exact collect ..
  | takeNext => exact takeNext t
  | takeReady | holdNew | lend | release => exact of_same rfl rfl rfl

theorem turns {P : Part κ} (h : t.Turns P u) : t.Later u := by
  induction h with
  | refl => exact refl t
  | tail _ step ih => exact ih.trans (turn step)

end Later

end Table

namespace Exchange

variable {x : Exchange κ α} {handle now : ℕ} {key : κ} {fired : Option Bool}
variable {deadline : Option ℕ} {reason : BrokenReason}

/-! ## What callers do -/

variable [DecidableEq κ]

/-- **Callers do not end the connection**, and tell nobody that it has ended. -/
theorem later_act (x : Exchange κ α) (now : ℕ) (deadline : Option ℕ) (move : Move κ) :
    x.table.Later (x.act now deadline move).2.table :=
  .turns (turns_act (fun _ _ => rfl) (minds_all x move) now deadline)

theorem later_deliver (x : Exchange κ α) (key : κ) (item : α) :
    x.table.Later (x.deliver key item).table :=
  .turns (turns_deliver (P := .all) rfl x item)

/-! ## What callers are told -/

/-- A number whose call was let go has none. -/
theorem find?_quit (x : Exchange κ α) (handle : ℕ) (key : κ) (ticket : ℕ) :
    (x.quit handle key ticket).calls.find? handle = none := by
  rw [quit, settleTable]
  cases (x.table.leave key ticket).2 <;> simp [wake]

/-- A number whose call was dropped has none. -/
theorem find?_vacate (x : Exchange κ α) (handle : ℕ) :
    (x.vacate handle).calls.find? handle = none := by
  unfold vacate
  split
  · exact find?_quit ..
  · simp
  · assumption

theorem vacate_vacate (x : Exchange κ α) (handle : ℕ) :
    (x.vacate handle).vacate handle = x.vacate handle := by
  generalize hy : x.vacate handle = y
  have hnone : y.calls.find? handle = none := hy ▸ find?_vacate x handle
  unfold vacate
  rw [hnone]

end Exchange

end FramedDuplex
