import FramedDuplex.Proofs.Exchange.Follow
/-!
# When a message is handed out once

Callers that wait on a key together and are answered together share a batch, and
nobody else should ever get a message of it. That holds until the last of them
that has not collected goes after all who did collect have dropped their shares:
nobody has a share then, so the table takes the batch for one that nobody ever
saw and puts it back (`Board.Revives`). It is the only way in which a message is
handed out again: along a run each message is handed out once, or to callers who
waited together, exactly if no caller that goes revives a batch
(`Exchange.single_iff`).

The argument has two parts. Shares of one batch were sent at one moment to
callers who waited then (`Board.together`), and a board on which nothing was
revived has no other way to a message that was handed out (`Board.Fair`).
-/

namespace FramedDuplex

variable {κ α : Type} [DecidableEq κ] {b : Board κ α} {d : Deed κ α}
variable {t u : Table κ (Letter κ α)} {key : κ} {items : List (Letter κ α)} {m : Letter κ α}
variable {i j ticket : ℕ} {a batch : Batch (Letter κ α)} {journal p : List (Deed κ α)}

namespace Board

/-! ## Waiting ends once -/

/-- Only a new caller begins to wait. -/
theorem waits_of_perform (h : (b.perform d).table.Waits key i) :
    b.table.Waits key i ∨ i = b.table.nextTicket := by
  cases d with
  | bring message =>
    rw [perform, Table.deliver_eq_put] at h
    exact .inl (Table.waits_of_put h)
  | fail reason => exact absurd h Table.not_waits_fail
  | enter k =>
    rcases List.mem_append.mp h with hold | hnew
    · exact .inl hold
    · obtain ⟨-, rfl⟩ : key = k ∧ i = b.table.nextTicket := by simpa using hnew
      exact .inr rfl
  | leave k ticket =>
    rw [perform] at h
    rcases b.table.leave_cases k ticket with ⟨he, -⟩ | ⟨batch, -, -, he⟩ <;> rw [he] at h
    · exact .inl (Table.waits_forget.mp h).1
    · exact .inl (Table.waits_forget.mp (Table.waits_of_put h)).1
  | take k items =>
    rw [perform, Table.takeNext_snd] at h
    exact .inl h
  | _ => exact .inl h

theorem nextTicket_le_perform (b : Board κ α) (d : Deed κ α) :
    b.table.nextTicket ≤ (b.perform d).table.nextTicket := by
  cases d with
  | bring message =>
    rw [perform, Table.deliver_eq_put, Table.nextTicket_put]
  | enter k => exact Nat.le_succ _
  | leave k ticket =>
    rw [perform]
    rcases b.table.leave_cases k ticket with ⟨he, -⟩ | ⟨batch, -, -, he⟩ <;> rw [he]
    · exact Nat.le_refl _
    · rw [Table.nextTicket_put]
      exact Nat.le_refl _
  | take k items => rw [perform, Table.takeNext_snd]
  | _ => exact Nat.le_refl _

/-- **Who does not wait any more never will.** -/
theorem not_waits_after (hlt : i < b.table.nextTicket) (h : ¬ b.table.Waits key i)
    (journal : List (Deed κ α)) : ¬ (b.after journal).table.Waits key i := by
  induction journal generalizing b with
  | nil => exact h
  | cons d rest ih =>
    refine ih (Nat.lt_of_lt_of_le hlt (b.nextTicket_le_perform d)) fun hw => ?_
    rcases waits_of_perform hw with hold | rfl
    · exact h hold
    · exact Nat.lt_irrefl _ hlt

/-- So a caller that was sent a batch waits no more. -/
theorem not_waits_of_sent (permits : (empty : Board κ α).Permits journal) (hp : p <+: journal)
    (hsent : (empty.after p).table.Sent i a) : ¬ (empty.after journal).table.Waits key i := by
  have sound := sound_after (permits.of_prefix hp)
  obtain ⟨k, hin⟩ := sound.manned.told i _ hsent
  have hstill : ¬ (empty.after p).table.Waits key i := by
    intro hw
    have hnone := sound.manned.free key i hw
    simp [Table.Sent, hnone] at hsent
  obtain ⟨rest, rfl⟩ := hp
  rw [after_append]
  exact not_waits_after (sound.manned.early k i hin) hstill rest

/-! ## Shares -/

/-- A caller was sent a batch, whether it collected it or not. -/
def Got (b : Board κ α) (i : ℕ) (a : Batch (Letter κ α)) : Prop :=
  b.table.Sent i a ∨ ∃ key, .share key i a ∈ b.handed

omit [DecidableEq κ] in
theorem Got.wasSent (h : b.Got i a) : WasSent b.table b.handed a := by
  rcases h with hsent | ⟨key, hshare⟩
  · exact .inl ⟨i, hsent⟩
  · exact .inr ⟨key, i, hshare⟩

/-- **A deed gives callers shares of one new batch at most**, and those waited for
its messages. -/
theorem got_of_perform (h : b.Sound) (hd : b.Allows d) (hgot : (b.perform d).Got i a) :
    b.Got i a ∨ (a.serial = b.table.nextSerial ∧ (b.perform d).table.Sent i a ∧
      ∀ m ∈ a.items, b.table.Waits m.key i) := by
  rcases hgot with hsent | ⟨k, hshare⟩
  · cases d with
    | bring message =>
      have hput := hsent
      rw [perform, Table.deliver_eq_put] at hput
      rcases Table.sent_of_put h.manned.free hput with hold | ⟨hw, rfl⟩
      · exact .inl (.inl hold)
      · exact .inr ⟨rfl, hsent, fun m hm => List.mem_singleton.mp hm ▸ hw⟩
    | fail reason => exact .inl (.inl ((Table.sent_fail h.manned.free).mp hsent))
    | leave k ticket =>
      have hleft := hsent
      rw [perform] at hleft
      rcases b.table.leave_cases k ticket with ⟨he, -⟩ | ⟨batch, hbatch, -, he⟩ <;>
        rw [he] at hleft
      · exact .inl (.inl (Table.sent_forget.mp hleft).1)
      · rcases Table.sent_of_put (h.manned.forget ticket).free hleft with hold | ⟨hw, rfl⟩
        · exact .inl (.inl (Table.sent_forget.mp hold).1)
        · refine .inr ⟨rfl, hsent, fun m hm => ?_⟩
          rw [h.manned.sent k ticket batch hd hbatch m hm]
          exact (Table.waits_forget.mp hw).1
    | take k items =>
      rw [perform, Table.takeNext_snd] at hsent
      exact .inl (.inl hsent)
    | collect k ticket batch handle => exact .inl (.inl (Table.sent_forget.mp hsent).1)
    | _ => exact .inl (.inl hsent)
  · cases d with
    | claim key items handle => exact .inl (.inr ⟨k, by simpa [perform] using hshare⟩)
    | take key items => exact .inl (.inr ⟨k, by simpa [perform] using hshare⟩)
    | collect key ticket batch handle =>
      rcases List.mem_append.mp hshare with hold | hnew
      · exact .inl (.inr ⟨k, hold⟩)
      · obtain ⟨-, rfl, rfl⟩ : k = key ∧ i = ticket ∧ a = batch := by simpa using hnew
        exact .inl (.inl hd.2)
    | _ => exact .inl (.inr ⟨k, hshare⟩)

/-- **All shares of a batch were sent at one moment**, to callers who waited for
its messages until then. -/
theorem sent_together (h : (empty : Board κ α).Permits journal)
    (hgot : ∃ i, (empty.after journal).Got i a) (hm : m ∈ a.items) :
    ∃ p d, p ++ [d] <+: journal ∧ ∀ i, (empty.after journal).Got i a →
      (empty.after p).table.Waits m.key i ∧ (empty.after (p ++ [d])).table.Sent i a := by
  induction journal using List.reverseRecOn with
  | nil =>
    obtain ⟨i, hsent | ⟨key, hshare⟩⟩ := hgot
    · exact absurd hsent Table.not_sent_empty
    · simp [empty] at hshare
  | append_singleton journal d ih =>
    have hbefore := h.of_prefix (List.prefix_append journal [d])
    have sound := sound_after hbefore
    have hstep := fun i hi => got_of_perform (i := i) (a := a) sound h.allows hi
    -- either the batch was sent before, and no share of it is new, or it is sent now
    by_cases hold : ∃ i, (empty.after journal).Got i a
    · obtain ⟨p, d', hp, hall⟩ := ih hbefore hold
      refine ⟨p, d', hp.trans (List.prefix_append journal [d]), fun i hi => ?_⟩
      rw [after_concat] at hi
      rcases hstep i hi with hi | ⟨hserial, -⟩
      · exact hall i hi
      · obtain ⟨j, hj⟩ := hold
        exact absurd hserial (Nat.ne_of_lt (sound.serials.early a hj.wasSent))
    · refine ⟨journal, d, List.prefix_refl _, fun i hi => ?_⟩
      rw [after_concat] at hi ⊢
      rcases hstep i hi with hi | ⟨-, hsent, hwaits⟩
      · exact absurd ⟨i, hi⟩ hold
      · exact ⟨hwaits m hm, hsent⟩

/-- Two callers waited on the key of a message together and were then told to
collect one batch with the message in it. -/
def Together (journal : List (Deed κ α)) (m : Letter κ α) (i j : ℕ) : Prop :=
  i ≠ j ∧ ∃ p d batch, p ++ [d] <+: journal ∧ m ∈ batch.items ∧
    (empty.after p).table.Waits m.key i ∧ (empty.after p).table.Waits m.key j ∧
    (empty.after (p ++ [d])).table.Sent i batch ∧ (empty.after (p ++ [d])).table.Sent j batch

/-- **Two who have shares of one batch waited together.** -/
theorem together (h : (empty : Board κ α).Permits journal) (hne : i ≠ j)
    (hi : (empty.after journal).Got i a) (hj : (empty.after journal).Got j a) (hm : m ∈ a.items) :
    Together journal m i j := by
  obtain ⟨p, d, hp, hall⟩ := sent_together h ⟨i, hi⟩ hm
  exact ⟨hne, p, d, a, hp, hm, (hall i hi).1, (hall j hj).1, (hall i hi).2, (hall j hj).2⟩

/-! ## Handed out once -/

/-- At the end of a journal, no message that was handed out is ready; and any two
who were given it, or are to collect it when another was given it, waited for it
together. -/
structure Single (journal : List (Deed κ α)) : Prop where
  ready : ∀ out ∈ (empty.after journal).handed, ∀ m ∈ out.items, ∀ key items,
    (empty.after journal).table.readyAt? key = some items → m ∉ items
  handed : (empty.after journal).handed.Pairwise fun out later =>
    ∀ m ∈ out.items, m ∈ later.items → ∃ i j a c,
      out = .share m.key i a ∧ later = .share m.key j c ∧ Together journal m i j
  sent : ∀ out ∈ (empty.after journal).handed, ∀ j c, (empty.after journal).table.Sent j c →
    ∀ m ∈ out.items, m ∈ c.items → ∃ i a, out = .share m.key i a ∧ Together journal m i j

/-- A caller that goes puts a batch back that another caller did collect. -/
def Revives (b : Board κ α) : Deed κ α → Prop
  | .leave key ticket =>
    ∃ batch, b.table.Sent ticket batch ∧ (b.table.forget ticket).shares batch.serial = 0 ∧
      ∃ i, .share key i batch ∈ b.handed
  | _ => False

/-- A message that was handed out is to be had only as a share of the batch it was
handed out in. -/
structure Fair (b : Board κ α) : Prop where
  ready : ∀ out ∈ b.handed, ∀ m ∈ out.items, ∀ key, ¬ b.table.At m (.ready key)
  sent : ∀ out ∈ b.handed, ∀ j c, b.table.Sent j c → ∀ m ∈ out.items, m ∈ c.items →
    ∃ i, out = .share m.key i c
  handed : b.handed.Pairwise fun out later => ∀ m ∈ out.items, m ∈ later.items →
    ∃ i j c, i ≠ j ∧ out = .share m.key i c ∧ later = .share m.key j c

theorem fair_empty : (empty : Board κ α).Fair :=
  ⟨fun out h => by simp [empty] at h, fun out h => by simp [empty] at h, .nil⟩

/-- Nothing is handed out and nothing comes to where it was not. -/
theorem Fair.mono (h : b.Fair) {callers : List (κ × ℕ)} {delivered : List (Letter κ α)}
    (hready : ∀ m key, u.At m (.ready key) → b.table.At m (.ready key))
    (hsent : ∀ j c, u.Sent j c → b.table.Sent j c) : Fair ⟨u, callers, delivered, b.handed⟩ :=
  ⟨fun out hout m hm key hat => h.ready out hout m hm key (hready m key hat),
    fun out hout j c hc => h.sent out hout j c (hsent j c hc), h.handed⟩

/-- **An arrival of messages that nobody was given.** -/
theorem Fair.put (h : b.Fair) {callers : List (κ × ℕ)} {delivered : List (Letter κ α)}
    {f : List (Letter κ α) → List (Letter κ α)}
    (free : b.table.Untold) (hf : Table.Joins f items)
    (hnew : ∀ out ∈ b.handed, ∀ m ∈ out.items, m ∉ items) :
    Fair ⟨b.table.put f key items, callers, delivered, b.handed⟩ := by
  obtain ⟨home, -, hat⟩ := Table.at_put key free hf
  exact {
    ready := by
      intro out hout m hm k hk
      rcases (hat m _).mp hk with hold | ⟨hin, -⟩
      · exact h.ready out hout m hm k hold
      · exact hnew out hout m hm hin
    sent := by
      intro out hout j c hc m hm hin
      rcases Table.sent_of_put free hc with hold | ⟨-, rfl⟩
      · exact h.sent out hout j c hold m hm hin
      · exact absurd hin (hnew out hout m hm)
    handed := h.handed }

/-- What is taken from under a key is handed out for the first time. -/
theorem Fair.of_taken (h : b.Fair) (hb : b.Sound) (hitems : b.table.readyAt? key = some items)
    (htaken : b.table.Taken u key) :
    Fair { b with table := u, handed := b.handed ++ [.ready key items] } := by
  have hthere : ∀ m ∈ items, b.table.At m (.ready key) := by
    intro m hm
    exact ⟨items, hitems, hm⟩
  exact {
    ready := by
      intro out hout m hm k hk
      obtain ⟨hk, hne⟩ := (Table.at_of_taken htaken).mp hk
      rcases List.mem_append.mp hout with hold | hnew
      · exact h.ready out hold m hm k hk
      · obtain rfl := List.mem_singleton.mp hnew
        exact hne (hb.placed.one m _ _ hk (hthere m hm))
    sent := by
      intro out hout j c hc m hm hin
      rcases List.mem_append.mp hout with hold | hnew
      · exact h.sent out hold j c (htaken.sent.mp hc) m hm hin
      -- what was ready was in no batch that somebody is still to collect
      · obtain rfl := List.mem_singleton.mp hnew
        have := hb.placed.one m _ _ (hthere m hm) ((htaken.sent.mp hc).at hin)
        exact absurd this (by simp)
    handed := by
      refine List.pairwise_append.mpr ⟨h.handed, List.pairwise_singleton .., ?_⟩
      intro out hout later hlater m hm hin
      obtain rfl := List.mem_singleton.mp hlater
      exact absurd (hthere m hin) (h.ready out hout m hm key) }

/-- **A share that is collected** is of a batch that only those who waited
together have. -/
theorem Fair.collect (h : b.Fair) (hb : b.Sound) (hin : (key, ticket) ∈ b.callers)
    (hsent : b.table.Sent ticket batch) (handle : ℕ) :
    (b.perform (.collect key ticket batch handle)).Fair := by
  have hkey : ∀ m ∈ batch.items, m.key = key := hb.manned.sent key ticket batch hin hsent
  have hold : ∀ j c, (b.perform (.collect key ticket batch handle)).table.Sent j c →
      b.table.Sent j c := by
    intro j c hc
    exact (Table.sent_forget.mp hc).1
  exact {
    ready := by
      intro out hout m hm k hk
      have hk : b.table.At m (.ready k) := hk
      rcases List.mem_append.mp hout with hout | hnew
      · exact h.ready out hout m hm k hk
      · obtain rfl := List.mem_singleton.mp hnew
        exact absurd (hb.placed.one m _ _ hk (hsent.at hm)) (by simp)
    sent := by
      intro out hout j c hc m hm hm'
      rcases List.mem_append.mp hout with hout | hnew
      · exact h.sent out hout j c (hold j c hc) m hm hm'
      -- a batch that has the same message is in the same place, so it is the same batch
      · obtain rfl := List.mem_singleton.mp hnew
        have hserial := hb.placed.one m _ _ (hsent.at hm) ((hold j c hc).at hm')
        obtain rfl := hb.serials.one batch c (.inl ⟨ticket, hsent⟩) (.inl ⟨j, hold j c hc⟩)
          (by simpa using hserial)
        exact ⟨ticket, by rw [hkey m hm]⟩
    handed := by
      refine List.pairwise_append.mpr ⟨h.handed, List.pairwise_singleton .., ?_⟩
      intro out hout later hlater m hm hm'
      obtain rfl := List.mem_singleton.mp hlater
      obtain ⟨i, rfl⟩ := h.sent out hout ticket batch hsent m hm hm'
      refine ⟨i, ticket, batch, ?_, rfl, by rw [hkey m hm']⟩
      -- who collected its share is no caller any more
      rintro rfl
      exact (hb.gone _ _ _ hout).2 key hin }

/-- **Every permitted deed that revives nothing keeps a board fair.** -/
theorem Fair.perform (h : b.Fair) (hb : b.Sound) (hd : b.Allows d) (hkeep : ¬ b.Revives d) :
    (b.perform d).Fair := by
  cases d with
  | bring message =>
    rw [Board.perform, Table.deliver_eq_put]
    refine h.put hb.manned.free (Table.joins_back _) fun out hout m hm hin => ?_
    obtain rfl := List.mem_singleton.mp hin
    exact hb.not_mem_of_next hd (hb.known out hout m hm).1
  | fail reason => exact h.mono (fun _ _ => id) fun _ _ => (Table.sent_fail hb.manned.free).mp
  | leave key ticket =>
    rw [Board.perform]
    have left : Fair ⟨b.table.forget ticket, b.callers, b.delivered, b.handed⟩ :=
      h.mono (fun _ _ => Table.at_of_at_forget) fun _ _ hc => (Table.sent_forget.mp hc).1
    rcases b.table.leave_cases key ticket with ⟨he, -⟩ | ⟨batch, hsent, hshares, he⟩ <;> rw [he]
    · exact left.mono (fun _ _ => id) fun _ _ => id
    · refine left.put (hb.manned.forget ticket).free (Table.joins_front _) ?_
      intro out hout m hm hin
      -- a message that was handed out was a share of this batch, which is then revived
      obtain ⟨i, rfl⟩ := h.sent out hout ticket batch hsent m hm hin
      rw [hb.manned.sent key ticket batch hd hsent m hin] at hout
      exact hkeep ⟨batch, hsent, hshares, i, hout⟩
  | claim key items handle => exact h.of_taken hb hd (b.table.taken_takeReady key handle items)
  | take key items =>
    exact h.of_taken hb (Table.readyAt?_of_mem hb.tidy (List.mem_of_mem_head? hd))
      (Table.taken_takeNext hb.tidy hd)
  | collect key ticket batch handle => exact h.collect hb hd.1 hd.2 handle
  | _ => exact ⟨h.ready, h.sent, h.handed⟩

/-! ## The two together -/

theorem Fair.single (h : (empty.after journal).Fair)
    (permits : (empty : Board κ α).Permits journal) : Single journal where
  ready out hout m hm key items hitems hin := h.ready out hout m hm key ⟨items, hitems, hin⟩
  handed := by
    refine h.handed.imp_of_mem fun {out later} hout hlater hpair m hm hm' => ?_
    obtain ⟨i, j, c, hne, rfl, rfl⟩ := hpair m hm hm'
    exact ⟨i, j, c, c, rfl, rfl,
      together permits hne (.inr ⟨m.key, hout⟩) (.inr ⟨m.key, hlater⟩) hm⟩
  sent := by
    intro out hout j c hc m hm hm'
    obtain ⟨i, rfl⟩ := h.sent out hout j c hc m hm hm'
    refine ⟨i, c, rfl, together permits ?_ (.inr ⟨m.key, hout⟩) (.inl hc) hm⟩
    have sound := sound_after permits
    rintro rfl
    obtain ⟨k, hin⟩ := sound.manned.told i _ hc
    exact (sound.gone _ _ _ hout).2 k hin

/-- **A batch that is revived goes to others** than those it was handed out to:
it becomes ready, or is sent to callers who came later. -/
theorem not_single_of_revives (permits : (empty : Board κ α).Permits (p ++ [d]))
    (h : (empty.after p).Revives d) : ¬ Single (p ++ [d]) := by
  have sound := sound_after (permits.of_prefix (List.prefix_append p [d]))
  have hd := permits.allows
  cases d with
  | leave key ticket =>
    obtain ⟨batch, hsent, hshares, i, hshare⟩ := h
    intro single
    obtain ⟨m, hm⟩ := List.exists_mem_of_ne_nil _ (sound.placed.plain.2 ticket batch hsent).2
    have htable : (empty.after (p ++ [.leave key ticket])).table =
        ((empty.after p).table.forget ticket).put (batch.items ++ ·) key batch.items := by
      rw [after_concat]
      exact Table.leave_of_shares key hsent hshares
    have hhanded : .share key i batch ∈ (empty.after (p ++ [.leave key ticket])).handed := by
      rw [after_concat]
      exact hshare
    -- the batch has a new home, where a message of it was not to be
    have left := sound.manned.forget ticket
    obtain ⟨home, -, hat⟩ := Table.at_put key left.free (Table.joins_front batch.items)
    have hhome := (hat m home).mpr (.inr ⟨hm, rfl⟩)
    rw [← htable] at hhome
    cases home with
    | ready k =>
      obtain ⟨items, hitems, hin⟩ := hhome
      exact single.ready _ hhanded m hm k items hitems hin
    | sent serial =>
      obtain ⟨j, c, hc, -, hin⟩ := hhome
      obtain ⟨i', a, heq, -, q, e, w, hq, -, hwi, -, -, hsj⟩ :=
        single.sent _ hhanded j c hc m hm hin
      obtain ⟨-, rfl, -⟩ : key = m.key ∧ i = i' ∧ batch = a := by simpa using heq
      -- `j` cannot have waited with `i`: it still waits when `i` has its share already
      rw [htable] at hc
      rcases Table.sent_of_put left.free hc with hold | ⟨hwaits, -⟩
      · exact sound.placed.not_at_forget sound.tidy hsent hshares hm _ (hold.at hin)
      · have hwaits := (Table.waits_forget.mp hwaits).1
        rcases List.prefix_concat_iff.mp hq with heq | hearlier
        · obtain ⟨rfl, -⟩ := List.append_inj' heq rfl
          exact (sound.gone _ _ _ hshare).2 _ (sound.manned.waits _ _ hwi)
        · exact not_waits_of_sent (permits.of_prefix (List.prefix_append p _)) hearlier hsj hwaits
  | _ => exact absurd h (by simp [Revives])

end Board

namespace Exchange

/-- **A message is handed out once, or to callers who waited together, exactly as
long as nothing is revived.** Along any run, no message that was handed out is
ready or given to anybody else at any point, if and only if no caller that goes
puts a batch back that was collected. -/
theorem single_iff (events : List (Event κ α)) :
    (∀ p, p <+: Exchange.journal empty (stamped events) → Board.Single p) ↔
      ∀ p d, p ++ [d] <+: Exchange.journal empty (stamped events) →
        ¬ (Board.empty.after p).Revives d := by
  have permits := permits_journal events
  constructor
  · intro h p d hp hrevives
    exact Board.not_single_of_revives (permits.of_prefix hp) hrevives (h _ hp)
  · intro h p hp
    refine Board.Fair.single ?_ (permits.of_prefix hp)
    refine permits.throughout Board.fair_empty (fun p d hp hd hfair => ?_) p hp
    have sound := Board.sound_after (permits.of_prefix ((List.prefix_append p [d]).trans hp))
    exact hfair.perform sound hd (h p d hp)

/-- **Batches are revived.** Two callers share a batch; one collects it and drops
it, then the other goes without, and a third is handed the same message. -/
theorem handed_twice :
    (run (empty : Exchange ℕ ℕ)
      [.move 0 none (.receive 1 0 none), .move 0 none (.receive 2 0 none), .deliver 0 5,
        .move 0 none (.poll 1), .move 0 none (.drop 1), .move 0 none (.drop 2),
        .move 0 none (.receive 3 0 none)]).1 =
      [.pending, .pending, .nothing, .batch [5], .flag true, .flag true, .batch [5]] := by
  rfl

end Exchange

end FramedDuplex
