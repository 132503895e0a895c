import FramedDuplex.Proofs.Exchange.Follow
/-!
# When batches are in the order of arrival

A batch that is put back goes in front of what is ready, as if it were older. It
need not be: what is ready may have been put back itself, by a caller that was
answered earlier and went earlier. `Board.Misplaces` is that case, and it is the
only one: the batches that become ready and are handed out along a run are in
the order of delivery exactly if no caller that goes misplaces its batch
(`Exchange.ordered_iff`).
-/

namespace FramedDuplex

variable {κ α : Type} [DecidableEq κ] {b : Board κ α} {d : Deed κ α}
variable {t u : Table κ (Letter κ α)} {key : κ} {items : List (Letter κ α)}

/-- In the order of delivery. -/
def InOrder (items : List (Letter κ α)) : Prop :=
  items.Pairwise (·.number < ·.number)

namespace Board

/-- All that is ready and all that was handed out is in the order of delivery. -/
def Ordered (b : Board κ α) : Prop :=
  (∀ key items, b.table.readyAt? key = some items → InOrder items) ∧
    ∀ out ∈ b.handed, InOrder out.items

/-- A caller that goes puts its batch back in front of an older message. -/
def Misplaces (b : Board κ α) : Deed κ α → Prop
  | .leave key ticket =>
    ∃ batch old, b.table.Sent ticket batch ∧
      (b.table.forget ticket).shares batch.serial = 0 ∧ b.table.readyAt? key = some old ∧
        ∃ m ∈ batch.items, ∃ n ∈ old, n.number < m.number
  | _ => False

/-- Besides, all that was sent is in the order of delivery. -/
def Neat (b : Board κ α) : Prop :=
  b.table.Every InOrder ∧ ∀ out ∈ b.handed, InOrder out.items

theorem Neat.ordered (h : b.Neat) : b.Ordered := ⟨h.1.1, h.2⟩

theorem neat_empty : (empty : Board κ α).Neat :=
  ⟨Table.every_empty, fun out h => by simp [empty] at h⟩

/-! ## One deed -/

omit [DecidableEq κ] in
/-- What is handed out next is in order. -/
theorem handed_concat {handed : List (Handout κ α)} (h : ∀ out ∈ handed, InOrder out.items)
    {new : Handout κ α} (hnew : InOrder new.items) :
    ∀ out ∈ handed ++ [new], InOrder out.items := by
  intro out hout
  rcases List.mem_append.mp hout with hold | hlast
  · exact h out hold
  · obtain rfl := List.mem_singleton.mp hlast
    exact hnew

/-- A new message is younger than all that are ready. -/
theorem Neat.bring (h : b.Neat) (hb : b.Sound) {m : Letter κ α}
    (hm : m.number = b.delivered.length) : (b.perform (.bring m)).Neat := by
  rw [perform, Table.deliver_eq_put]
  refine ⟨h.1.put hb.manned.free (List.pairwise_singleton ..) fun old hold => ?_, h.2⟩
  refine List.pairwise_append.mpr ⟨h.1.1 m.key old hold, List.pairwise_singleton .., ?_⟩
  intro n hn m' hm'
  obtain rfl := List.mem_singleton.mp hm'
  rw [hm]
  exact hb.number_lt (hb.placed.known n (.ready m'.key) ⟨old, hold, hn⟩)

/-- **A caller that goes keeps the order** unless it misplaces its batch. -/
theorem Neat.leave (h : b.Neat) (hb : b.Sound) {ticket : ℕ}
    (hkeep : ¬ b.Misplaces (.leave key ticket)) : (b.perform (.leave key ticket)).Neat := by
  rw [perform]
  rcases b.table.leave_cases key ticket with ⟨he, -⟩ | ⟨batch, hsent, hshares, he⟩ <;> rw [he]
  · exact ⟨h.1.forget ticket, h.2⟩
  · refine ⟨(h.1.forget ticket).put (hb.manned.forget ticket).free (h.1.2 ticket batch hsent)
      fun old hold => ?_, h.2⟩
    refine List.pairwise_append.mpr ⟨h.1.2 ticket batch hsent, h.1.1 key old hold, ?_⟩
    intro m hm n hn
    have hready : b.table.At n (.ready key) := ⟨old, hold, hn⟩
    have hle : ¬ n.number < m.number := fun hlt =>
      hkeep ⟨batch, old, hsent, hshares, hold, m, hm, n, hn, hlt⟩
    -- one number would be one message in two places
    have hne : m.number ≠ n.number := by
      intro heq
      obtain rfl := hb.eq_of_number (hb.placed.known m _ (hsent.at hm))
        (hb.placed.known n _ hready) heq
      exact absurd (hb.placed.one m _ _ (hsent.at hm) hready) (by simp)
    omega

/-- What is taken from under a key was in order there. -/
theorem Neat.of_taken (h : b.Neat) (hitems : b.table.readyAt? key = some items)
    (htaken : b.table.Taken u key) :
    Neat { b with table := u, handed := b.handed ++ [.ready key items] } :=
  ⟨h.1.of_taken htaken, handed_concat h.2 (h.1.1 key items hitems)⟩

/-- **Every permitted deed that misplaces nothing keeps the order.** -/
theorem Neat.perform (h : b.Neat) (hb : b.Sound) (hd : b.Allows d) (hkeep : ¬ b.Misplaces d) :
    (b.perform d).Neat := by
  cases d with
  | bring message => exact h.bring hb hd
  | fail reason =>
    refine ⟨⟨h.1.1, fun i a hsent => ?_⟩, h.2⟩
    exact h.1.2 i a ((Table.sent_fail hb.manned.free).mp hsent)
  | leave key ticket => exact h.leave hb hkeep
  | claim key items handle => exact h.of_taken hd (b.table.taken_takeReady key handle items)
  | take key items =>
    exact h.of_taken (Table.readyAt?_of_mem hb.tidy (List.mem_of_mem_head? hd))
      (Table.taken_takeNext hb.tidy hd)
  | collect key ticket batch handle =>
    exact ⟨h.1.forget ticket, handed_concat h.2 (h.1.2 ticket batch hd.2)⟩
  | enter key => exact ⟨h.1, h.2⟩
  | hold handle items => exact ⟨h.1, h.2⟩
  | lend copy batch => exact ⟨h.1, h.2⟩
  | release handle => exact ⟨h.1, h.2⟩

/-- **A misplaced batch is out of order** as soon as it is put back. -/
theorem not_ordered_of_misplaces (h : b.Misplaces d) : ¬ (b.perform d).Ordered := by
  cases d with
  | leave key ticket =>
    obtain ⟨batch, old, hsent, hshares, hold, m, hm, n, hn, hlt⟩ := h
    intro hordered
    have hput : (b.table.leave key ticket).1 =
        (b.table.forget ticket).changeReady key (batch.items ++ ·) := by
      rw [Table.leave_of_shares key hsent hshares, Table.put, if_pos]
      exact Option.isSome_iff_exists.mpr ⟨old, hold⟩
    have hready : (b.perform (.leave key ticket)).table.readyAt? key =
        some (batch.items ++ old) := by
      show (b.table.leave key ticket).1.readyAt? key = _
      rw [hput, Table.readyAt?_changeReady, if_pos rfl]
      exact congrArg (Option.map _) hold
    have hpairs := List.pairwise_append.mp (hordered.1 key _ hready)
    have := hpairs.2.2 m hm n hn
    omega
  | _ => exact absurd h (by simp [Misplaces])

end Board

namespace Exchange

/-- **Batches are in the order of delivery exactly as long as nothing is put back
in front of something older.** Along any run, all that is ready at any point and
all that is handed out is in order, if and only if no caller that goes misplaces
its batch. -/
theorem ordered_iff (events : List (Event κ α)) :
    (∀ p, p <+: journal empty (stamped events) → (Board.empty.after p).Ordered) ↔
      ∀ p d, p ++ [d] <+: journal empty (stamped events) → ¬ (Board.empty.after p).Misplaces d := by
  have permits := permits_journal events
  constructor
  · intro h p d hp hmisplaces
    have := h _ hp
    rw [Board.after_concat] at this
    exact Board.not_ordered_of_misplaces hmisplaces this
  · intro h p hp
    refine (permits.throughout Board.neat_empty (fun p d hp hd hneat => ?_) p hp).ordered
    have sound := Board.sound_after (permits.of_prefix ((List.prefix_append p [d]).trans hp))
    exact hneat.perform sound hd (h p d hp)

/-- **Batches are misplaced.** Two callers are answered one after the other and go
in the order they came; the batch of the second is put back in front. -/
theorem handed_out_of_order :
    (run (empty : Exchange ℕ ℕ)
      [.move 0 none (.receive 1 0 none), .deliver 0 1, .move 0 none (.receive 2 0 none),
        .deliver 0 2, .move 0 none (.drop 1), .move 0 none (.drop 2),
        .move 0 none (.receive 3 0 none)]).1 =
      [.pending, .nothing, .pending, .nothing, .flag true, .flag true, .batch [2, 1]] := by
  rfl

end Exchange

end FramedDuplex
