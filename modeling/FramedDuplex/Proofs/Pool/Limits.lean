import FramedDuplex.Pool.Basic
import Mathlib.Data.List.Perm.Subperm
import Mathlib.Data.Nat.Notation
/-!
# What a pool hands out and takes back

Taking buffers out of a pool gives idle ones or new ones and loses none
(`Pool.Gives`), each with the capacity that was asked for. Giving buffers back keeps
those within the limit of capacity, in the order they are given back, as far as there is
room (`Pool.releaseAll_eq`). So a pool that is within its limits stays within them
(`Pool.Kept`), and buffers that were taken and are given back at once leave no fewer
buffers idle (`Pool.available_le_of_gives`): those that had been idle are within the
limit of capacity, and there is room for at least as many as were taken.
-/

namespace FramedDuplex

namespace Pool

variable {p p' p'' : Pool} {bs bs' : List Buffer} {b : Buffer}

/-! ## Taking -/

/-- An entry and what is left without it are all that was there. -/
theorem swapRemove_perm {α : Type} {place : ℕ} {entries : List α} {e : α}
    (h : entries[place]? = some e) : (e :: swapRemove place entries).Perm entries := by
  rcases List.eq_nil_or_concat' entries with rfl | ⟨front, last, rfl⟩
  · cases h
  · have back : (last :: front).Perm (front ++ [last]) :=
      (List.perm_append_singleton last front).symm
    rw [swapRemove, List.getLast?_concat]
    by_cases hfront : place < front.length
    · -- the last entry takes the place of one before it
      rw [List.getElem?_append_left hfront] at h
      obtain ⟨_, rfl⟩ := List.getElem?_eq_some_iff.mp h
      have moved := (List.set_perm_cons_eraseIdx hfront last).cons front[place]
      have kept := (List.getElem_cons_eraseIdx_perm hfront).cons last
      simp only [List.set_append_left _ _ hfront, List.dropLast_concat]
      exact (moved.trans (List.Perm.swap _ _ _)).trans (kept.trans back)
    · obtain ⟨hlt, hlast⟩ := List.getElem?_eq_some_iff.mp h
      rw [List.length_append, List.length_singleton] at hlt
      obtain rfl : place = front.length := by omega
      rw [List.getElem_concat_length rfl] at hlast
      subst hlast
      simp only [List.set_append_right _ _ (Nat.le_refl _), Nat.sub_self, List.set_cons_zero,
        List.dropLast_concat]
      exact back

/-- **A pool gives buffers out**: each was idle or is new, with the next serial number, and
those that are not given out stay idle. -/
structure Gives (p : Pool) (bs : List Buffer) (p' : Pool) : Prop where
  limits : p'.maxBuffers = p.maxBuffers ∧ p'.maxCapacity = p.maxCapacity
  idle : p'.idle.Subperm p.idle
  taken : ∃ fresh : List Buffer, (bs ++ p'.idle).Perm (p.idle ++ fresh) ∧
    fresh.map (·.serial) = List.range' p.issued fresh.length ∧ p'.issued = p.issued + fresh.length

/-- One buffer that is new. -/
theorem gives_fresh (p : Pool) (capacity : ℕ) :
    p.Gives [⟨p.issued, capacity⟩] { p with issued := p.issued + 1 } where
  limits := ⟨rfl, rfl⟩
  idle := List.Subperm.refl _
  taken := ⟨[⟨p.issued, capacity⟩], List.perm_append_comm, rfl, rfl⟩

/-- **The buffer that is given has the capacity** that was asked for. -/
theorem gives_acquire (p : Pool) (capacity : ℕ) :
    p.Gives [(p.acquire capacity).1] (p.acquire capacity).2 ∧
      capacity ≤ (p.acquire capacity).1.capacity := by
  rw [acquire]
  cases hplace : p.idle.findIdx? (capacity ≤ ·.capacity) with
  | none => exact ⟨gives_fresh p capacity, Nat.le_refl _⟩
  | some place =>
    obtain ⟨hlt, hlarge, -⟩ := List.findIdx?_eq_some_iff_getElem.mp hplace
    have hthere : p.idle[place]? = some p.idle[place] := List.getElem?_eq_getElem hlt
    have hperm := swapRemove_perm hthere
    simp only [hthere]
    refine ⟨⟨⟨rfl, rfl⟩, ?_, [], ?_, rfl, rfl⟩, by simpa using hlarge⟩
    · exact (List.sublist_cons_self _ _).subperm.trans hperm.subperm
    · rw [List.append_nil]
      exact hperm

theorem Gives.trans (h : p.Gives bs p') (h' : p'.Gives bs' p'') : p.Gives (bs ++ bs') p'' where
  limits := ⟨h'.limits.1.trans h.limits.1, h'.limits.2.trans h.limits.2⟩
  idle := h'.idle.trans h.idle
  taken := by
    obtain ⟨fresh, hperm, hserials, hissued⟩ := h.taken
    obtain ⟨fresh', hperm', hserials', hissued'⟩ := h'.taken
    refine ⟨fresh ++ fresh', ?_, ?_, ?_⟩
    · rw [List.append_assoc, ← List.append_assoc p.idle]
      exact (hperm'.append_left bs).trans (List.append_assoc bs _ _ ▸ hperm.append_right fresh')
    · rw [List.map_append, hserials, hserials', hissued, List.length_append,
        List.range'_append_1]
    · rw [hissued', hissued, List.length_append, Nat.add_assoc]

/-- **One buffer after the other**, each with its capacity. -/
theorem gives_acquireAll (p : Pool) (sizes : List ℕ) :
    p.Gives (p.acquireAll sizes).1 (p.acquireAll sizes).2 ∧
      List.Forall₂ (fun n b => n ≤ b.capacity) sizes (p.acquireAll sizes).1 := by
  induction sizes generalizing p with
  | nil =>
    exact ⟨⟨⟨rfl, rfl⟩, List.Subperm.refl _, [], by rw [List.append_nil]; exact .refl _, rfl, rfl⟩,
      .nil⟩
  | cons n rest ih =>
    obtain ⟨hfirst, hlarge⟩ := gives_acquire p n
    obtain ⟨hrest, hlarger⟩ := ih (p.acquire n).2
    exact ⟨hfirst.trans hrest, .cons hlarge hlarger⟩

/-! ## Giving back -/

/-- What a pool keeps of buffers that are given back: those within the limit of capacity, as
far as there is room. -/
def keeps (p : Pool) (bs : List Buffer) : List Buffer :=
  (bs.filter (·.capacity ≤ p.maxCapacity)).take (p.maxBuffers - p.available)

/-- **Buffers are given back in order**, and what is kept stands behind the idle ones. -/
theorem releaseAll_eq (p : Pool) (bs : List Buffer) :
    p.releaseAll bs = { p with idle := p.idle ++ p.keeps bs } := by
  induction bs generalizing p with
  | nil => simp [releaseAll, keeps]
  | cons b rest ih =>
    have hrest : p.releaseAll (b :: rest) = (p.release b).releaseAll rest := rfl
    rw [hrest, ih, release, keeps, keeps]
    by_cases hsmall : b.capacity ≤ p.maxCapacity
    · rw [List.filter_cons_of_pos (by simpa using hsmall)]
      by_cases hroom : p.idle.length < p.maxBuffers
      · have hcount : p.maxBuffers - p.available = (p.maxBuffers - (p.available + 1)) + 1 := by
          rw [available]
          omega
        rw [if_pos ⟨hsmall, hroom⟩, hcount, List.take_succ_cons]
        simp only [available, List.length_append, List.length_singleton, List.append_assoc,
          List.singleton_append]
      · have hnone : p.maxBuffers - p.available = 0 := by
          rw [available]
          omega
        rw [if_neg fun h => hroom h.2, hnone, List.take_zero, List.take_zero]
    · rw [if_neg fun h => hsmall h.1, List.filter_cons_of_neg (by simpa using hsmall)]

/-- **A pool is within its limits.** -/
structure Kept (p : Pool) : Prop where
  few : p.available ≤ p.maxBuffers
  small : ∀ b ∈ p.idle, b.capacity ≤ p.maxCapacity

theorem kept_new (maxBuffers maxCapacity : ℕ) : (new maxBuffers maxCapacity).Kept :=
  ⟨Nat.zero_le _, nofun⟩

theorem Kept.of_gives (hp : p.Kept) (h : p.Gives bs p') : p'.Kept where
  few := h.limits.1 ▸ Nat.le_trans h.idle.length_le hp.few
  small := fun b hb => h.limits.2 ▸ hp.small b (h.idle.subset hb)

theorem Kept.releaseAll (hp : p.Kept) (bs : List Buffer) : (p.releaseAll bs).Kept := by
  rw [releaseAll_eq]
  have few := hp.few
  refine ⟨?_, fun b hb => ?_⟩
  · simp only [available, keeps, List.length_append, List.length_take] at few ⊢
    omega
  · rcases List.mem_append.mp hb with hold | hnew
    · exact hp.small b hold
    · simpa using (List.mem_filter.mp (List.mem_of_mem_take hnew)).2

/-- **Buffers that were taken and are given back leave no fewer idle.** -/
theorem available_le_of_gives (hp : p.Kept) (h : p.Gives bs p') :
    p.available ≤ (p'.releaseAll bs).available := by
  obtain ⟨fresh, hperm, -, -⟩ := h.taken
  have few := hp.few
  have within : p.idle.countP (·.capacity ≤ p.maxCapacity) = p.idle.length :=
    List.countP_eq_length.mpr fun b hb => by simpa using hp.small b hb
  have total := hperm.countP_eq (p := fun b => decide (b.capacity ≤ p.maxCapacity))
  rw [List.countP_append, List.countP_append, within] at total
  have bound := List.countP_le_length (p := fun b : Buffer => decide (b.capacity ≤ p.maxCapacity))
    (l := p'.idle)
  rw [releaseAll_eq]
  simp only [available, keeps, h.limits, List.length_append, List.length_take,
    ← List.countP_eq_length_filter] at few ⊢
  omega

end Pool

end FramedDuplex
