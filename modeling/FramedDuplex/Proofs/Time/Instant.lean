import FramedDuplex.Time.Instant
import Mathlib.Data.Int.Notation
import Mathlib.Order.Bounds.Defs
/-!
# Instants and their counts of milliseconds

An instant that is no leap second, is a whole number of milliseconds and lies
in the calendar is the one its count names, so nothing of it is lost on the
wire. The count fits a signed number of eight bytes with room to spare.

Of any other instant that is no leap second the count names the last whole
millisecond up to it (`Instant.isGreatest_wholeMillis`), before the start of 1970
as after it. A leap second lies before the next second and has a greater count, so
counts keep the order of instants only without leap seconds (`Instant.millis_mono`).
-/

namespace FramedDuplex

namespace Instant

/-- An instant of the calendar that is a whole number of milliseconds and no
leap second. -/
structure IsWhole (t : Instant) : Prop where
  /-- It is no leap second. -/
  nanos_lt : t.nanos < 1000000000
  /-- Nothing is left of it below a millisecond. -/
  dvd_nanos : 1000000 ∣ t.nanos
  /-- The calendar reaches it. -/
  min_le : minMillis ≤ t.millis
  le_max : t.millis ≤ maxMillis

/-- **The count of a whole instant names that instant.** -/
theorem ofMillis?_millis {t : Instant} (h : t.IsWhole) : ofMillis? t.millis = some t := by
  obtain ⟨seconds, nanos⟩ := t
  obtain ⟨hlt, ⟨ms, hms⟩, hmin, hmax⟩ := h
  rw [ofMillis?, if_pos ⟨hmin, hmax⟩]
  simp only at hlt hms
  -- the count splits into seconds and milliseconds, also before the epoch
  have count : (⟨seconds, nanos⟩ : Instant).millis = seconds * 1000 + ms := by
    simp only [millis]
    omega
  have high : (seconds * 1000 + ms) / 1000 = seconds := by omega
  have low : ((seconds * 1000 + ms : ℤ) % 1000).toNat * 1000000 = nanos := by omega
  rw [count, high, low]

/-- A count of the calendar is itself in eight bytes. -/
theorem toInt_ofInt_millis {t : Instant} (hmin : minMillis ≤ t.millis)
    (hmax : t.millis ≤ maxMillis) : (BitVec.ofInt 64 t.millis).toInt = t.millis := by
  simp only [minMillis, maxMillis] at hmin hmax
  exact BitVec.toInt_ofInt_eq_self (by decide) (by omega) (by omega)

/-- What a count names is whole. -/
theorem isWhole_of_ofMillis? {ms : ℤ} {t : Instant} (h : ofMillis? ms = some t) : t.IsWhole := by
  have count : t.millis = ms := millis_of_ofMillis? h
  rw [ofMillis?] at h
  split at h
  · next hrange =>
    obtain rfl := Option.some.inj h
    exact {
      nanos_lt := by
        simp only
        omega
      dvd_nanos := Nat.dvd_mul_left _ _
      min_le := by
        rw [count]
        exact hrange.1
      le_max := by
        rw [count]
        exact hrange.2 }
  · cases h

/-! ## The order of instants -/

/-- An instant of the calendar that is no leap second. -/
structure IsCivil (t : Instant) : Prop where
  /-- It is no leap second. -/
  nanos_lt : t.nanos < 1000000000
  /-- The calendar reaches it. -/
  min_le : minMillis ≤ t.millis
  le_max : t.millis ≤ maxMillis

/-- An earlier second comes first, and in one second the earlier part of it. -/
instance : LE Instant :=
  ⟨fun t u => t.seconds < u.seconds ∨ t.seconds = u.seconds ∧ t.nanos ≤ u.nanos⟩

theorem le_iff {t u : Instant} :
    t ≤ u ↔ t.seconds < u.seconds ∨ t.seconds = u.seconds ∧ t.nanos ≤ u.nanos := Iff.rfl

/-- The last whole millisecond up to an instant. -/
def wholeMillis (t : Instant) : Instant := ⟨t.seconds, t.nanos / 1000000 * 1000000⟩

/-- What lies below a millisecond does not count. -/
@[simp] theorem millis_wholeMillis (t : Instant) : t.wholeMillis.millis = t.millis := by
  simp only [millis, wholeMillis]
  omega

theorem IsCivil.isWhole_wholeMillis {t : Instant} (h : t.IsCivil) : t.wholeMillis.IsWhole where
  nanos_lt := by
    have := h.nanos_lt
    simp only [wholeMillis]
    omega
  dvd_nanos := Nat.dvd_mul_left _ _
  min_le := by
    rw [millis_wholeMillis]
    exact h.min_le
  le_max := by
    rw [millis_wholeMillis]
    exact h.le_max

/-- **The last whole millisecond up to an instant** is the greatest that does not lie
behind it. -/
theorem isGreatest_wholeMillis {t : Instant} (h : t.IsCivil) :
    IsGreatest {w : Instant | w.IsWhole ∧ w ≤ t} t.wholeMillis := by
  refine ⟨⟨h.isWhole_wholeMillis, ?_⟩, ?_⟩
  · rw [le_iff]
    right
    exact ⟨rfl, Nat.div_mul_le_self _ _⟩
  · rintro w ⟨hwhole, hle⟩
    obtain ⟨ms, hms⟩ := hwhole.dvd_nanos
    rw [le_iff] at hle ⊢
    simp only [wholeMillis]
    omega

/-- **Counts keep the order of instants**, where the earlier one is no leap second. -/
theorem millis_mono {t u : Instant} (ht : t.nanos < 1000000000) (h : t ≤ u) :
    t.millis ≤ u.millis := by
  rw [le_iff] at h
  simp only [millis]
  omega

end Instant

end FramedDuplex
