import FramedDuplex.Bytes.LittleEndian
/-!
# Instants

A point in time is a number of whole seconds from the start of 1970 and a
number of nanoseconds after them. A thousand million nanoseconds or more mark
a leap second.

On the wire an instant is its count of milliseconds, rounded down
(`Instant.millis`); `Instant.ofMillis?` reads the counts that name a day of the
calendar and refuses the rest.
-/

namespace FramedDuplex

/-- A point in time: seconds from the start of 1970, and nanoseconds after them. -/
structure Instant where
  seconds : Int
  nanos : Nat
deriving DecidableEq, Repr, Inhabited

namespace Instant

/-- The start of 1970. -/
def epoch : Instant := ⟨0, 0⟩

/-- Milliseconds since the start of 1970, rounded down. -/
def millis (t : Instant) : Int :=
  t.seconds * 1000 + (t.nanos / 1000000 : Nat)

/-- The earliest count of milliseconds with a calendar day. -/
def minMillis : Int := -8334601228800000

/-- The latest count of milliseconds with a calendar day. -/
def maxMillis : Int := 8210266876799999

/-- The instant a count of milliseconds names, if the calendar reaches it. -/
def ofMillis? (ms : Int) : Option Instant :=
  if minMillis ≤ ms ∧ ms ≤ maxMillis then
    some ⟨ms / 1000, (ms % 1000).toNat * 1000000⟩
  else
    none

/-- **Reading a count gives an instant of that count.** -/
theorem millis_of_ofMillis? {ms : Int} {t : Instant} (h : ofMillis? ms = some t) :
    t.millis = ms := by
  unfold ofMillis? at h
  split at h
  · cases h
    simp only [millis]
    have : (ms % 1000).toNat * 1000000 / 1000000 = (ms % 1000).toNat := by omega
    rw [this]
    omega
  · cases h

end Instant

end FramedDuplex
