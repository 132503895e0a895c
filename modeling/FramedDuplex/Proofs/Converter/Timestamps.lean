import FramedDuplex.Proofs.Converter.Settled
/-!
# Instants on the wire

An instant is written as its count of milliseconds and read off the front of its
window. What is read is the last whole millisecond up to what was written, on either
side of the start of 1970; what was read is written again as the bytes that it was read
from. The two directions draw the same ends: a window is read if and only if its count
is in the calendar, and these are the counts of the instants that can be written.

`Registry.TellsMillis` collects this of a registry, and
`Registry.tellsMillis_of_find?` proves it of every registry that answers with the
standard converter for instants, whatever else is registered.
-/

namespace FramedDuplex

variable [OwnTypes]

namespace Converter

variable {window : Bytes} {t u : Instant}

omit [OwnTypes] in
/-- The bytes of the count that a window says are the first eight of it. -/
theorem ofNatLE_timestamp (h : 8 ≤ window.length) :
    Bytes.ofNatLE 8 (BitVec.ofInt 64 (timestamp window)).toNat = window.take 8 := by
  have hlen : (window.take 8).length = 8 := by
    rw [List.length_take]
    omega
  have hlt : Bytes.toNatLE (window.take 8) < 2 ^ 64 := by
    have := Bytes.toNatLE_lt (window.take 8)
    rw [hlen] at this
    omega
  have hback := Bytes.ofNatLE_toNatLE (window.take 8)
  rw [hlen] at hback
  rw [timestamp, BitVec.ofInt_toInt, BitVec.toNat_ofNat, Nat.mod_eq_of_lt hlt, hback]

/-- **A window is read as the instant that its count names**, if it is long enough. -/
theorem instant_decode_eq_ok_iff :
    instant.decode window = .ok u ↔
      8 ≤ window.length ∧ Instant.ofMillis? (timestamp window) = some u := by
  by_cases hlen : 8 ≤ window.length
  · rw [instant_decode hlen]
    cases Instant.ofMillis? (timestamp window) <;> simp [hlen]
  · have short : instant.decode window = .error (.refused "timestamp needs 8 bytes") :=
      if_pos (Nat.not_le.mp hlen)
    simp [short, hlen]

/-- **An instant is read back to the millisecond**, whatever stands behind it. -/
theorem instant_decode_append (h : t.IsCivil) (more : Bytes) :
    instant.decode (Bytes.ofNatLE 8 (BitVec.ofInt 64 t.millis).toNat ++ more) =
      .ok t.wholeMillis := by
  have named : Instant.ofMillis? t.millis = some t.wholeMillis := by
    rw [← Instant.millis_wholeMillis]
    exact Instant.ofMillis?_millis h.isWhole_wholeMillis
  rw [instant_decode_eq_ok_iff, timestamp_append h.min_le h.le_max]
  exact ⟨by simp, named⟩

/-- **What was read is written again as it was.** -/
theorem instant_encode_of_decode (h : instant.decode window = .ok u) :
    instant.encode u = .ok (window.take 8) := by
  obtain ⟨hlen, hnamed⟩ := instant_decode_eq_ok_iff.mp h
  have count : u.millis = timestamp window := Instant.millis_of_ofMillis? hnamed
  change Except.ok (Bytes.ofNatLE 8 (BitVec.ofInt 64 u.millis).toNat) = _
  rw [count, ofNatLE_timestamp hlen]

/-- A window that is long enough is read exactly if its count is in the calendar. -/
theorem exists_instant_decode_iff (h : 8 ≤ window.length) :
    (∃ u, instant.decode window = .ok u) ↔
      Instant.minMillis ≤ timestamp window ∧ timestamp window ≤ Instant.maxMillis := by
  constructor
  · rintro ⟨u, hu⟩
    have hnamed := (instant_decode_eq_ok_iff.mp hu).2
    rw [Instant.ofMillis?] at hnamed
    split at hnamed
    · assumption
    · cases hnamed
  · intro hrange
    exact ⟨_, instant_decode_eq_ok_iff.mpr ⟨h, if_pos hrange⟩⟩

end Converter

namespace Registry

open Converter

variable {r : Registry} {field : String} {window : Bytes} {t u : Instant}

/-- **A registry keeps instants to the millisecond.** -/
structure TellsMillis (r : Registry) : Prop where
  /-- An instant is written in eight bytes, and these are read, alone or with whatever stands
  behind them, as the last whole millisecond up to it. -/
  reads : ∀ t : Instant, t.IsCivil → ∃ bs u, r.encode .instant t = .ok bs ∧ bs.length = 8 ∧
    IsGreatest {w : Instant | w.IsWhole ∧ w ≤ t} u ∧
      ∀ field more, r.decode field .instant (bs ++ more) = .ok u
  /-- What a window is read as is a whole millisecond, and is written again as its first eight
  bytes. -/
  writes : ∀ field window u, r.decode field .instant window = .ok u →
    8 ≤ window.length ∧ Instant.IsWhole u ∧ r.encode .instant u = .ok (window.take 8)
  /-- Windows that are read as one instant begin with the same eight bytes. -/
  injective : ∀ field field' window window' u, r.decode field .instant window = .ok u →
    r.decode field' .instant window' = .ok u → window.take 8 = window'.take 8
  /-- A later instant is written as a count that is no smaller. -/
  monotone : ∀ t u : Instant, t.IsCivil → u.IsCivil → t ≤ u → ∃ bs bs',
    r.encode .instant t = .ok bs ∧ r.encode .instant u = .ok bs' ∧ timestamp bs ≤ timestamp bs'
  /-- The windows that are read are those of which the count is in the calendar. -/
  range : ∀ field window, 8 ≤ window.length →
    ((∃ u, r.decode field .instant window = .ok u) ↔
      Instant.minMillis ≤ timestamp window ∧ timestamp window ≤ Instant.maxMillis)

theorem encode_instant (h : r.find? .instant = some Converter.instant) (t : Instant) :
    r.encode .instant t = .ok (Bytes.ofNatLE 8 (BitVec.ofInt 64 t.millis).toNat) := by
  rw [encode, h]
  rfl

theorem decode_instant_eq_ok_iff (h : r.find? .instant = some Converter.instant) :
    r.decode field .instant window = .ok u ↔ Converter.instant.decode window = .ok u := by
  have unpadded : Converter.instant.padded = false := rfl
  rw [decode_eq_of_find? h, unpadded, if_neg Bool.false_ne_true, mapError_eq_ok]

/-- **The standard converter keeps instants to the millisecond**, over the whole calendar
and in both directions. -/
theorem tellsMillis_of_find? (h : r.find? .instant = some Converter.instant) :
    r.TellsMillis where
  reads := by
    intro t ht
    refine ⟨_, t.wholeMillis, encode_instant h t, by simp, Instant.isGreatest_wholeMillis ht, ?_⟩
    intro field more
    rw [decode_instant_eq_ok_iff h]
    exact instant_decode_append ht more
  writes := by
    intro field window u hread
    rw [decode_instant_eq_ok_iff h] at hread
    obtain ⟨hlen, hnamed⟩ := instant_decode_eq_ok_iff.mp hread
    refine ⟨hlen, Instant.isWhole_of_ofMillis? hnamed, ?_⟩
    rw [encode, h]
    exact mapError_eq_ok.mpr (instant_encode_of_decode hread)
  injective := by
    intro field field' window window' u hread hread'
    rw [decode_instant_eq_ok_iff h] at hread hread'
    have same := (instant_encode_of_decode hread).symm.trans (instant_encode_of_decode hread')
    exact Except.ok.inj same
  monotone := by
    intro t u ht hu hle
    refine ⟨_, _, encode_instant h t, encode_instant h u, ?_⟩
    have count := timestamp_append ht.min_le ht.le_max []
    have count' := timestamp_append hu.min_le hu.le_max []
    rw [List.append_nil] at count count'
    rw [count, count']
    exact Instant.millis_mono ht.nanos_lt hle
  range := by
    intro field window hlen
    rw [← exists_instant_decode_iff hlen]
    exact exists_congr fun u => decode_instant_eq_ok_iff h

end Registry

end FramedDuplex

namespace FramedDuplex.Registry

/-- A nanosecond before the start of 1970 is read back as a millisecond before it. -/
theorem tellsMillis_standard :
    standard.find? .instant = some Converter.instant ∧
      standard.encode .instant ⟨-1, 999999999⟩ = .ok (List.replicate 8 255) ∧
      standard.decode "at" .instant (List.replicate 8 255 ++ [7]) = .ok ⟨-1, 999000000⟩ ∧
      standard.TellsMillis :=
  ⟨rfl, by decide, by decide, tellsMillis_of_find? rfl⟩

end FramedDuplex.Registry
