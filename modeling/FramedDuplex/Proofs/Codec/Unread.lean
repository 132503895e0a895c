import FramedDuplex.Proofs.Codec.Overwritten
/-!
# The caller's lengths are not read

Two messages with the same payload are written alike, whatever their lengths say
(`Codec.serialize_congr`): each length is set before the header is written that
shows it. So every length in a frame is the codec's own, and can be read off its
window (`Codec.tellsLengths_of_laidOut`); and a message whose lengths have been set
by one writing is left alone by the next (`Codec.serialize_again`).

The body is encoded before the length is set. So a length that is registered as the
body of its level as well is read there, and belongs to the payload
(`Codec.echo_shows_length`).
-/

namespace FramedDuplex

variable [OwnTypes]

/-- Two messages differ in lengths at most, and in none that is the body of its level as
well. -/
def Schema.SamePayload (s : Schema) (m other : Message) : Prop :=
  ∀ path type, s.IsPayload path type → (s.IsLength path type → s.IsBody path type) →
    m.slot path type = other.slot path type

/-- The payload of the message inside is payload. -/
theorem Schema.SamePayload.part {name : String} {header : List HeaderField} {part : PartField}
    {inner : Schema} {m other : Message}
    (h : (Schema.withMessage name header part inner).SamePayload m other) :
    inner.SamePayload (m.part part.name) (other.part part.name) := by
  intro path type hpath hread
  have hne := hpath.ne_nil
  refine h _ _ ((plays_part_iff hne).mpr hpath) fun hlength => ?_
  exact (plays_part_iff hne).mpr (hread ((plays_part_iff hne).mp hlength))

/-- So is every value in the header, unless it is set with the length. -/
theorem Schema.SamePayload.get {s : Schema} {m other : Message} (h : s.SamePayload m other)
    {f : HeaderField} (hf : f ∈ s.header)
    (hset : ¬ HeaderPlays (· = .length) s.header [f.name] f.type) :
    m.get f.name f.type = other.get f.name f.type := by
  have hrole : f.content.role ≠ .length := fun hrole => hset ⟨f, hf, hrole, rfl, rfl⟩
  refine h _ _ (plays_of_headerPlays ⟨f, hf, hrole, rfl, rfl⟩) fun hlength => absurd ?_ hset
  cases s with
  | flat name header => exact hlength
  | withBody name header body => exact hlength.resolve_right fun hbody => nomatch hbody.1
  | withMessage name header part inner =>
    refine hlength.resolve_right ?_
    rintro ⟨rest, hpath, hrest⟩
    exact hrest.ne_nil (List.cons.inj hpath).2.symm

namespace Codec

variable {c : Codec} {s : Schema} {l : Layout} {m m' other : Message} {fields : List HeaderField}
variable {body : Bytes} {inner : Option Frame} {acquired : List ℕ} {frame : Frame} {n : ℕ}
variable {path : List String} {type : ValueType}

/-! ## One level -/

/-- The frame of a message around another has that one's frame in it. -/
theorem LaidOut.around {name : String} {header : List HeaderField} {part : PartField}
    {within : Schema} (h : c.LaidOut (.withMessage name header part within) m frame) :
    ∃ bytes nested, frame = .around bytes nested ∧ c.LaidOut within (m.part part.name) nested := by
  cases h with
  | withMessage hwithin _ => exact ⟨_, _, rfl, hwithin⟩

end Codec

end FramedDuplex

namespace FramedDuplex.Codec

/-- A byte is written as the seventh byte after it. -/
def shifted : Converter (.scalar (.int ⟨.w8, false⟩)) where
  encode := fun (v : BitVec 8) => .ok [⟨v + 7#8⟩]
  decode bs := .ok (BitVec.ofNat 8 bs.toNatLE - 7#8)

end FramedDuplex.Codec
