import FramedDuplex.Proofs.Settings.Fields
/-!
# Settings in layers

What is set comes from three layers: a variable if there is one that is set, else the
entry of the settings file, else what is set unless told otherwise. This holds of each
field by itself (`Layer`). Settings are loaded if and only if the file that is named is
read and every variable that is set makes sense.

Variables take effect one after the other, so that one that makes no sense leaves the
settings with those before it in effect and no other (`Overrides`). A step of this is one
variable (`TookEffect.unset`, `TookEffect.set`) and the run is `overrides_applyAll`.

What settings then make of a link keeps its sizes within their bounds and changes nothing
else (`Confines`).
-/

namespace FramedDuplex

open Yaml

namespace Settings

/-! ## Variables, one after the other -/

/-- A field takes what a text says of it, and stays where there is no text. -/
inductive Takes (f : Field) (text? : Option String) (old : f.Value) : f.Value → Prop
  | stays : text? = none → Takes f text? old old
  | changes {text : String} {value : f.Value} : text? = some text → f.Says text value →
      Takes f text? old value

/-- **The variables for some fields took effect**, and no others. -/
def TookEffect (environment : String → Option String) (heard : List Field) (s s' : Settings) :
    Prop :=
  ∀ f : Field, Takes f (if f ∈ heard then f.text? environment else none) (f.get s) (f.get s')

/-- Each variable for some fields that is set says something. -/
def MakeSense (environment : String → Option String) (heard : List Field) : Prop :=
  ∀ f ∈ heard, ∀ text, f.text? environment = some text → ∃ value, f.Says text value

/-- **How variables override settings**: all of them take effect, or those do that come
before the first that makes no sense. -/
inductive Overrides (environment : String → Option String) (s : Settings) :
    Option ConfigError × Settings → Prop
  | all {s' : Settings} : MakeSense environment Field.inOrder →
      TookEffect environment Field.inOrder s s' → Overrides environment s (none, s')
  | upTo {before after : List Field} {f : Field} {text : String} {s' : Settings} :
      Field.inOrder = before ++ f :: after → MakeSense environment before →
      TookEffect environment before s s' → f.text? environment = some text →
      (¬∃ value, f.Says text value) → Overrides environment s (some (f.refusal text), s')

section Run

variable {environment : String → Option String} {heard : List Field} {f : Field} {o : Override}
  {s s' s'' : Settings} {text : String}

/-- Where no variable is heard, nothing changes. -/
theorem tookEffect_nil : TookEffect environment [] s s :=
  fun _ => .stays (if_neg List.not_mem_nil)

/-- A variable that is not set has no effect. -/
theorem TookEffect.unset (h : TookEffect environment heard s s')
    (hunset : f.text? environment = none) : TookEffect environment (heard ++ [f]) s s' := by
  intro g
  have same : (if g ∈ heard ++ [f] then g.text? environment else none) =
      if g ∈ heard then g.text? environment else none := by
    by_cases hg : g = f
    · subst hg
      simp [hunset]
    · simp [hg]
  rw [same]
  exact h g

/-- **A variable that is set has its effect** on its own field. -/
theorem TookEffect.set (h : TookEffect environment heard s s') (ho : o.IsFor f)
    (hset : f.text? environment = some text) (hchange : o.change s' text = .ok s'') :
    TookEffect environment (heard ++ [f]) s s'' := by
  obtain ⟨hsaid, hothers⟩ := (ho.change s' text s'').mp hchange
  intro g
  by_cases hg : g = f
  · subst hg
    exact .changes (by simp [hset]) hsaid
  · have same : (if g ∈ heard ++ [f] then g.text? environment else none) =
        if g ∈ heard then g.text? environment else none := by
      simp [hg]
    rw [same, hothers g hg]
    exact h g

theorem MakeSense.concat (h : MakeSense environment heard)
    (hf : ∀ text, f.text? environment = some text → ∃ value, f.Says text value) :
    MakeSense environment (heard ++ [f]) := by
  intro g hg
  rcases List.mem_append.mp hg with hg | hg
  · exact h g hg
  · obtain rfl := List.mem_singleton.mp hg
    exact hf

/-- **From any point on** the variables that are left take effect up to the first that
makes no sense. -/
theorem overrides_applyAll {os : List Override} {before rest : List Field}
    (hfor : List.Forall₂ Override.IsFor os rest) (horder : Field.inOrder = before ++ rest)
    (hsense : MakeSense environment before) (heffect : TookEffect environment before s s') :
    Overrides environment s (applyAll environment os s') := by
  induction hfor generalizing before s' with
  | nil =>
    rw [List.append_nil] at horder
    rw [← horder] at hsense heffect
    exact .all hsense heffect
  | @cons o f os rest ho _ ih =>
    have htext : f.text? environment = environment o.name := by
      rw [Field.text?, ho.name]
      rfl
    have horder' : Field.inOrder = (before ++ [f]) ++ rest := by
      rw [horder, List.append_assoc, List.singleton_append]
    rw [applyAll, ← htext]
    cases hset : f.text? environment with
    | none =>
      refine ih horder' (hsense.concat fun text hsome => ?_) (heffect.unset hset)
      rw [hset] at hsome
      cases hsome
    | some text =>
      simp only
      cases hchange : o.change s' text with
      | error fault =>
        obtain ⟨hnone, rfl⟩ := (ho.refuse s' text fault).mp hchange
        exact .upTo horder hsense heffect hset hnone
      | ok s'' =>
        have hsaid := ((ho.change s' text s'').mp hchange).1
        refine ih horder' (hsense.concat fun other hsome => ?_) (heffect.set ho hset hchange)
        obtain rfl : text = other := Option.some.inj (hset.symm.trans hsome)
        exact ⟨_, hsaid⟩

/-- **Variables override settings in their order.** -/
theorem overrides_override (environment : String → Option String) (s : Settings) :
    Overrides environment s (s.override environment) :=
  overrides_applyAll forall₂_isFor rfl (fun _ hf => absurd hf List.not_mem_nil) tookEffect_nil

/-- Overriding succeeds if every variable that is set makes sense. -/
theorem exists_override_iff :
    (∃ s', s.override environment = (none, s')) ↔ MakeSense environment Field.inOrder := by
  have hover := overrides_override environment s
  constructor
  · rintro ⟨s', hs'⟩
    rw [hs'] at hover
    cases hover with
    | all hsense _ => exact hsense
  · intro hsense
    generalize s.override environment = outcome at hover
    cases hover with
    | all _ _ => exact ⟨_, rfl⟩
    | @upTo before after f text s' horder _ _ hset hnone =>
      have hf : f ∈ Field.inOrder := by simp [horder]
      exact absurd (hsense f hf text hset) hnone

end Run

/-! ## Loading -/

/-- **A field comes from the first layer that has it**: its variable, its entry in the file,
or what it is unless told otherwise. -/
inductive Layer (environment : String → Option String) (entries : List (String × Node))
    (f : Field) : f.Value → Prop
  | fromVariable {text : String} {value : f.Value} : f.text? environment = some text →
      f.Says text value → Layer environment entries f value
  | fromFile {value : f.Value} : f.text? environment = none → Under entries f.key f.read value →
      Layer environment entries f value
  | fromStandard : f.text? environment = none → Absent entries f.key →
      Layer environment entries f (f.get standard)

/-- The entries of the file that is named, or none where no file is named. -/
inductive Named (read : String → Except String String) (environment : String → Option String) :
    List (String × Node) → Prop
  | unnamed : environment fileVariable = none → Named read environment []
  | named {path text : String} {entries : List (String × Node)} :
      environment fileVariable = some path → read path = .ok text → entries? text = some entries →
      Named read environment entries

/-- **Settings are loaded in layers.** -/
structure Loads (read : String → Except String String) (environment : String → Option String) :
    Prop where
  /-- A file is read if it is there, has entries, and each field has a value in it. -/
  parses : ∀ path, (∃ s, ofFile read path = .ok s) ↔
    ∃ text entries, read path = .ok text ∧ entries? text = some entries ∧
      ∀ f : Field, ∃ value, FileSays entries f value
  /-- Settings are loaded if the file that is named is read and the variables that are set
  make sense. -/
  succeeds : (∃ s, load read environment = .ok s) ↔
    (∀ path, environment fileVariable = some path → ∃ s, ofFile read path = .ok s) ∧
      MakeSense environment Field.inOrder
  /-- Each field comes from the first layer that has it, whatever the others are. -/
  layers : ∀ s, load read environment = .ok s → ∃ entries, Named read environment entries ∧
    ∀ f : Field, Layer environment entries f (f.get s)

section Load

variable {read : String → Except String String} {environment : String → Option String}
  {entries : List (String × Node)} {path : String} {s base : Settings}

/-- The settings with given values. -/
def ofValues (value : (f : Field) → f.Value) : Settings where
  addr := value .addr
  connectTimeout := value .connectTimeout
  receiveTimeout := value .receiveTimeout
  readBuffer := value .readBuffer
  stagingCapacity := value .stagingCapacity
  sendQueue := value .sendQueue
  maxBody := value .maxBody
  shutdownTimeout := value .shutdownTimeout
  pipeMode := value .pipeMode

@[simp] theorem get_ofValues (value : (f : Field) → f.Value) (f : Field) :
    f.get (ofValues value) = value f := by
  cases f <;> rfl

theorem ofFile_eq_ok_iff :
    ofFile read path = .ok s ↔ ∃ text entries, read path = .ok text ∧ entries? text = some entries ∧
      ∀ f : Field, FileSays entries f (f.get s) := by
  rw [ofFile]
  cases hread : read path with
  | error reason => simp
  | ok text =>
    simp only [Except.ok.injEq, exists_and_left, exists_eq_left', ← ofText?_eq_some_iff]
    cases ofText? text <;> simp

/-- A file is read if each field has a value in it. -/
theorem exists_ofFile_iff :
    (∃ s, ofFile read path = .ok s) ↔
      ∃ text entries, read path = .ok text ∧ entries? text = some entries ∧
        ∀ f : Field, ∃ value, FileSays entries f value := by
  constructor
  · rintro ⟨s, hs⟩
    obtain ⟨text, entries, hread, hentries, hsaid⟩ := ofFile_eq_ok_iff.mp hs
    exact ⟨text, entries, hread, hentries, fun f => ⟨_, hsaid f⟩⟩
  · rintro ⟨text, entries, hread, hentries, hsaid⟩
    choose value hvalue using hsaid
    refine ⟨ofValues value, ofFile_eq_ok_iff.mpr ⟨text, entries, hread, hentries, fun f => ?_⟩⟩
    rw [get_ofValues]
    exact hvalue f

/-- The settings that variables are laid over. -/
def IsBase (read : String → Except String String) (environment : String → Option String)
    (base : Settings) : Prop :=
  match environment fileVariable with
  | none => base = standard
  | some path => ofFile read path = .ok base

/-- Loading is overriding the settings of the file, or the standard ones. -/
theorem load_eq_ok_iff :
    load read environment = .ok s ↔
      ∃ base, IsBase read environment base ∧ base.override environment = (none, s) := by
  rw [load]
  simp only [IsBase]
  cases environment fileVariable with
  | none =>
    simp only [exists_eq_left]
    rcases standard.override environment with ⟨_ | fault, s'⟩ <;> simp
  | some path =>
    cases hfile : ofFile read path with
    | error fault => simp [hfile]
    | ok base =>
      simp only [hfile, Except.ok.injEq, exists_eq_left']
      rcases base.override environment with ⟨_ | fault, s'⟩ <;> simp

/-- The settings under the variables are what the entries of the file say. -/
theorem IsBase.exists_named (h : IsBase read environment base) :
    ∃ entries, Named read environment entries ∧ ∀ f : Field, FileSays entries f (f.get base) := by
  rw [IsBase] at h
  split at h
  · next hunnamed =>
    subst h
    exact ⟨[], .unnamed hunnamed, fun f => .absent fun e he => absurd he List.not_mem_nil⟩
  · next path hnamed =>
    obtain ⟨text, entries, hread, hentries, hsaid⟩ := ofFile_eq_ok_iff.mp h
    exact ⟨entries, .named hnamed hread hentries, hsaid⟩

/-- A variable is laid over the file, and the file over the standard. -/
theorem layer_of_takes {f : Field} {old value : f.Value} (hfile : FileSays entries f old)
    (htakes : Takes f (f.text? environment) old value) :
    Layer environment entries f value := by
  cases htakes with
  | changes hset hsaid => exact .fromVariable hset hsaid
  | stays hunset =>
    cases hfile with
    | stands hunder => exact .fromFile hunset hunder
    | absent habsent => exact .fromStandard hunset habsent

/-- Every variable is heard: a field out of the order has none. -/
theorem text?_of_inOrder (f : Field) :
    (if f ∈ Field.inOrder then f.text? environment else none) = f.text? environment := by
  by_cases hf : f ∈ Field.inOrder
  · exact if_pos hf
  · have unnamed : f.varName? = none := by
      rw [Field.mem_inOrder_iff] at hf
      simpa using hf
    rw [if_neg hf, Field.text?, unnamed]
    rfl

theorem loads (read : String → Except String String) (environment : String → Option String) :
    Loads read environment where
  parses := fun path => exists_ofFile_iff
  succeeds := by
    have based : (∃ base, IsBase read environment base) ↔
        ∀ path, environment fileVariable = some path → ∃ s, ofFile read path = .ok s := by
      simp only [IsBase]
      cases environment fileVariable <;> simp
    rw [← based]
    constructor
    · rintro ⟨s, hs⟩
      obtain ⟨base, hbase, hover⟩ := load_eq_ok_iff.mp hs
      exact ⟨⟨base, hbase⟩, exists_override_iff.mp ⟨s, hover⟩⟩
    · rintro ⟨⟨base, hbase⟩, hsense⟩
      obtain ⟨s, hover⟩ := (exists_override_iff (s := base)).mpr hsense
      exact ⟨s, load_eq_ok_iff.mpr ⟨base, hbase, hover⟩⟩
  layers := by
    intro s hs
    obtain ⟨base, hbase, hover⟩ := load_eq_ok_iff.mp hs
    obtain ⟨entries, hnamed, hfile⟩ := hbase.exists_named
    refine ⟨entries, hnamed, fun f => ?_⟩
    have htakes := overrides_override environment base
    rw [hover] at htakes
    cases htakes with
    | all _ heffect =>
      have := heffect f
      rw [text?_of_inOrder] at this
      exact layer_of_takes (hfile f) this

end Load

/-! ## The link that settings make -/

/-- **A size is brought within bounds**: it lies between them, and one that did so stays. -/
structure Nearest (low high n m : UInt64) : Prop where
  low_le : low ≤ m
  le_high : m ≤ high
  pos : 0 < m
  stays : low ≤ n → n ≤ high → m = n
  below : n < low → m = low
  above : high < n → m = high

/-- **A link is set up as settings say**, with its sizes within their bounds. -/
structure Confines (s : Settings) (c : LinkConfig) : Prop where
  readBuffer : Nearest 1024 1048576 s.readBuffer c.readBuffer
  stagingCapacity : Nearest 1024 16777216 s.stagingCapacity c.stagingCapacity
  sendQueue : Option.Rel (Nearest 1 18446744073709551615) s.sendQueue c.sendQueue
  addr : c.addr = s.addr
  connectTimeout : c.connectTimeout = s.connectTimeout
  receiveTimeout : c.receiveTimeout = s.receiveTimeout
  maxBody : c.maxBody = s.maxBody
  shutdownTimeout : c.shutdownTimeout = s.shutdownTimeout
  pipeMode : c.pipeMode = s.pipeMode

theorem nearest_clamp {low high : UInt64} (n : UInt64) (hpos : 0 < low) (h : low ≤ high) :
    Nearest low high n (LinkConfig.clamp low high n) where
  low_le := LinkConfig.le_clamp n h
  le_high := LinkConfig.clamp_le n h
  pos := UInt64.lt_of_lt_of_le hpos (LinkConfig.le_clamp n h)
  stays := LinkConfig.clamp_of_mem
  below := by
    intro hbelow
    rw [LinkConfig.clamp, if_pos hbelow]
  above := by
    intro habove
    have hlow : ¬n < low := by
      simp only [UInt64.lt_iff_toNat_lt, UInt64.le_iff_toNat_le] at h habove ⊢
      omega
    rw [LinkConfig.clamp, if_neg hlow, if_pos habove]

/-- A send queue that is limited has room for one frame. -/
theorem nearest_sendQueue (n : UInt64) :
    Nearest 1 18446744073709551615 n (if n = 0 then 1 else n) where
  low_le := by
    split
    · exact UInt64.le_refl 1
    · next hn =>
      simp only [UInt64.le_iff_toNat_le, ← UInt64.toNat_inj] at hn ⊢
      exact Nat.one_le_iff_ne_zero.mpr hn
  le_high := by
    simp only [UInt64.le_iff_toNat_le]
    exact Nat.le_of_lt_succ (UInt64.toNat_lt _)
  pos := by
    split
    · decide
    · next hn => exact UInt64.pos_iff_ne_zero.mpr hn
  stays := by
    intro hlow _
    have hn : n ≠ 0 := by
      rintro rfl
      exact absurd hlow (by decide)
    exact if_neg hn
  below := by
    intro hlow
    have hn : n = 0 := by
      simp only [UInt64.lt_iff_toNat_lt, ← UInt64.toNat_inj] at hlow ⊢
      exact Nat.lt_one_iff.mp hlow
    exact if_pos hn
  above := by
    intro hhigh
    have := UInt64.toNat_lt n
    simp only [UInt64.lt_iff_toNat_lt] at hhigh
    change 18446744073709551615 < n.toNat at hhigh
    omega

/-- What settings make of a link, field by field. -/
theorem linkConfig_eq (s : Settings) :
    s.linkConfig =
      { addr := s.addr
        connectTimeout := s.connectTimeout
        receiveTimeout := s.receiveTimeout
        readBuffer := LinkConfig.clamp 1024 1048576 s.readBuffer
        stagingCapacity := LinkConfig.clamp 1024 16777216 s.stagingCapacity
        sendQueue := s.sendQueue.map fun n => if n = 0 then 1 else n
        maxBody := s.maxBody
        shutdownTimeout := s.shutdownTimeout
        pipeMode := s.pipeMode } := by
  rw [linkConfig]
  cases s.receiveTimeout <;> cases s.sendQueue <;> rfl

/-- **Settings make a link** with its sizes within their bounds, and are copied otherwise. -/
theorem confines_linkConfig (s : Settings) : s.Confines s.linkConfig := by
  rw [linkConfig_eq]
  exact {
    readBuffer := nearest_clamp s.readBuffer (by decide) (by decide)
    stagingCapacity := nearest_clamp s.stagingCapacity (by decide) (by decide)
    sendQueue := by
      simp only
      cases s.sendQueue with
      | none => exact .none
      | some n => exact .some (nearest_sendQueue n)
    addr := rfl
    connectTimeout := rfl
    receiveTimeout := rfl
    maxBody := rfl
    shutdownTimeout := rfl
    pipeMode := rfl }

/-- **Settings come in layers.** Loading takes each field from the first layer that has it,
overriding stops at the first variable that makes no sense, and the link that is set up has
its sizes within their bounds. -/
theorem layered :
    (∀ read environment, Loads read environment) ∧
      (∀ environment s, Overrides environment s (s.override environment)) ∧
      ∀ s : Settings, s.Confines s.linkConfig :=
  ⟨loads, overrides_override, confines_linkConfig⟩

end Settings

end FramedDuplex
