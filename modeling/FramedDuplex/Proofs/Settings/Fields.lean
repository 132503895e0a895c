import FramedDuplex.Proofs.Settings.Readings
/-!
# The fields of settings

Settings are nine values, and each is read in the same two ways: off the entry of a
settings file that has its name, and for five of them off a variable. `Field` names the
values, and `Field.key`, `Field.read`, `Field.varName?` and `Field.Says` say how each of
them is read. What is known of a file or of variables is then known of every field at
once: a file says of each field by itself what it is (`Settings.ofText?_eq_some_iff`), and
a variable changes one field and no other (`Settings.forall₂_isFor`).
-/

namespace FramedDuplex

open Yaml

namespace Settings

/-- A value of settings. -/
inductive Field
  | addr
  | connectTimeout
  | receiveTimeout
  | readBuffer
  | stagingCapacity
  | sendQueue
  | maxBody
  | shutdownTimeout
  | pipeMode
deriving DecidableEq

namespace Field

/-- What a field may be. -/
abbrev Value : Field → Type
  | addr => String
  | connectTimeout | readBuffer | stagingCapacity | maxBody | shutdownTimeout => UInt64
  | receiveTimeout | sendQueue => Option UInt64
  | pipeMode => PipeMode

/-- What a field is in settings. -/
def get : (f : Field) → Settings → f.Value
  | addr, s => s.addr
  | connectTimeout, s => s.connectTimeout
  | receiveTimeout, s => s.receiveTimeout
  | readBuffer, s => s.readBuffer
  | stagingCapacity, s => s.stagingCapacity
  | sendQueue, s => s.sendQueue
  | maxBody, s => s.maxBody
  | shutdownTimeout, s => s.shutdownTimeout
  | pipeMode, s => s.pipeMode

/-- Settings are what their fields are. -/
theorem ext {s s' : Settings} (h : ∀ f : Field, f.get s = f.get s') : s = s' := by
  obtain ⟨addr, connect, receive, buffer, staging, queue, body, shutdown, mode⟩ := s
  obtain rfl : addr = s'.addr := h .addr
  obtain rfl : connect = s'.connectTimeout := h .connectTimeout
  obtain rfl : receive = s'.receiveTimeout := h .receiveTimeout
  obtain rfl : buffer = s'.readBuffer := h .readBuffer
  obtain rfl : staging = s'.stagingCapacity := h .stagingCapacity
  obtain rfl : queue = s'.sendQueue := h .sendQueue
  obtain rfl : body = s'.maxBody := h .maxBody
  obtain rfl : shutdown = s'.shutdownTimeout := h .shutdownTimeout
  obtain rfl : mode = s'.pipeMode := h .pipeMode
  rfl

/-! ## In a file -/

/-- The name of a field in a file. -/
def key : Field → String
  | addr => "addr"
  | connectTimeout => "connect_timeout_ms"
  | receiveTimeout => "receive_timeout_ms"
  | readBuffer => "read_buffer_size"
  | stagingCapacity => "staging_capacity"
  | sendQueue => "send_queue_capacity"
  | maxBody => "max_body_size"
  | shutdownTimeout => "shutdown_timeout_ms"
  | pipeMode => "pipe_mode"

/-- How the value under the name of a field is read. -/
def read : (f : Field) → Node → Option f.Value
  | addr => Node.text?
  | connectTimeout | readBuffer | stagingCapacity | maxBody | shutdownTimeout => Node.number?
  | receiveTimeout | sendQueue => Node.numberOrNull?
  | pipeMode => Node.pipeMode?

/-! ## In variables -/

/-- The variable for a field, if there is one. -/
def varName? : Field → Option String
  | addr => some "WIRELINK_ADDR"
  | connectTimeout => some "WIRELINK_CONNECT_TIMEOUT_MS"
  | receiveTimeout => some "WIRELINK_RECEIVE_TIMEOUT_MS"
  | readBuffer => some "WIRELINK_READ_BUFFER_SIZE"
  | pipeMode => some "WIRELINK_PIPE_MODE"
  | stagingCapacity | sendQueue | maxBody | shutdownTimeout => none

/-- What a text says of a field: an address is the text itself. -/
def Says : (f : Field) → String → f.Value → Prop
  | addr, text, value => value = text
  | connectTimeout, text, value | readBuffer, text, value | stagingCapacity, text, value
  | maxBody, text, value | shutdownTimeout, text, value => SaysNumber text value
  | receiveTimeout, text, value | sendQueue, text, value => ∃ n, SaysNumber text n ∧ value = some n
  | pipeMode, text, value => SaysMode text value

/-- How a text is refused that says nothing of a field. -/
def refusal : Field → String → ConfigError
  | pipeMode, text => .invalid s!"unknown pipe mode '{lowered text}'"
  | f, text => .invalid s!"{f.varName?.getD f.key} has invalid value '{text}'"

/-- The text of the variable for a field, if it has one that is set. -/
def text? (f : Field) (environment : String → Option String) : Option String :=
  f.varName?.bind environment

/-- The fields that have variables, in the order in which these take effect. -/
def inOrder : List Field := [addr, connectTimeout, receiveTimeout, readBuffer, pipeMode]

theorem mem_inOrder_iff {f : Field} : f ∈ inOrder ↔ f.varName?.isSome = true := by
  cases f <;> decide

end Field

/-! ## What the entries of a file say -/

/-- A name stands among entries once, and what stands under it is read. -/
def Under {α : Type} (entries : List (String × Node)) (name : String) (read : Node → Option α)
    (value : α) : Prop :=
  ∃ before node after, entries = before ++ (name, node) :: after ∧
    (∀ e ∈ before ++ after, e.1 ≠ name) ∧ read node = some value

/-- A name stands nowhere among entries. -/
def Absent (entries : List (String × Node)) (name : String) : Prop := ∀ e ∈ entries, e.1 ≠ name

/-- What a file says of a field: what stands under its name, or what it is unless told
otherwise. -/
inductive FileSays (entries : List (String × Node)) (f : Field) : f.Value → Prop
  | stands {value : f.Value} : Under entries f.key f.read value → FileSays entries f value
  | absent : Absent entries f.key → FileSays entries f (f.get standard)

section ValueAt

variable {α : Type} {entries : List (String × Node)} {name : String} {read : Node → Option α}
  {otherwise value : α}

theorem filter_eq_nil_iff_absent : entries.filter (·.1 = name) = [] ↔ Absent entries name := by
  simp only [List.filter_eq_nil_iff, decide_eq_true_eq, Absent, ne_eq]

/-- Where a name stands once, the entries of that name are the one. -/
theorem filter_eq_singleton_iff {e : String × Node} :
    entries.filter (·.1 = name) = [e] ↔ e.1 = name ∧ ∃ before after,
      entries = before ++ e :: after ∧ ∀ e ∈ before ++ after, e.1 ≠ name := by
  rw [List.filter_eq_cons_iff]
  simp only [List.filter_eq_nil_iff, decide_eq_true_eq]
  constructor
  · rintro ⟨before, after, hentries, hbefore, hname, hafter⟩
    refine ⟨hname, before, after, hentries, fun e he => ?_⟩
    rcases List.mem_append.mp he with he | he
    · exact hbefore e he
    · exact hafter e he
  · rintro ⟨hname, before, after, hentries, hothers⟩
    exact ⟨before, after, hentries, fun e he => hothers e (List.mem_append_left _ he), hname,
      fun e he => hothers e (List.mem_append_right _ he)⟩

/-- **A value is read off a file** if its name stands there once with something that can be
read, or does not stand there. -/
theorem valueAt_eq_some_iff :
    valueAt entries name read otherwise = some value ↔
      Under entries name read value ∨ Absent entries name ∧ otherwise = value := by
  rw [← filter_eq_nil_iff_absent, valueAt]
  split
  · next hnone =>
    have hnot : ¬Under entries name read value := by
      rintro ⟨before, node, after, rfl, -, -⟩
      simp at hnone
    simp [hnone, hnot]
  · next found node hone =>
    obtain ⟨hfound, before, after, hentries, hothers⟩ := filter_eq_singleton_iff.mp hone
    obtain rfl : found = name := hfound
    simp only [hone, List.cons_ne_nil, false_and, or_false]
    constructor
    · intro hread
      exact ⟨before, node, after, hentries, hothers, hread⟩
    · rintro ⟨before', node', after', hentries', hothers', hread⟩
      have hone' := filter_eq_singleton_iff.mpr ⟨rfl, before', after', hentries', hothers'⟩
      have same : node = node' := by simpa [hone] using hone'
      rw [same]
      exact hread
  · next hmany hnotOne =>
    have hnot : ¬Under entries name read value := by
      rintro ⟨before, node, after, hentries, hothers, -⟩
      exact hnotOne name node (filter_eq_singleton_iff.mpr ⟨rfl, before, after, hentries, hothers⟩)
    have hthere : entries.filter (·.1 = name) ≠ [] := hmany
    simp only [hnot, hthere, false_and, or_false, reduceCtorEq]

end ValueAt

/-- What a file says of a field is what is read there. -/
theorem fileSays_iff {entries : List (String × Node)} {f : Field} {value : f.Value} :
    FileSays entries f value ↔ valueAt entries f.key f.read (f.get standard) = some value := by
  rw [valueAt_eq_some_iff]
  constructor
  · intro hsaid
    cases hsaid with
    | stands hunder => exact .inl hunder
    | absent habsent => exact .inr ⟨habsent, rfl⟩
  · rintro (hunder | ⟨habsent, rfl⟩)
    · exact .stands hunder
    · exact .absent habsent

/-- The entries that a text has as a settings file. -/
def entries? (text : String) : Option (List (String × Node)) :=
  (Yaml.read text).bind Node.entries?

/-- **A text is read as settings field by field.** -/
theorem ofText?_eq_some_iff {text : String} {s : Settings} :
    ofText? text = some s ↔
      ∃ entries, entries? text = some entries ∧ ∀ f : Field, FileSays entries f (f.get s) := by
  simp only [ofText?, Option.bind_eq_bind, Option.bind_eq_some_iff, Option.pure_def, entries?]
  constructor
  · rintro ⟨root, hroot, entries, hentries, addr, haddr, connect, hconnect, receive, hreceive, buffer,
      hbuffer, staging, hstaging, queue, hqueue, body, hbody, shutdown, hshutdown, mode, hmode, hs⟩
    obtain rfl := Option.some.inj hs
    refine ⟨entries, ⟨root, hroot, hentries⟩, fun f => fileSays_iff.mpr ?_⟩
    cases f <;> assumption
  · rintro ⟨entries, ⟨root, hroot, hentries⟩, hsaid⟩
    have hread (f : Field) := fileSays_iff.mp (hsaid f)
    exact ⟨root, hroot, entries, hentries, s.addr, hread .addr, s.connectTimeout,
      hread .connectTimeout, s.receiveTimeout, hread .receiveTimeout, s.readBuffer, hread .readBuffer,
      s.stagingCapacity, hread .stagingCapacity, s.sendQueue, hread .sendQueue, s.maxBody,
      hread .maxBody, s.shutdownTimeout, hread .shutdownTimeout, s.pipeMode, hread .pipeMode, rfl⟩

/-! ## What a variable changes -/

/-- **A variable is for a field**: it changes that field to what it says and no other, and
is refused if it says nothing. -/
structure Override.IsFor (o : Override) (f : Field) : Prop where
  name : f.varName? = some o.name
  change : ∀ s text s', o.change s text = .ok s' ↔
    f.Says text (f.get s') ∧ ∀ g : Field, g ≠ f → g.get s' = g.get s
  refuse : ∀ s text fault, o.change s text = .error fault ↔
    (¬∃ value, f.Says text value) ∧ fault = f.refusal text

/-- A variable is for a field if its text is read as what it says of the field, and that is
put in its place. -/
theorem Override.isFor_of_read {α : Type} {o : Override} {f : Field}
    (read : String → Except ConfigError α) (set : Settings → α → Settings) (embed : α → f.Value)
    (hname : f.varName? = some o.name)
    (hchange : ∀ s text, o.change s text = (read text).map (set s))
    (hsaid : ∀ text value, f.Says text value ↔ ∃ a, read text = .ok a ∧ value = embed a)
    (hrefuse : ∀ text fault, read text = .error fault → fault = f.refusal text)
    (hget : ∀ s a, f.get (set s a) = embed a)
    (hother : ∀ s a g, g = f ∨ g.get (set s a) = g.get s) : o.IsFor f where
  name := hname
  change := by
    intro s text s'
    rw [hchange, hsaid]
    constructor
    · intro hset
      cases hread : read text with
      | error fault =>
        rw [hread] at hset
        cases hset
      | ok a =>
        rw [hread] at hset
        obtain rfl := Except.ok.inj hset
        exact ⟨⟨a, rfl, hget s a⟩, fun g hg => (hother s a g).resolve_left hg⟩
    · rintro ⟨⟨a, hread, hvalue⟩, hothers⟩
      have same : set s a = s' := by
        refine Field.ext fun g => ?_
        by_cases hg : g = f
        · subst hg
          rw [hget, hvalue]
        · rw [(hother s a g).resolve_left hg, hothers g hg]
      rw [hread, ← same]
      rfl
  refuse := by
    intro s text fault
    rw [hchange]
    cases hread : read text with
    | error found =>
      have none : ¬∃ value, f.Says text value := by
        rintro ⟨value, hvalue⟩
        obtain ⟨a, ha, -⟩ := (hsaid text value).mp hvalue
        rw [hread] at ha
        cases ha
      simp only [Except.map, Except.error.injEq, none, not_false_eq_true, true_and,
        hrefuse text found hread]
      exact eq_comm
    | ok a =>
      have some : ∃ value, f.Says text value := ⟨embed a, (hsaid text _).mpr ⟨a, hread, rfl⟩⟩
      simp [Except.map, some]

/-- A number in a variable is for the field that it is put in. -/
theorem Override.isFor_numberOverride {f : Field} {name : String} {set : Settings → UInt64 → Settings}
    (embed : UInt64 → f.Value) (hname : f.varName? = some name)
    (hsaid : ∀ text value, f.Says text value ↔ ∃ n, SaysNumber text n ∧ value = embed n)
    (hrefusal : ∀ text, f.refusal text = .invalid s!"{name} has invalid value '{text}'")
    (hget : ∀ s n, f.get (set s n) = embed n)
    (hother : ∀ s n g, g = f ∨ g.get (set s n) = g.get s) :
    (numberOverride name set).IsFor f := by
  refine isFor_of_read (readNumber name) set embed hname (fun s text => rfl) ?_ ?_
    hget hother
  · intro text value
    rw [hsaid]
    exact exists_congr fun n => and_congr_left fun _ => readNumber_eq_ok_iff.symm
  · intro text fault hfault
    rw [hrefusal]
    exact (readNumber_eq_error_iff.mp hfault).2

/-- **The variables in their order** are for the fields in theirs. -/
theorem forall₂_isFor : List.Forall₂ Override.IsFor overrides Field.inOrder := by
  refine .cons ?addr (.cons ?connect (.cons ?receive (.cons ?buffer (.cons ?mode .nil))))
  case addr =>
    refine Override.isFor_of_read .ok (fun s text => { s with addr := text }) id rfl
      (fun _ _ => rfl) ?_ ?_ (fun _ _ => rfl) ?_
    · intro text value
      constructor
      · intro hvalue
        exact ⟨text, rfl, hvalue⟩
      · rintro ⟨a, htext, hvalue⟩
        obtain rfl := Except.ok.inj htext
        exact hvalue
    · intro text fault hfault
      cases hfault
    · intro s text g
      cases g <;> simp [Field.get]
  case connect =>
    refine Override.isFor_numberOverride id rfl ?_ (fun _ => rfl) (fun _ _ => rfl) ?_
    · intro text value
      exact exists_eq_right'.symm
    · intro s n g
      cases g <;> simp [Field.get]
  case receive =>
    refine Override.isFor_numberOverride some rfl ?_ (fun _ => rfl) (fun _ _ => rfl) ?_
    · intro text value
      rfl
    · intro s n g
      cases g <;> simp [Field.get]
  case buffer =>
    refine Override.isFor_numberOverride id rfl ?_ (fun _ => rfl) (fun _ _ => rfl) ?_
    · intro text value
      exact exists_eq_right'.symm
    · intro s n g
      cases g <;> simp [Field.get]
  case mode =>
    refine Override.isFor_of_read PipeMode.read (fun s mode => { s with pipeMode := mode }) id rfl
      (fun _ _ => rfl) ?_ ?_ (fun _ _ => rfl) ?_
    · intro text value
      simp only [PipeMode.read_eq_ok_iff]
      exact exists_eq_right'.symm
    · intro text fault hfault
      exact (PipeMode.read_eq_error_iff.mp hfault).2
    · intro s mode g
      cases g <;> simp [Field.get]

end Settings

end FramedDuplex
