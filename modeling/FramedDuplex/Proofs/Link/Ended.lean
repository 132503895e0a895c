import FramedDuplex.Proofs.Exchange.Ended
import FramedDuplex.Proofs.Link.Deed
/-!
# A link ends once

A deed says something to the table or nothing: a caller's move, the answer that
the decoder hands over, or the end of the connection (`Link.Passes`). So the
table of a link is the table of an exchange on which just that happened
(`Link.exchange_after`), and what is known of those is known of it.

The reason for the end stands in two places, and in what callers are told. All of
them agree at every moment (`Link.Agreed`). Once the connection has ended, nothing
more reaches the wire and no more answers come (`Link.Still`).
-/

namespace FramedDuplex

variable [OwnTypes]

/-- The answer that the table is brought, if it is. -/
def Exchange.Event.answer? {κ α : Type} : Exchange.Event κ α → Option (κ × α)
  | .deliver key item => some (key, item)
  | _ => none

namespace Link

variable {l l' : Link} {d : Deed} {reason : BrokenReason} {p q journal : List Deed}

/-! ## What a deed says to the table -/

/-- The end of the connection, if it comes between two links. -/
def ending (l l' : Link) : List (Exchange.Event Key Message) :=
  match l.lifecycle.reason, l'.lifecycle.reason with
  | none, some reason => [.fail reason]
  | _, _ => []

/-- What a deed says to the table. -/
def news (l : Link) : Deed → List (Exchange.Event Key Message)
  | .act now deadline move => [.move now deadline move]
  | .decode =>
    l.answer?.toList.map (fun a => .deliver a.key a.message) ++ l.ending (l.perform .decode)
  | d => l.ending (l.perform d)

/-- What becomes of the lifecycle and the table when something was said. -/
inductive Passes (l l' : Link) : List (Exchange.Event Key Message) → Prop where
  | nothing : l'.lifecycle = l.lifecycle → l'.exchange = l.exchange → Passes l l' []
  | answer {key : Key} {message : Message} : l.isBroken = false → l'.lifecycle = l.lifecycle →
      l'.exchange = l.exchange.deliver key message → Passes l l' [.deliver key message]
  | move {now : ℕ} {deadline : Option ℕ} {move : Exchange.Move Key} :
      l'.lifecycle = l.lifecycle → l'.exchange = (l.exchange.act now deadline move).2 →
        Passes l l' [.move now deadline move]
  | ended {reason : BrokenReason} : l.isBroken = false → l'.lifecycle = ⟨some reason⟩ →
      l'.exchange = (l.exchange.fail reason).2 → Passes l l' [.fail reason]

theorem reason_of_not_isBroken (h : l.isBroken = false) : l.lifecycle.reason = none := by
  simpa [isBroken, Lifecycle.isTriggered] using h

theorem isBroken_iff : l.isBroken = true ↔ ∃ reason, l.lifecycle.reason = some reason :=
  Option.isSome_iff_exists

theorem isBroken_of_reason (h : l.lifecycle.reason = some reason) : l.isBroken = true :=
  isBroken_iff.mpr ⟨reason, h⟩

theorem ending_of_same (h : l'.lifecycle = l.lifecycle) : l.ending l' = [] := by
  unfold ending
  rw [h]
  cases l.lifecycle.reason <;> rfl

theorem passes_of_same (hlife : l'.lifecycle = l.lifecycle) (hsame : l'.exchange = l.exchange) :
    l.Passes l' (l.ending l') := by
  rw [ending_of_same hlife]
  exact .nothing hlife hsame

/-- **A fault is the end of the connection or nothing**, whatever else is done
to the link before and after. -/
theorem passes_breakOff {m : Link} (hm : m.lifecycle = l.lifecycle ∧ m.exchange = l.exchange)
    (hlife : l'.lifecycle = (m.breakOff reason).lifecycle)
    (hexchange : l'.exchange = (m.breakOff reason).exchange) : l.Passes l' (l.ending l') := by
  have hsame : m.isBroken = l.isBroken := by rw [isBroken, isBroken, hm.1]
  cases hbroken : l.isBroken with
  | true =>
    rw [breakOff_of_isBroken (hsame.trans hbroken)] at hlife hexchange
    exact passes_of_same (hlife.trans hm.1) (hexchange.trans hm.2)
  | false =>
    have hnone := reason_of_not_isBroken hbroken
    simp only [breakOff_eq, hsame, hbroken, Bool.false_eq_true, if_false, Lifecycle.trigger, hm,
      hnone, Option.none_or] at hlife hexchange
    have hending : l.ending l' = [.fail reason] := by simp [ending, hnone, hlife]
    rw [hending]
    exact .ended hbroken hlife hexchange

/-- A decoder that draws bytes leaves all but its source alone. -/
theorem Draws.same {limit : ℕ} {bs : Bytes} {m : Link} (h : l.Draws limit bs m) :
    m.lifecycle = l.lifecycle ∧ m.exchange = l.exchange := by
  cases h <;> exact ⟨rfl, rfl⟩

theorem passes_write (l : Link) : l.Passes (l.perform .write) (l.news .write) := by
  show l.Passes (l.perform .write) (l.ending (l.perform .write))
  rcases perform_write l with hsame | hwrites
  · rw [hsame]
    exact passes_of_same rfl rfl
  · generalize l.perform .write = l' at hwrites ⊢
    cases hwrites with
    | fail hfault => exact passes_breakOff ⟨rfl, rfl⟩ rfl rfl
    | _ => exact passes_of_same rfl rfl

theorem passes_read (l : Link) : l.Passes (l.perform .read) (l.news .read) := by
  show l.Passes (l.perform .read) (l.ending (l.perform .read))
  rcases perform_read l with hsame | hreads
  · rw [hsame]
    exact passes_of_same rfl rfl
  · generalize l.perform .read = l' at hreads ⊢
    have hover : ∀ {m : Link} {cause : BrokenReason} {pipe : Pipe},
        m.lifecycle = l.lifecycle ∧ m.exchange = l.exchange →
        l.Passes ((m.breakOff cause).stopReader pipe)
          (l.ending ((m.breakOff cause).stopReader pipe)) :=
      fun hm => passes_breakOff hm rfl rfl
    cases hreads with
    | fail hbroken hintake hfault => exact hover ⟨rfl, rfl⟩
    | _ => exact passes_of_same rfl rfl

theorem passes_decode (l : Link) : l.Passes (l.perform .decode) (l.news .decode) := by
  show l.Passes (l.perform .decode) (l.answer?.toList.map (fun a => .deliver a.key a.message) ++
    l.ending (l.perform .decode))
  rcases perform_decode l with ⟨hnone, hsame⟩ | hdecodes
  · rw [hnone, hsame]
    exact passes_of_same rfl rfl
  · generalize l.perform .decode = l' at hdecodes ⊢
    generalize l.answer? = answer at hdecodes ⊢
    have hover : ∀ {m : Link} {cause : BrokenReason},
        m.lifecycle = l.lifecycle ∧ m.exchange = l.exchange →
        l.Passes (m.breakOff cause).stopDecoder (l.ending (m.breakOff cause).stopDecoder) :=
      fun hm => passes_breakOff hm (by rw [stopDecoder_eq]) (by rw [stopDecoder_eq])
    cases hdecodes with
    | stop hdecoder hbroken =>
      rw [stopDecoder_eq]
      exact passes_of_same rfl rfl
    | fail hdecoder hbroken hintake hfault => exact hover ⟨rfl, rfl⟩
    | ended hdecoder hbroken hdraws => exact hover hdraws.same
    | more hdecoder hbroken hdraws hne haccept =>
      exact passes_of_same hdraws.same.1 hdraws.same.2
    | @frame a bs m answer hdecoder hbroken hdraws hne haccept =>
      have hlife : (m.deliver answer).lifecycle = l.lifecycle := hdraws.same.1
      rw [ending_of_same hlife]
      refine .answer hbroken hlife ?_
      show m.exchange.deliver answer.key answer.message = _
      rw [hdraws.same.2]
    | fault hdecoder hbroken hdraws hne haccept => exact hover hdraws.same

/-- **What a deed says is all that becomes of the lifecycle and the table.** -/
theorem passes_perform (l : Link) (d : Deed) : l.Passes (l.perform d) (l.news d) := by
  cases d with
  | write => exact passes_write l
  | read => exact passes_read l
  | decode => exact passes_decode l
  | turn =>
    unfold news
    simp only [perform, refresh_eq]
    exact passes_of_same rfl rfl
  | quit => exact passes_breakOff ⟨rfl, rfl⟩ rfl rfl
  | abort =>
    unfold news
    simp only [perform, abort_eq]
    split <;> exact passes_of_same rfl rfl
  | meet event => exact passes_of_same rfl rfl
  | act now deadline move => exact .move rfl rfl
  | acquire capacities => exact passes_of_same rfl rfl
  | release buffers => exact passes_of_same rfl rfl
  | offer sender p => exact passes_of_same rfl rfl
  | retry sender p => exact passes_of_same rfl rfl
  | abandon sender => exact passes_of_same rfl rfl

/-- **The table of a link is that of an exchange on which happened what the
deeds said.** -/
theorem exchange_after (l : Link) (journal : List Deed) :
    (l.after journal).exchange = (l.exchange.run (l.account news journal)).2 := by
  induction journal generalizing l with
  | nil => rfl
  | cons d rest ih =>
    have hone : (l.perform d).exchange = (l.exchange.run (l.news d)).2 := by
      generalize l.news d = said, passes_perform l d = hpasses at *
      cases hpasses with
      | nothing _ h => exact h
      | answer _ _ h => exact h
      | move _ h => exact h
      | ended _ _ h => exact h
    rw [after_cons, account, Exchange.run_append, ← hone]
    exact ih (l.perform d)

/-! ## One reason everywhere -/

/-- **The reason for the end is the same everywhere**: with the lifecycle, with
the table, and with those who were told it. -/
structure Agreed (l : Link) : Prop where
  table : l.exchange.table.broken = l.lifecycle.reason
  told : ∀ ticket reason, l.exchange.table.resolved.find? ticket = some (.broken reason) →
    l.lifecycle.reason = some reason
  nobody : l.isBroken = true → l.exchange.table.waiting = []
  /-- The send queue closes after the end only. -/
  closed : l.outbox.closed = true → l.isBroken = true

theorem agreed_new (config : LinkConfig) (codec : Codec) (schema : Schema) :
    (new config codec schema).Agreed where
  table := rfl
  told ticket reason h := by simp [new, Exchange.empty, Table.empty] at h
  nobody h := by simp [new, isBroken, Lifecycle.start, Lifecycle.isTriggered] at h
  closed h := by simp [new, Outbox.new] at h

omit [OwnTypes] in
theorem closed_free (o : Outbox) : o.free.closed = o.closed := by
  unfold Outbox.free
  split <;> rfl

omit [OwnTypes] in
theorem closed_take (o : Outbox) (limit : ℕ) : (o.take limit).2.closed = o.closed := by
  have hfold : ∀ (taken : List Parcel) (o : Outbox),
      (taken.foldl (fun o _ => o.free) o).closed = o.closed := by
    intro taken
    induction taken with
    | nil => exact fun _ => rfl
    | cons p rest ih => exact fun o => (ih o.free).trans (closed_free o)
  exact hfold ..

/-- **The send queue closes only where the connection has ended.** -/
theorem closed_perform (d : Deed) (h : (l.perform d).outbox.closed = true) :
    l.outbox.closed = true ∨ (l.perform d).isBroken = true := by
  cases d with
  | write =>
    rcases perform_write l with hsame | hwrites
    · rw [hsame] at h
      exact .inl h
    · generalize l.perform .write = l' at hwrites h ⊢
      cases hwrites with
      | stop hbroken => exact .inr hbroken
      | take hbroken hwriter htake =>
        have hclosed := closed_take l.outbox batchLimit
        rw [htake] at hclosed
        exact .inl (hclosed ▸ h)
      | part hbroken hwriter hwrite hcount => exact .inl h
      | whole hbroken hwriter hwrite hcount => exact .inl h
      | flush hwriter => exact .inl h
      | fail hfault => exact .inr (isBroken_breakOff ..)
  | read =>
    rw [(aside_read l).outbox] at h
    exact .inl h
  | decode =>
    rw [(aside_decode l).outbox] at h
    exact .inl h
  | turn =>
    rw [perform, refresh_eq] at h
    exact .inl h
  | quit => exact .inr (isBroken_breakOff ..)
  | abort =>
    rw [perform] at h ⊢
    split at h
    · next hbroken =>
      rw [if_pos hbroken, abort_eq]
      exact .inr hbroken
    · exact .inl h
  | offer sender p =>
    simp only [perform, Outbox.offer] at h
    split at h
    · exact .inl h
    · split at h <;> exact .inl h
  | retry sender p =>
    simp only [perform, Outbox.retry] at h
    split at h
    · exact .inl h
    · split at h <;> exact .inl h
  | abandon sender =>
    simp only [perform, Outbox.abandon] at h
    split at h
    · rw [closed_free] at h
      exact .inl h
    · exact .inl h
  | _ => exact .inl h

/-- **An ended connection stays as it ended.** -/
theorem lifecycle_perform (h : l.isBroken = true) (d : Deed) :
    (l.perform d).lifecycle = l.lifecycle := by
  have hpasses := passes_perform l d
  generalize l.news d = said at hpasses
  cases hpasses with
  | nothing hlife _ => exact hlife
  | answer hbroken _ _ => simp [h] at hbroken
  | move hlife _ => exact hlife
  | ended hbroken _ _ => simp [h] at hbroken

theorem lifecycle_after (h : l.isBroken = true) (journal : List Deed) :
    (l.after journal).lifecycle = l.lifecycle := by
  induction journal generalizing l with
  | nil => rfl
  | cons d rest ih =>
    have hlife := lifecycle_perform h d
    have hstill : (l.perform d).isBroken = true := by rw [isBroken, hlife]; exact h
    exact (ih hstill).trans hlife

theorem isBroken_after (h : l.isBroken = true) (journal : List Deed) :
    (l.after journal).isBroken = true := by
  rw [isBroken, lifecycle_after h]
  exact h

/-- **Every deed keeps the reasons agreed.** -/
theorem Agreed.perform (h : l.Agreed) (d : Deed) : (l.perform d).Agreed := by
  have hclosed : (l.perform d).outbox.closed = true → (l.perform d).isBroken = true := by
    intro hc
    rcases closed_perform d hc with hold | hnew
    · rw [isBroken, lifecycle_perform (h.closed hold) d]
      exact h.closed hold
    · exact hnew
  have hpasses := passes_perform l d
  generalize l.perform d = l', l.news d = said at hpasses hclosed ⊢
  -- what is said by a deed that does not end the connection keeps all that was agreed
  have hlater : ∀ {t : Table Key Message}, l.exchange.table.Later t → l'.exchange.table = t →
      l'.lifecycle = l.lifecycle → l'.Agreed := by
    rintro t hlater rfl hlife
    have hover : l'.isBroken = l.isBroken := by rw [isBroken, isBroken, hlife]
    refine ⟨?_, fun ticket reason hu => ?_, fun hbroken => ?_, hclosed⟩
    · rw [hlater.broken, hlife]
      exact h.table
    · rw [hlife]
      exact h.told ticket reason (hlater.told ticket reason hu)
    · rw [hover] at hbroken
      have hsome : l.exchange.table.broken.isSome = true := by
        rw [h.table]
        exact hbroken
      exact (hlater.closed hsome (h.nobody hbroken)).1
  cases hpasses with
  | nothing hlife hsame => exact hlater (.refl _) (by rw [hsame]) hlife
  | answer hbroken hlife hanswer =>
    exact hlater (Exchange.later_deliver ..) (by rw [hanswer]) hlife
  | move hlife hmove => exact hlater (Exchange.later_act ..) (by rw [hmove]) hlife
  | @ended reason hbroken hlife hover =>
    have hnone := reason_of_not_isBroken hbroken
    refine ⟨?_, fun ticket other hu => ?_, fun _ => ?_, hclosed⟩
    · rw [hover, hlife]
      show l.exchange.table.broken.or (some reason) = some reason
      rw [h.table, hnone]
      rfl
    · rw [hover] at hu
      rw [hlife]
      have hresolved : ((l.exchange.table.fail reason).2.resolved).find? ticket =
          some (.broken other) := hu
      rw [Table.resolved_fail, Handles.find?_foldl_insert] at hresolved
      split at hresolved
      · obtain rfl : reason = other := by simpa using hresolved
        rfl
      · have := h.told ticket other hresolved
        rw [hnone] at this
        simp at this
    · rw [hover]
      rfl

theorem Agreed.after (h : l.Agreed) (journal : List Deed) : (l.after journal).Agreed :=
  throughout (fun _ d hl => hl.perform d) h journal

/-- **Who waits when the end comes is told of it.** -/
theorem told_of_waits {key : Key} {ticket : ℕ} (hopen : l.lifecycle.reason = none)
    (hover : (l.perform d).lifecycle.reason = some reason)
    (hwaits : l.exchange.table.Waits key ticket) :
    (l.perform d).exchange.table.resolved.find? ticket = some (.broken reason) := by
  have kept (h : (l.perform d).lifecycle = l.lifecycle) :
      (l.perform d).exchange.table.resolved.find? ticket = some (.broken reason) := by
    rw [h, hopen] at hover
    cases hover
  have hpasses := passes_perform l d
  generalize l.news d = said at hpasses
  cases hpasses with
  | nothing hlife _ => exact kept hlife
  | answer _ hlife _ => exact kept hlife
  | move hlife _ => exact kept hlife
  | @ended first _ hlife he =>
    rw [hlife] at hover
    obtain rfl : first = reason := Option.some.inj hover
    rw [he]
    show ((l.exchange.table.fail first).2.resolved).find? ticket = _
    rw [Table.resolved_fail, Handles.find?_foldl_insert,
      if_pos (List.mem_map.mpr ⟨(key, ticket), hwaits, rfl⟩)]

/-- **Who was told of the end waited when it came.** -/
theorem waited_of_told {ticket : ℕ}
    (hfresh : ∀ reason, l.exchange.table.resolved.find? ticket ≠ some (.broken reason))
    (htold : (l.after journal).exchange.table.resolved.find? ticket = some (.broken reason)) :
    ∃ p d key, p ++ [d] <+: journal ∧ (l.after p).lifecycle.reason = none ∧
      (l.after (p ++ [d])).lifecycle.reason = some reason ∧
        (l.after p).exchange.table.Waits key ticket := by
  induction journal using List.reverseRecOn with
  | nil => exact absurd htold (hfresh reason)
  | append_singleton journal d ih =>
    have earlier (h : (l.after journal).exchange.table.resolved.find? ticket =
        some (.broken reason)) : ∃ p e key, p ++ [e] <+: journal ++ [d] ∧
          (l.after p).lifecycle.reason = none ∧
            (l.after (p ++ [e])).lifecycle.reason = some reason ∧
              (l.after p).exchange.table.Waits key ticket := by
      obtain ⟨p, e, key, hprefix, hmoment⟩ := ih h
      exact ⟨p, e, key, hprefix.trans (List.prefix_append ..), hmoment⟩
    have hpasses := passes_perform (l.after journal) d
    rw [after_concat] at htold
    generalize hsaid : (l.after journal).news d = said at hpasses
    cases hpasses with
    | nothing _ he => exact earlier (he ▸ htold)
    | answer _ _ he =>
      rw [he] at htold
      exact earlier ((Exchange.later_deliver ..).told ticket reason htold)
    | move _ he =>
      rw [he] at htold
      exact earlier ((Exchange.later_act ..).told ticket reason htold)
    | @ended first hopen hlife he =>
      rw [he] at htold
      have hresolved : ((l.after journal).exchange.table.fail first).2.resolved.find? ticket =
          some (.broken reason) := htold
      rw [Table.resolved_fail, Handles.find?_foldl_insert] at hresolved
      split at hresolved
      · next hin =>
        obtain ⟨⟨key, i⟩, hwaits, rfl⟩ := List.mem_map.mp hin
        obtain rfl : first = reason := by simpa using hresolved
        refine ⟨journal, d, key, List.prefix_refl _, reason_of_not_isBroken hopen, ?_, hwaits⟩
        rw [after_concat, hlife]
      · exact earlier hresolved

/-! ## Nothing more comes of it -/

/-- **After the end** nothing reaches the wire, nothing is counted, and nobody is
told anything that was not told before. -/
structure Still (l l' : Link) : Prop where
  lifecycle : l'.lifecycle = l.lifecycle
  written : l'.wire.written = l.wire.written
  counters : l'.counters = l.counters
  resolved : ∀ ticket told, l'.exchange.table.resolved.find? ticket = some told →
    l.exchange.table.resolved.find? ticket = some told

namespace Still

theorem refl (l : Link) : l.Still l := ⟨rfl, rfl, rfl, fun _ _ => id⟩

theorem trans {l'' : Link} (h : l.Still l') (h' : l'.Still l'') : l.Still l'' where
  lifecycle := h'.lifecycle.trans h.lifecycle
  written := h'.written.trans h.written
  counters := h'.counters.trans h.counters
  resolved ticket told hu := h.resolved ticket told (h'.resolved ticket told hu)

end Still

omit [OwnTypes] in
theorem written_meet (w : Wire) (event : Wire.Event) : (w.meet event).written = w.written := by
  cases event <;> rfl

/-- No loop writes, reads or hands over an answer. -/
theorem quiet_perform (hover : l.isBroken = true) (d : Deed) :
    (l.perform d).wire.written = l.wire.written ∧ (l.perform d).counters = l.counters := by
  cases d with
  | write =>
    rcases perform_write l with hsame | hwrites
    · rw [hsame]
      exact ⟨rfl, rfl⟩
    · generalize l.perform .write = l' at hwrites ⊢
      cases hwrites with
      | stop hbroken => exact ⟨rfl, rfl⟩
      | flush hwriter => exact ⟨rfl, rfl⟩
      | fail hfault =>
        rw [breakOff_of_isBroken hover]
        exact ⟨rfl, rfl⟩
      | take hbroken | part hbroken | whole hbroken => simp [hover] at hbroken
  | read =>
    rcases perform_read l with hsame | hreads
    · rw [hsame]
      exact ⟨rfl, rfl⟩
    · generalize l.perform .read = l' at hreads ⊢
      cases hreads with
      | stop hintake hstop => exact ⟨rfl, rfl⟩
      | fail hbroken | ended hbroken | bytes hbroken | stage hbroken => simp [hover] at hbroken
  | decode =>
    rcases perform_decode l with ⟨-, hsame⟩ | hdecodes
    · rw [hsame]
      exact ⟨rfl, rfl⟩
    · generalize l.perform .decode = l', l.answer? = answer at hdecodes ⊢
      cases hdecodes with
      | stop hdecoder hbroken =>
        rw [stopDecoder_eq]
        exact ⟨rfl, rfl⟩
      | fail _ hbroken | ended _ hbroken | more _ hbroken | frame _ hbroken | fault _ hbroken =>
        simp [hover] at hbroken
  | turn =>
    rw [perform, refresh_eq]
    exact ⟨rfl, rfl⟩
  | quit =>
    rw [perform, breakOff_of_isBroken hover]
    exact ⟨rfl, rfl⟩
  | abort =>
    rw [perform, if_pos hover, abort_eq]
    exact ⟨rfl, rfl⟩
  | meet event => exact ⟨written_meet .., rfl⟩
  | _ => exact ⟨rfl, rfl⟩

theorem still_perform (h : l.Agreed) (hover : l.isBroken = true) (d : Deed) :
    l.Still (l.perform d) := by
  obtain ⟨hwritten, hcounters⟩ := quiet_perform hover d
  refine ⟨lifecycle_perform hover d, hwritten, hcounters, fun ticket told hu => ?_⟩
  have hsome : l.exchange.table.broken.isSome = true := by
    rw [h.table]
    exact hover
  have hlater : ∀ {t : Table Key Message}, l.exchange.table.Later t →
      t.resolved.find? ticket = some told →
        l.exchange.table.resolved.find? ticket = some told :=
    fun hlater => (hlater.closed hsome (h.nobody hover)).2 ticket told
  have hpasses := passes_perform l d
  generalize l.perform d = l', l.news d = said at hpasses hu
  cases hpasses with
  | nothing _ hsame =>
    rw [hsame] at hu
    exact hu
  | answer hbroken _ _ => simp [hover] at hbroken
  | move _ hmove =>
    rw [hmove] at hu
    exact hlater (Exchange.later_act ..) hu
  | ended hbroken _ _ => simp [hover] at hbroken

/-- **Nothing more comes of a link that has ended**, whatever is done to it. -/
theorem still_after (h : l.Agreed) (hover : l.isBroken = true) (journal : List Deed) :
    l.Still (l.after journal) := by
  induction journal generalizing l with
  | nil => exact .refl l
  | cons d rest ih =>
    have hone := still_perform h hover d
    have hstill : (l.perform d).isBroken = true := isBroken_after hover [d]
    exact hone.trans (ih (h.perform d) hstill)

/-! ## Answers that are handed over -/

/-- The answers that the decoder hands over. -/
def delivers (l : Link) : Deed → List Decoded
  | .decode => l.answer?.toList
  | _ => []

theorem answer?_of_isBroken (h : l.isBroken = true) : l.answer? = none := by
  unfold answer?
  split
  · rfl
  · rw [if_pos h]

/-- **The decoder of a link that has ended hands nothing over.** -/
theorem account_delivers_of_isBroken (h : l.isBroken = true) (journal : List Deed) :
    l.account delivers journal = [] := by
  induction journal generalizing l with
  | nil => rfl
  | cons d rest ih =>
    have hstill : (l.perform d).isBroken = true := isBroken_after h [d]
    have hnone : l.delivers d = [] := by
      cases d with
      | decode => simp [delivers, answer?_of_isBroken h]
      | _ => rfl
    rw [account, hnone, ih hstill]
    rfl

/-- What the decoder hands over is what the table is brought. -/
theorem account_news (l : Link) (journal : List Deed) :
    (l.account news journal).filterMap (·.answer?) =
      (l.account delivers journal).map fun d => (d.key, d.message) := by
  have hending : ∀ l l' : Link, (l.ending l').filterMap (·.answer?) = [] := by
    intro l l'
    unfold ending
    split <;> rfl
  induction journal generalizing l with
  | nil => rfl
  | cons d rest ih =>
    rw [account, account, List.filterMap_append, List.map_append, ih]
    congr 1
    cases d with
    | decode =>
      rw [news, delivers, List.filterMap_append, hending, List.append_nil]
      cases l.answer? <;> rfl
    | act now deadline move => rfl
    | _ => exact hending ..

end Link

end FramedDuplex
