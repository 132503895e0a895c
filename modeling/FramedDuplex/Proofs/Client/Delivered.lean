import FramedDuplex.Proofs.Client.Journal
import FramedDuplex.Proofs.Link.Idle
/-!
# What a stream delivers

The peer sends bytes, in pieces of any size and with whatever the callers do in
between, and then closes the stream (`Client.PeerSends`). If nothing goes wrong on
the way, the frames that the stream yields are delivered to the table, all of them
and in order, and the connection ends for the fault of the stream
(`Client.Delivered`).

What is delivered is said of the bytes alone (`Client.ComesTo`). So it is the same
by a reader and a pipe as without them, whatever the sizes of the read buffer and
the pipe (`Client.comesTo_of_prepareDecoder`).
-/

namespace FramedDuplex

variable [OwnTypes]

namespace Client

variable {c : Client} {event : Event} {events : List Event} {fed stream : Bytes}
variable {done frames : List Decoded} {fault : CodecError}

/-! ## Quiet events -/

/-- An event by which nothing goes wrong and nothing comes in, and which does not
end the client. -/
def Event.quiet : Event → Bool
  | .close | .dispose => false
  | .wire (.window _) | .wire (.stall _) => true
  | .wire _ => false
  | _ => true

theorem quiet_of_calm {journal : List Link.Deed} (h : ∀ d ∈ journal, d.Calm) :
    ∀ d ∈ journal, d.quiet = true :=
  fun d hd => (h d hd).quiet

theorem quiet_submitDeeds (c : Client) (handle : ℕ) (m : Message) (fired : Option Bool)
    (request : Option Key) : ∀ d ∈ c.submitDeeds handle m fired request, d.quiet = true := by
  unfold submitDeeds
  split
  · simp
  · split
    · simp
    · refine List.forall_mem_cons.mpr ⟨rfl, ?_⟩
      split
      · simp
      · exact List.forall_mem_cons.mpr ⟨rfl, quiet_of_calm (calm_enteredDeeds _ _ _ _ _)⟩

theorem quiet_pollDeeds (c : Client) (handle : ℕ) :
    ∀ d ∈ c.pollDeeds handle, d.quiet = true := by
  unfold pollDeeds
  split
  · exact List.forall_mem_singleton.mpr rfl
  · exact List.forall_mem_singleton.mpr rfl
  · split
    · exact quiet_of_calm (calm_withdrawDeeds c handle)
    · exact List.forall_mem_cons.mpr ⟨rfl, quiet_of_calm (calm_enteredDeeds _ _ _ _ _)⟩

theorem quiet_sendEachDeeds (c : Client) (ms : List Message) :
    ∀ d ∈ c.sendEachDeeds ms, d.quiet = true := by
  induction ms generalizing c with
  | nil => simp [sendEachDeeds]
  | cons m rest ih =>
    refine List.forall_mem_append.mpr ⟨?_, ih _⟩
    refine List.forall_mem_append.mpr ⟨quiet_submitDeeds _ _ _ _ _, ?_⟩
    split
    · refine List.forall_mem_append.mpr ⟨List.forall_mem_append.mpr
        ⟨quiet_of_calm (Link.calm_settleDeeds _), quiet_pollDeeds _ _⟩, ?_⟩
      split
      · exact quiet_of_calm (calm_withdrawDeeds _ _)
      · simp
    · simp

/-- **A quiet event is made of quiet deeds.** -/
theorem quiet_stepDeeds (hquiet : event.quiet = true) :
    ∀ d ∈ c.stepDeeds event, d.quiet = true := by
  refine List.forall_mem_append.mpr ⟨?_, quiet_of_calm (Link.calm_settleDeeds _)⟩
  cases event with
  | move move =>
    by_cases hpoll : ∃ handle, move = .poll handle
    · obtain ⟨handle, rfl⟩ := hpoll
      exact quiet_pollDeeds c handle
    · exact quiet_of_calm (calm_moveDeeds c fun handle h => hpoll ⟨handle, h⟩)
  | send handle m fired =>
    exact List.forall_mem_append.mpr
      ⟨quiet_of_calm (calm_vacateDeeds c handle), quiet_submitDeeds _ _ _ _ _⟩
  | request handle m =>
    refine List.forall_mem_append.mpr ⟨quiet_of_calm (calm_vacateDeeds c handle), ?_⟩
    split
    · simp
    · exact quiet_submitDeeds _ _ _ _ _
  | sendEach ms => exact quiet_sendEachDeeds c ms
  | close => cases hquiet
  | dispose => cases hquiet
  | wire event =>
    cases event with
    | window count => exact List.forall_mem_singleton.mpr rfl
    | stall on => exact List.forall_mem_singleton.mpr rfl
    | _ => cases hquiet
  | report => simp [reactDeeds]
  | pass ms => simp [reactDeeds]

theorem quiet_journal (hquiet : ∀ event ∈ events, event.quiet = true) :
    ∀ d ∈ c.journal events, d.quiet = true := by
  induction events generalizing c with
  | nil => simp [journal]
  | cons event rest ih =>
    obtain ⟨hevent, hrest⟩ := List.forall_mem_cons.mp hquiet
    exact List.forall_mem_append.mpr ⟨quiet_stepDeeds hevent, ih hrest⟩

/-! ## The peer sends a stream -/

/-- In the course of the events the peer sends a stream and closes it, and nothing
goes wrong: the network does not fail, and the client is not closed. -/
inductive PeerSends : List Event → Bytes → Prop where
  | feed {bs stream : Bytes} {events : List Event} : PeerSends events stream →
      PeerSends (.wire (.feed bs) :: events) (bs ++ stream)
  | quiet {event : Event} {stream : Bytes} {events : List Event} : event.quiet = true →
      PeerSends events stream → PeerSends (event :: events) stream
  | close {events : List Event} : (∀ event ∈ events, event.quiet = true) →
      PeerSends (.wire .close :: events) []

/-- **Until the peer closes the stream** the deeds of a run are those by which it
sends it. Then the loops go on until all wait, and what comes later is quiet. -/
theorem PeerSends.splits (hsends : PeerSends events stream) (c : Client) :
    ∃ before more, c.journal events = before ++ (c.link.after before).settleDeeds ++ more ∧
      Link.PeerSends before stream ∧ ∀ d ∈ more, d.quiet = true := by
  induction hsends generalizing c with
  | @feed bs stream events _ ih =>
    obtain ⟨before, more, hjournal, hbefore, hmore⟩ := ih (c.step (.wire (.feed bs))).2
    refine ⟨c.stepDeeds (.wire (.feed bs)) ++ before, more, ?_,
      .feed (hbefore.prepend (quiet_of_calm (Link.calm_settleDeeds _))), hmore⟩
    rw [journal, hjournal, link_step, Link.after_append]
    simp only [List.append_assoc]
  | @quiet event stream events hquiet _ ih =>
    obtain ⟨before, more, hjournal, hbefore, hmore⟩ := ih (c.step event).2
    refine ⟨c.stepDeeds event ++ before, more, ?_, hbefore.prepend (quiet_stepDeeds hquiet), hmore⟩
    rw [journal, hjournal, link_step, Link.after_append]
    simp only [List.append_assoc]
  | @close events hquiet =>
    exact ⟨[.meet .close], _, rfl, .close (by simp), quiet_journal hquiet⟩

/-- **The stream ends the connection**, when all that it yields has been handed
over. -/
theorem PeerSends.ends (hsends : PeerSends events stream) (h : c.link.Streams fed done)
    (hopen : c.link.wire.ended = false) :
    ∃ fault, (c.link.after (c.journal events)).Ends (fed ++ stream)
      (done ++ c.link.account Link.delivers (c.journal events)) fault := by
  obtain ⟨before, more, hjournal, hbefore, hmore⟩ := hsends.splits c
  obtain ⟨hstreams, -⟩ := hbefore.streams h hopen
  have hsettled := hbefore.append (quiet_of_calm (Link.calm_settleDeeds (c.link.after before)))
  have hidle : (c.link.after (before ++ (c.link.after before).settleDeeds)).isIdle = true := by
    rw [Link.after_append, ← Link.settle_eq_after]
    exact Link.isIdle_settle hstreams
  obtain ⟨fault, hends⟩ := hsettled.ends h hopen hidle
  refine ⟨fault, ?_⟩
  -- once the connection has ended, nothing more is handed over
  rw [hjournal, Link.after_append, Link.account_append,
    Link.account_delivers_of_isBroken (Link.isBroken_of_reason hends.reason), List.append_nil]
  exact hends.after hmore

/-! ## What a stream comes to -/

/-- **A stream was delivered** by what a run did to the link. -/
structure Delivered (c : Client) (events : List Event) (frames : List Decoded)
    (fault : CodecError) : Prop extends c.link.Delivered (c.journal events) frames fault where
  run : (c.run events).2.link = c.link.after (c.journal events)

/-- **What a stream comes to**, for whoever reads it. -/
structure ComesTo (codec : Codec) (answers : Layout) (schema : Schema) (stream : Bytes)
    (frames : List Decoded) (fault : CodecError) : Prop where
  /-- Reading one frame after another gives the frames and then the fault, in
  whatever pieces the stream comes. -/
  read : ∀ ds, Delivery.Flows ds → Delivery.unread ds = stream →
    (codec.readFrames schema (frames.length + 1) ds).1 = frames.map .ok ++ [.error fault]
  /-- The reason is that the peer has closed the stream exactly if this is a whole
  number of frames that can be read. -/
  whole : Link.breakReason fault = .closedByPeer ↔
    ∃ pieces : List Bytes, stream = pieces.flatten ∧ List.Forall₂
      (fun f d => codec.IsFrame schema f ∧ codec.decodeFrame schema f = .ok d) pieces frames
  /-- Otherwise it is what is wrong with the stream, or that the decoder crashed. -/
  broken : Link.breakReason fault ≠ .closedByPeer → Link.breakReason fault =
    .decode (if fault = .crashed then "decoder loop panicked" else fault.message)
  /-- **Every link delivers it**, by either way from the wire to the decoder and
  whatever the sizes of the buffers on it are, in whatever order bytes come in and
  the loops go on, once all of these wait. -/
  links : ∀ (config : LinkConfig) (journal : List Link.Deed),
    0 < config.readBuffer.toNat → 0 < config.stagingCapacity.toNat →
    Link.PeerSends journal stream → ((Link.new config codec schema).after journal).isIdle = true →
      (Link.new config codec schema).Delivered journal frames fault
  /-- **So does every client**, in whatever pieces the stream comes and whatever
  its callers do meanwhile. -/
  clients : ∀ (config : LinkConfig) (requests : Layout) (c : Client) (events : List Event),
    config.maxBody.toNat = codec.maxBody → 0 < config.readBuffer.toNat →
    0 < config.stagingCapacity.toNat → make config codec.registry requests answers = .ok c →
      PeerSends events stream → c.Delivered events frames fault

/-- A client is made on the link of its answers. -/
theorem link_of_make {config : LinkConfig} {codec : Codec} {requests answers : Layout}
    {schema : Schema} (prepared : codec.prepareDecoder answers = .ok schema)
    (hbody : config.maxBody.toNat = codec.maxBody)
    (made : make config codec.registry requests answers = .ok c) :
    c.link = .new config codec schema := by
  obtain ⟨s, t, -, hprepared, rfl⟩ := make_eq_ok made
  have hcodec : (⟨codec.registry, config.maxBody.toNat⟩ : Codec) = codec := by rw [hbody]
  rw [hcodec, prepared] at hprepared
  obtain rfl := Except.ok.inj hprepared
  rw [hcodec]

/-- **Every stream comes to the same** for all links and clients whose decoder was
prepared alike. -/
theorem comesTo_of_prepareDecoder {codec : Codec} {answers : Layout} {schema : Schema}
    (prepared : codec.prepareDecoder answers = .ok schema) (stream : Bytes) :
    ∃ frames fault, ComesTo codec answers schema stream frames fault := by
  have hfixed : 0 < schema.fixedSize :=
    Schema.fixedSize_pos_of_ofLayout (Codec.prepareDecoder_ok prepared).1
  obtain ⟨frames, fault, hyields⟩ := Codec.exists_yields (c := codec) hfixed stream
  refine ⟨frames, fault, ?_⟩
  exact {
    read := fun ds hflows hstream => hyields.readFrames hfixed hflows hstream
    whole := by
      rw [Link.breakReason_eq_closedByPeer_iff]
      constructor
      · rintro rfl
        exact (Codec.yields_closed_iff hfixed).mp hyields
      · intro hwhole
        exact (hyields.unique ((Codec.yields_closed_iff hfixed).mpr hwhole)).2
    broken := fun hopen => Link.breakReason_eq_decode
      (hopen ∘ Link.breakReason_eq_closedByPeer_iff.mpr) (hyields.ne_io hfixed)
    links := fun config journal hbuffer hcapacity hsends hidle => by
      obtain ⟨other, hends⟩ := hsends.ends (Link.streams_new hfixed hbuffer hcapacity) rfl hidle
      exact hends.delivered hyields
    clients := fun config requests c events hbody hbuffer hcapacity made hsends => by
      have hlink := link_of_make prepared hbody made
      have hfresh : c.link.Streams [] [] := by
        rw [hlink]
        exact Link.streams_new hfixed hbuffer hcapacity
      obtain ⟨other, hends⟩ := hsends.ends hfresh (by rw [hlink]; rfl)
      have hyields : c.link.codec.Yields c.link.schema stream frames fault := by
        rw [hlink]
        exact hyields
      exact ⟨hends.delivered hyields, link_run c events⟩ }

end Client

end FramedDuplex

namespace FramedDuplex.Client

/-- A parcel and three bytes of another, in two pieces. -/
def parcelPieces : List Event :=
  [.wire (.feed [8]), .wire (.feed [2, 67, 1, 9, 2, 0]), .wire .close]

/-- The same bytes in other pieces, between which a caller asks for the parcel. -/
def parcelCalls : List Event :=
  [.wire (.feed [8, 2, 67, 1, 9]),
    .move (.receive 0 (.of ⟨.scalar (.int ⟨.w8, false⟩), 8#8⟩) none),
    .wire (.feed [2, 0]), .wire .close]

/-- The parcel is delivered, and the bytes behind it are a stream cut short, both
through a pipe and a reader's buffer that are as small as can be and without
them. -/
theorem comesTo_parcels : ∃ frames fault one other,
    ComesTo .standard Codec.parcelLayout Codec.parcelSchema [8, 2, 67, 1, 9, 2, 0] frames fault ∧
      make (((LinkConfig.new LinkConfig.defaultAddr).withReadBuffer 0).withStagingCapacity 0)
        .standard Codec.parcelLayout Codec.parcelLayout = .ok one ∧
      make ((LinkConfig.new LinkConfig.defaultAddr).withPipeMode .direct)
        .standard Codec.parcelLayout Codec.parcelLayout = .ok other ∧
      one.Delivered parcelPieces frames fault ∧ other.Delivered parcelCalls frames fault ∧
      frames.map (·.key) = [.of ⟨.scalar (.int ⟨.w8, false⟩), 8#8⟩] ∧
      Link.breakReason fault = .decode (CodecError.truncated 4 3).message := by
  have pieces : PeerSends parcelPieces [8, 2, 67, 1, 9, 2, 0] :=
    .feed (.feed (.close (by simp)))
  have calls : PeerSends parcelCalls [8, 2, 67, 1, 9, 2, 0] :=
    .feed (.quiet rfl (.feed (.close (by simp))))
  have staged := make_parcels
    (((LinkConfig.new LinkConfig.defaultAddr).withReadBuffer 0).withStagingCapacity 0) rfl
  have direct := make_parcels
    ((LinkConfig.new LinkConfig.defaultAddr).withPipeMode .direct) rfl
  obtain ⟨frames, fault, h⟩ :=
    comesTo_of_prepareDecoder Codec.prepareDecoder_parcel [8, 2, 67, 1, 9, 2, 0]
  have one := h.clients _ _ _ _ rfl (by decide) (by decide) staged pieces
  have other := h.clients _ _ _ _ rfl (by decide) (by decide) direct calls
  have keys := congrArg (List.map Prod.fst) other.answers
  rw [List.map_map] at keys
  exact ⟨frames, fault, _, _, h, staged, direct, one, other,
    keys.symm.trans (by decide +kernel),
    Option.some.inj (other.reason.symm.trans (by decide +kernel))⟩

end FramedDuplex.Client
