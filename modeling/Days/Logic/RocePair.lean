/-
  Days.Logic.RocePair — the Go-back-N window of a queue pair.

  Each handler of `scalar.rs` that touches a queue pair is one move of the window
  of `Days.Lib.GoBackN`, or leaves it where it is; the receiver takes exactly the
  packet it expects.
-/
import Days.Logic.Pair
import Days.Lib.GoBackN

namespace Days

open HostEntry List

open GoBackN (Stream Window Ordered)

variable {g' g : FlowGeneratorState} {p : PacketDescriptor} {roce roce' : RoceGenerator}
  {position : Nat}

/-! ## §1. Sender and receiver of a queue pair. -/

def HostEntry.roceSender (e : HostEntry) (flow : FlowId) :
    Option (FlowGeneratorState × RoceGenerator) :=
  (e.sender flow).bind fun g =>
    match g.kind with
    | .roce roce => some (g, roce)
    | _ => none

def HostEntry.roceReceiver (e : HostEntry) (flow : FlowId) : Option RoceReceiverState :=
  e.state.roceReceivers.bind fun receivers =>
    (receivers.findIdx? (·.flow == flow)).bind fun position => receivers[position]?

/-- The host sends the stream of a flow, its window at `w`. -/
def HostEntry.Sends (e : HostEntry) (st : Stream) (flow : FlowId) (w : Window) : Prop :=
  ∃ g roce, e.roceSender flow = some (g, roce) ∧ roce.pacer.mtuBytes = st.mtu ∧
    roce.pacer.totalBytes = st.total ∧ w = ⟨roce.sndUna, roce.nextPsn, g.bytesEmitted⟩

/-- The host receives the stream of a flow and expects the byte at `expected`. -/
def HostEntry.Receives (e : HostEntry) (st : Stream) (flow : FlowId) (expected : Nat) : Prop :=
  ∃ r, e.roceReceiver flow = some r ∧ r.totalBytes = st.total ∧ r.expectedPsn = expected

variable {c : Ctx} {e e' : HostEntry} {st : Stream} {flow : FlowId} {w : Window}

theorem HostEntry.roceSender_eq_some :
    e.roceSender flow = some (g, roce) ↔ e.sender flow = some g ∧ g.kind = .roce roce := by
  unfold roceSender
  rw [Option.bind_eq_some_iff]
  constructor
  · rintro ⟨g', hg, h⟩
    split at h
    · next roce' hkind =>
      cases h
      exact ⟨hg, hkind⟩
    · cases h
  · rintro ⟨hg, hkind⟩
    exact ⟨g, hg, by rw [hkind]⟩

/-- A host that looks the same to the flow sends as before. -/
theorem HostEntry.Sends.congr (h : e.Sends st flow w) (hsender : e'.sender flow = e.sender flow) :
    e'.Sends st flow w := by
  obtain ⟨g, roce, hs, hrest⟩ := h
  refine ⟨g, roce, ?_, hrest⟩
  rw [roceSender_eq_some] at hs ⊢
  rw [hsender]
  exact hs

/-- The generator of the flow, written back as a queue pair. -/
theorem HostEntry.Sends.written (hposition : e.index.firstGenerator flow = some position)
    (hg : e.state.generators[position]? = some g) (hkind : g'.kind = .roce roce')
    (hmtu : roce'.pacer.mtuBytes = st.mtu) (htotal : roce'.pacer.totalBytes = st.total)
    (hw : w = ⟨roce'.sndUna, roce'.nextPsn, g'.bytesEmitted⟩) :
    (e.setGenerator position g').Sends st flow w := by
  refine ⟨g', roce', ?_, hmtu, htotal, hw⟩
  rw [roceSender_eq_some]
  exact ⟨sender_setGenerator hposition hg, hkind⟩

/-- The queue pair a lookup finds is the one that sends the stream. -/
theorem HostEntry.Sends.found (h : e.Sends st flow w)
    (hposition : e.index.firstGenerator flow = some position)
    (hg : e.state.generators[position]? = some g) (hkind : g.kind = .roce roce) :
    roce.pacer.mtuBytes = st.mtu ∧ roce.pacer.totalBytes = st.total ∧
      w = ⟨roce.sndUna, roce.nextPsn, g.bytesEmitted⟩ := by
  obtain ⟨g', roce', hs, hrest⟩ := h
  obtain ⟨hs, hkind'⟩ := roceSender_eq_some.1 hs
  have hsame : e.sender flow = some g := sender_eq_some.2 ⟨position, hposition, hg⟩
  rw [hsame] at hs
  cases hs
  rw [hkind] at hkind'
  cases hkind'
  exact hrest

theorem config_stream (h : roce'.config = roce.config) :
    roce'.pacer.mtuBytes = roce.pacer.mtuBytes ∧
      roce'.pacer.totalBytes = roce.pacer.totalBytes := by
  simp only [RoceGenerator.config, GeneratorConfig.roce.injEq] at h
  exact ⟨h.1, h.2.1⟩

/-! ## §2. Ticks. -/

/-- A tick sends the packet at `next`, or leaves the window where it is. -/
theorem roceTick_turn {tick : RoceTick} (h : roceTick c flow e = .ok tick)
    (hs : e.Sends st flow w) :
    tick.emission = none ∧ tick.entry.Sends st flow w ∨
      ∃ em, tick.emission = some em ∧ em.psn = w.next ∧ em.bytes = st.size w.next ∧
        w.next < st.total ∧ tick.entry.Sends st flow (w.send st) := by
  obtain ⟨position, hposition, h⟩ := bind_ok h
  obtain ⟨g, hg, h⟩ := bind_ok h
  rw [okOr_eq_ok] at hposition hg
  split at h
  · next roce hkind =>
    obtain ⟨hmtu, htotal, rfl⟩ := hs.found hposition hg hkind
    obtain ⟨_, -, h⟩ := bind_ok h
    dsimp only at h
    obtain ⟨paused, -, h⟩ := bind_ok h
    split at h
    · -- Parked by a pause.
      cases pure_eq_ok.1 h
      exact .inl ⟨rfl, .written hposition hg rfl hmtu htotal rfl⟩
    · split at h
      · -- Parked by the window.
        obtain ⟨priority, -, ⟨⟩⟩ := bind_pure_ok h
        exact .inl ⟨rfl, .written hposition hg rfl hmtu htotal rfl⟩
      · obtain ⟨sent, hsent, h⟩ := bind_ok h
        obtain ⟨⟨parked, g', roce'⟩, hnext, h⟩ := bind_ok h
        obtain ⟨priority, -, ⟨⟩⟩ := bind_pure_ok h
        obtain ⟨hspec, hbytes⟩ := roceSending_sent hsent
        obtain ⟨-, hhigh, hconfig, hpsn, huna⟩ := roceNextTick_spec hnext
        obtain ⟨hmtu', htotal'⟩ := config_stream (hconfig.trans hspec.config)
        obtain ⟨n, sourced, -, hentry⟩ := hspec.entry
        have hposition' : sent.entry.index.firstGenerator flow = some position := by
          rw [hentry]
          exact hposition
        have hg' : sent.entry.state.generators[position]? = some g := by
          rw [hentry]
          exact hg
        have hwindow : (⟨roce'.sndUna, roce'.nextPsn, g'.bytesEmitted⟩ : Window) =
            ⟨roce.sndUna, sent.roce.nextPsn, sent.generator.bytesEmitted⟩ := by
          rw [hpsn, huna, hspec.una, hhigh]
        obtain ⟨hem, hbytes⟩ | ⟨em, hem, hbytes⟩ := hbytes
        · left
          refine ⟨hem, .written hposition' hg' rfl (hmtu'.trans hmtu) (htotal'.trans htotal) ?_⟩
          show _ = (⟨roce'.sndUna, roce'.nextPsn, g'.bytesEmitted⟩ : Window)
          rw [hwindow, hspec.kept hem, hbytes]
        · obtain ⟨hfrom, hsize, hnext', hmore, -⟩ := hspec.sent em hem
          have hsize' : em.bytes = st.size roce.nextPsn := by
            rw [hsize, Stream.size, Roce.packetSize, ← hmtu, ← htotal]
          right
          refine ⟨em, hem, hfrom, hsize', htotal ▸ hmore,
            .written hposition' hg' rfl (hmtu'.trans hmtu) (htotal'.trans htotal) ?_⟩
          show _ = (⟨roce'.sndUna, roce'.nextPsn, g'.bytesEmitted⟩ : Window)
          rw [hwindow, hnext', hbytes, hsize']
          rfl
  · cases h

/-! ## §3. Feedback, timeouts and what does not move the window. -/

/-- Feedback is stale, a cumulative acknowledgment, or a request to go back. -/
theorem roceAcknowledge_turn {acknowledgment : Nat} {nack : Bool} {window : RoceWindow}
    (h : roceAcknowledge c flow acknowledgment nack g roce = .ok window)
    (hw : w = ⟨roce.sndUna, roce.nextPsn, g.bytesEmitted⟩) :
    window.roce.config = roce.config ∧
      ∃ w', w' = ⟨window.roce.sndUna, window.roce.nextPsn, window.generator.bytesEmitted⟩ ∧
        (w' = w ∨ w' = w.acknowledge acknowledgment ∨ w' = w.goBack acknowledgment) := by
  obtain ⟨-, hbytes, hconfig, ⟨huna, hpsn⟩ | ⟨huna, hpsn⟩⟩ := roceAcknowledge_spec h
  · rw [hbytes, huna, hpsn]
    exact ⟨hconfig, w, hw, .inl rfl⟩
  · refine ⟨hconfig, _, rfl, .inr ?_⟩
    rw [hbytes, huna, hpsn, hw]
    cases nack
    · exact .inl rfl
    · exact .inr rfl

theorem roceFeedback_turn {header : RoceAckHeader} {nack : Bool} {dataClass : Nat}
    {reaction : RoceReaction} (h : roceFeedback c p header nack dataClass e = .ok reaction)
    (hs : e.Sends st p.flow w) :
    ∃ w', reaction.entry.Sends st p.flow w' ∧
      (w' = w ∨ w' = w.acknowledge header.acknowledgment ∨ w' = w.goBack header.acknowledgment) := by
  obtain ⟨position, g, hposition, hg, h⟩ := generatorFor_bind h
  dsimp only at h
  split at h
  · next roce hkind =>
    obtain ⟨hmtu, htotal, rfl⟩ := hs.found hposition hg hkind
    obtain ⟨arrivals, h⟩ := applyGeneratorFeedback_bind h
    obtain ⟨_, -, h⟩ := bind_ok h
    obtain ⟨window, hwindow, ⟨⟩⟩ := bind_pure_ok h
    obtain ⟨hconfig, w', hw', hturn⟩ := roceAcknowledge_turn hwindow rfl
    obtain ⟨hmtu', htotal'⟩ := config_stream hconfig
    refine ⟨w', ?_, hturn⟩
    refine Sends.congr (e := e.setGenerator position _) ?_
      (sender_congr rfl rfl)
    exact .written hposition hg rfl (hmtu'.trans hmtu) (htotal'.trans htotal) hw'
  · cases h

/-- A timeout goes back to the oldest unacknowledged packet. -/
theorem roceTimeout_turn {dataClass : Nat} {reaction : RoceReaction}
    (h : roceTimeout c flow dataClass e = .ok (some reaction)) (hs : e.Sends st flow w) :
    reaction.entry.Sends st flow (w.goBack w.una) := by
  obtain ⟨position, g, hposition, hg, h⟩ := generatorFor_bind h
  dsimp only at h
  split at h
  · next roce hkind =>
    obtain ⟨hmtu, htotal, rfl⟩ := hs.found hposition hg hkind
    split at h
    · obtain ⟨deadline, -, h⟩ := bind_ok h
      obtain ⟨⟨tick, g', roce'⟩, hrestart, ⟨⟩⟩ := bind_pure_ok h
      obtain ⟨-, hbytes, hconfig, hpsn, huna⟩ := restartRocePacer_spec hrestart
      obtain ⟨hmtu', htotal'⟩ := config_stream hconfig
      refine Sends.congr (e := e.setGenerator position _) ?_
        (sender_congr rfl rfl)
      refine .written hposition hg rfl (hmtu'.trans hmtu) (htotal'.trans htotal) ?_
      show _ = (⟨roce'.sndUna, roce'.nextPsn, g'.bytesEmitted⟩ : Window)
      rw [hpsn, huna, hbytes, Window.goBack, Nat.max_self]
    · cases pure_eq_ok.1 h
  · cases h

/-- A CNP moves the rate, not the window. -/
theorem cnpReaction_turn {row : Option MechanismTransitionRecord}
    (h : cnpReaction c p e = .ok (row, e')) (hs : e.Sends st p.flow w) : e'.Sends st p.flow w := by
  obtain ⟨position, g, hposition, hg, h⟩ := generatorFor_bind h
  obtain ⟨arrivals, h⟩ := applyGeneratorFeedback_bind h
  have hkind : ∃ roce, g.kind = .roce roce := by
    obtain ⟨g', roce, hsender, -⟩ := hs
    obtain ⟨hsender, hkind⟩ := roceSender_eq_some.1 hsender
    rw [sender_eq_some.2 ⟨position, hposition, hg⟩] at hsender
    cases hsender
    exact ⟨roce, hkind⟩
  obtain ⟨roce, hkind⟩ := hkind
  obtain ⟨hmtu, htotal, rfl⟩ := hs.found hposition hg hkind
  rw [hkind] at h
  dsimp only at h
  split at h
  · cases pure_eq_ok.1 h
    exact .written hposition hg rfl hmtu htotal rfl
  · cases pure_eq_ok.1 h
    exact .written hposition hg rfl hmtu htotal rfl

/-- A restarted pacer keeps the window; the other queue pairs are not touched. -/
theorem restartParked_turn {acc acc' : RoceRestarts} (h : restartParked c position acc = .ok acc')
    (hs : acc.entry.Sends st flow w) : acc'.entry.Sends st flow w := by
  obtain ⟨g, hg, h⟩ := bind_ok h
  rw [okOr_eq_ok] at hg
  split at h
  · next roce hkind =>
    obtain ⟨⟨tick, g', roce'⟩, hrestart, h⟩ := bind_ok h
    obtain ⟨priority, -, ⟨⟩⟩ := bind_pure_ok h
    obtain ⟨own, hown⟩ : ∃ own, acc.entry.index.firstGenerator flow = some own := by
      obtain ⟨g, roce, hsender, -⟩ := hs
      obtain ⟨own, hown, -⟩ :=
        sender_eq_some.1 (roceSender_eq_some.1 hsender).1
      exact ⟨own, hown⟩
    by_cases heq : position = own
    · subst heq
      obtain ⟨hmtu, htotal, rfl⟩ := hs.found hown hg hkind
      obtain ⟨-, hbytes, hconfig, hpsn, huna⟩ := restartRocePacer_spec hrestart
      obtain ⟨hmtu', htotal'⟩ := config_stream hconfig
      refine .written hown hg rfl (hmtu'.trans hmtu) (htotal'.trans htotal) ?_
      show _ = (⟨roce'.sndUna, roce'.nextPsn, g'.bytesEmitted⟩ : Window)
      rw [hpsn, huna, hbytes]
    · exact hs.congr (sender_setGenerator_ne heq hown)
  · cases h

theorem restartAll_turn {positions : List Nat} {acc acc' : RoceRestarts}
    (h : restartAll c positions acc = .ok acc') (hs : acc.entry.Sends st flow w) :
    acc'.entry.Sends st flow w := by
  induction positions generalizing acc with
  | nil =>
    cases h
    exact hs
  | cons position rest ih =>
    obtain ⟨acc₁, hstep, h⟩ := bind_ok h
    exact ih h (restartParked_turn hstep hs)

theorem restartPaused_turn {priority : Nat} {restarts : RoceRestarts}
    (h : restartPaused c priority e = .ok restarts) (hs : e.Sends st flow w) :
    restarts.entry.Sends st flow w := by
  obtain ⟨pfc, -, h⟩ := bind_ok h
  refine restartAll_turn h ?_
  exact hs.congr (sender_congr rfl rfl)

/-- The queue pair a stage release arms, as `start_roce_stage` writes it. -/
def releasedSender (c : Ctx) (g : FlowGeneratorState) (roce : RoceGenerator) :
    FlowGeneratorState :=
  let roce :=
    { roce with pacer := { roce.pacer with firstPacingTimeNs := c.now }, pacerArmed := true }
  { g with
    nextEmission := ⟨Roce.armedStatus roce, c.now, roce.pacingTimerPayload⟩
    kind := .roce roce }

theorem releasedSender_turn {node : NodeId} (hfor : e.generatorFor node flow = .ok (position, g))
    (hkind : g.kind = .roce roce) (hs : e.Sends st flow w) :
    (e.setGenerator position (releasedSender c g roce)).Sends st flow w := by
  obtain ⟨hposition, hg⟩ := generatorFor_eq hfor
  obtain ⟨hmtu, htotal, rfl⟩ := hs.found hposition hg hkind
  exact .written hposition hg rfl hmtu htotal rfl

/-! ## §4. The receiver. -/

/-- The receiver takes the packet it expects and nothing else; only a packet beyond
the expected one is refused. -/
theorem receive_turn (r : RoceReceiverState) (psn sizeBytes nowNs : Nat) :
    (Roce.receive r psn sizeBytes nowNs).2.flow = r.flow ∧
      (Roce.receive r psn sizeBytes nowNs).2.totalBytes = r.totalBytes ∧
      (Roce.receive r psn sizeBytes nowNs).2.expectedPsn =
        (if psn = r.expectedPsn then r.expectedPsn + sizeBytes else r.expectedPsn) ∧
      ((Roce.receive r psn sizeBytes nowNs).1 = .nack → r.expectedPsn < psn) := by
  unfold Roce.receive
  dsimp only
  -- Clearing the count of unacknowledged packets changes none of this.
  split
  all_goals
    dsimp only
    unfold Roce.receiveAction
    dsimp only
    by_cases heq : psn = r.expectedPsn
    · rw [if_pos heq, if_pos heq]
      split <;> exact ⟨rfl, rfl, rfl, by simp⟩
    · rw [if_neg heq, if_neg heq]
      split
      · split <;> exact ⟨rfl, rfl, rfl, by simp⟩
      · have hlt : r.expectedPsn < psn := by omega
        split <;> exact ⟨rfl, rfl, rfl, fun _ => hlt⟩

/-- A receiver written back under its flow is the one a lookup finds. -/
theorem findIdx?_set {receivers : List RoceReceiverState} {r r' : RoceReceiverState}
    (hfound : receivers.findIdx? (·.flow == flow) = some position)
    (hr : receivers[position]? = some r) (hflow : r'.flow = r.flow) :
    ((receivers.set position r').findIdx? (·.flow == flow)).bind
      (fun n => (receivers.set position r')[n]?) = some r' := by
  obtain ⟨hlt, hp, hbefore⟩ := findIdx?_eq_some_iff_getElem.1 hfound
  have hr' : receivers[position] = r := (List.getElem?_eq_some_iff.1 hr).2
  have hfound' : (receivers.set position r').findIdx? (·.flow == flow) = some position := by
    rw [findIdx?_eq_some_iff_getElem]
    refine ⟨by rw [length_set]; exact hlt, ?_, ?_⟩
    · rw [getElem_set_self, hflow, ← hr']
      exact hp
    · intro j hj
      rw [getElem_set_ne (by omega)]
      exact hbefore j hj
  rw [hfound']
  show (receivers.set position r')[position]? = some r'
  rw [getElem?_set_self hlt]

/-- What an arriving data packet does to the receiver, and what it sends back. -/
theorem roceDelivery_turn {header : RoceDataHeader} {delivery : RoceDelivery} {expected : Nat}
    (h : roceDelivery c p header e = .ok delivery) (hr : e.Receives st p.flow expected) :
    ∃ expected', delivery.entry.Receives st p.flow expected' ∧
      expected' = (if header.psn = expected then expected + p.sizeBytes else expected) ∧
      ∀ reply, delivery.reply = some reply → reply.flow = p.flow ∧
        ∃ ack, ack.acknowledgment = expected' ∧
          (reply.kind = .roceAck ack ∨ reply.kind = .roceNack ack ∧ expected < header.psn) := by
  obtain ⟨r, hfound, htotal, rfl⟩ := hr
  obtain ⟨receivers, hreceivers, h⟩ := bind_ok h
  obtain ⟨position, hposition, h⟩ := bind_ok h
  obtain ⟨r', hr', h⟩ := bind_ok h
  rw [okOr_eq_ok] at hreceivers hposition hr'
  have hsame : r' = r := by
    unfold roceReceiver at hfound
    rw [hreceivers, Option.bind_some, hposition, Option.bind_some, hr'] at hfound
    exact Option.some.inj hfound
  subst hsame
  obtain ⟨_, -, h⟩ := bind_ok h
  dsimp only at h
  obtain ⟨⟨e₁, causes⟩, hprogress, h⟩ := bind_ok h
  obtain ⟨count, -, h⟩ := bind_ok h
  obtain ⟨⟨reply, ready, e₂⟩, hanswer, ⟨⟩⟩ := bind_pure_ok h
  obtain ⟨stages, views, rfl⟩ := recordInboundProgress_stages hprogress
  obtain ⟨hflow, htotal', hexpected, hnack⟩ := receive_turn r' header.psn p.sizeBytes c.now
  have hlookup := findIdx?_set hposition hr' hflow
  -- The answer only takes a payload id and claims the egress.
  unfold roceAnswer at hanswer
  split at hanswer
  · obtain ⟨⟨payload, e₃⟩, halloc, hanswer⟩ := bind_ok hanswer
    obtain ⟨e₄, hcount, hanswer⟩ := bind_ok hanswer
    obtain ⟨-, rfl⟩ := allocatePayload_eq_ok halloc
    obtain ⟨sourced, rfl⟩ := countSourcedPackets_eq_ok hcount
    cases pure_eq_ok.1 hanswer
    refine ⟨_, ⟨_, hlookup, htotal'.trans htotal, rfl⟩, hexpected, ?_⟩
    rintro reply ⟨⟩
    refine ⟨rfl, ⟨(Roce.receive r' header.psn p.sizeBytes c.now).2.expectedPsn, header.sentTimeNs,
      p.sizeBytes, p.congestionExperienced⟩, rfl, ?_⟩
    by_cases hact : (Roce.receive r' header.psn p.sizeBytes c.now).1 = .nack
    · right
      refine ⟨?_, hnack hact⟩
      show (if _ then _ else _) = _
      rw [if_pos hact]
    · left
      show (if _ then _ else _) = _
      rw [if_neg hact]
  · cases hanswer
    exact ⟨_, ⟨_, hlookup, htotal'.trans htotal, rfl⟩, hexpected, by simp⟩

end Days
