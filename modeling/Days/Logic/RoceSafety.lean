/-
  Days.Logic.RoceSafety — Go-back-N between the two ends of a queue pair.

  The sender's host and the receiver's host take the steps of `scalar.rs` on one
  flow: pacing ticks, arriving data, ACKs, NACKs and CNPs, timeouts, releases and
  RESUME frames.  Between them the network may do anything to the packets in
  flight, and the hosts may do anything that leaves the flow alone.  Two history
  variables record the bytes the receiver has taken and the arrivals that have
  completed the pair.
-/
import Days.Logic.RocePair

namespace Days

open List HostEntry Option

open GoBackN (Stream Window Ordered)

variable {high : Nat} {header : RoceAckHeader} {node : NodeId} {g : FlowGeneratorState}
  {roce : RoceGenerator} {p : PacketDescriptor} {nack : Bool} {c : Ctx} {e : HostEntry}
  {st : Stream} {flow : FlowId} {w : Window}

/-! ## §1. The pair and its steps. -/

structure RocePair where
  source : HostEntry
  target : HostEntry
  /-- The packets of the flow that are in flight. -/
  wire : List PacketDescriptor
  /-- History: the bytes of the packets that moved the receiver, in that order. -/
  accepted : List Nat
  /-- History: the arrivals that moved the sender to complete. -/
  completedBy : List PayloadId

def HostEntry.roceExpected (e : HostEntry) (flow : FlowId) : Option Nat :=
  (e.roceReceiver flow).map (·.expectedPsn)

def HostEntry.roceComplete (e : HostEntry) (flow : FlowId) : Bool :=
  (e.roceSender flow).any fun sender => decide (sender.2.sndUna ≥ sender.2.pacer.totalBytes)

/-- The acknowledgment a feedback packet carries, and whether it is a NACK. -/
def roceFeedbackOf (p : PacketDescriptor) : Option (RoceAckHeader × Bool) :=
  match p.kind with
  | .roceAck header => some (header, false)
  | .roceNack header => some (header, true)
  | _ => none

/-- A step of the pair: a handler of one host on this flow, the network, or work of
the hosts elsewhere. -/
inductive RoceStep (flow : FlowId) : RocePair → RocePair → Prop
  | tick {s : RocePair} (c : Ctx) {tick : RoceTick} :
    roceTick c flow s.source = .ok tick →
    RoceStep flow s { s with
      source := tick.entry
      wire := s.wire ++ (tick.emission.map fun emission => emission.data c flow).toList }
  | feedback {s : RocePair} (c : Ctx) {p : PacketDescriptor} {rest : List PacketDescriptor}
    {header : RoceAckHeader} {nack : Bool} {dataClass : Nat} {reaction : RoceReaction} :
    s.wire = p :: rest → roceFeedbackOf p = some (header, nack) →
    roceFeedback c p header nack dataClass s.source = .ok reaction →
    RoceStep flow s { s with
      source := reaction.entry
      wire := rest
      completedBy :=
        if !s.source.roceComplete flow && reaction.entry.roceComplete flow then
          s.completedBy ++ [p.id]
        else s.completedBy }
  | timeout {s : RocePair} (c : Ctx) {dataClass : Nat} {reaction : RoceReaction} :
    roceTimeout c flow dataClass s.source = .ok (some reaction) →
    RoceStep flow s { s with source := reaction.entry }
  | cnp {s : RocePair} (c : Ctx) {p : PacketDescriptor} {row : Option MechanismTransitionRecord}
    {entry : HostEntry} :
    p.flow = flow → cnpReaction c p s.source = .ok (row, entry) →
    RoceStep flow s { s with source := entry }
  | resume {s : RocePair} (c : Ctx) {priority : Nat} {restarts : RoceRestarts} :
    restartPaused c priority s.source = .ok restarts →
    RoceStep flow s { s with source := restarts.entry }
  | release {s : RocePair} (c : Ctx) {position : Nat} {g : FlowGeneratorState}
    {roce : RoceGenerator} :
    s.source.generatorFor c.node.id flow = .ok (position, g) → g.kind = .roce roce →
    RoceStep flow s { s with source := s.source.setGenerator position (releasedSender c g roce) }
  | data {s : RocePair} (c : Ctx) {p : PacketDescriptor} {rest : List PacketDescriptor}
    {header : RoceDataHeader} {delivery : RoceDelivery} :
    s.wire = p :: rest → p.kind = .roceData header →
    roceDelivery c p header s.target = .ok delivery →
    RoceStep flow s { s with
      target := delivery.entry
      wire := rest ++ delivery.reply.toList
      accepted :=
        if delivery.entry.roceExpected flow = s.target.roceExpected flow then s.accepted
        else s.accepted ++ List.range' header.psn p.sizeBytes }
  | network {s : RocePair} {wire : List PacketDescriptor} :
    Carries s.wire wire → RoceStep flow s { s with wire }
  | elsewhere {s : RocePair} {source target : HostEntry} :
    source.sender flow = s.source.sender flow →
    target.roceReceiver flow = s.target.roceReceiver flow →
    RoceStep flow s { s with source, target }

/-- A queue pair that has sent and received nothing. -/
structure RocePair.Fresh (st : Stream) (flow : FlowId) (s : RocePair) : Prop where
  sends : s.source.Sends st flow ⟨0, 0, 0⟩
  receives : s.target.Receives st flow 0
  total_pos : 0 < st.total
  total_lt : st.total < width 64
  mtu_lt : st.mtu < width 32
  wire : s.wire = []
  accepted : s.accepted = []
  completedBy : s.completedBy = []

/-! ## §2. The invariant. -/

/-- What the ends may rely on about a packet in flight. -/
def RoceInFlight (st : Stream) (flow : FlowId) (high expected : Nat) (p : PacketDescriptor) :
    Prop :=
  p.flow = flow ∧
    match p.kind with
    | .roceData header =>
      st.Boundary header.psn ∧ header.psn < st.total ∧ p.sizeBytes = st.size header.psn ∧
        header.psn + p.sizeBytes ≤ high
    | .roceAck header => st.Boundary header.acknowledgment ∧ header.acknowledgment ≤ expected
    | .roceNack header =>
      st.Boundary header.acknowledgment ∧ header.acknowledgment ≤ expected ∧
        header.acknowledgment < st.total
    | _ => True

theorem RoceInFlight.mono {high' expected expected' : Nat}
    (h : RoceInFlight st flow high expected p) (hhigh : high ≤ high')
    (hexpected : expected ≤ expected') : RoceInFlight st flow high' expected' p := by
  refine ⟨h.1, ?_⟩
  replace h := h.2
  split at h
  · exact ⟨h.1, h.2.1, h.2.2.1, Nat.le_trans h.2.2.2 hhigh⟩
  · exact ⟨h.1, Nat.le_trans h.2 hexpected⟩
  · exact ⟨h.1, Nat.le_trans h.2.1 hexpected, h.2.2⟩
  · trivial

/-- The network does not change what a packet says. -/
theorem RoceInFlight.marked {expected : Nat} {q : PacketDescriptor} (hsame : p.SameUnmarked q)
    (h : RoceInFlight st flow high expected q) : RoceInFlight st flow high expected p := by
  obtain ⟨-, hflow, hsize, hkind⟩ := hsame
  unfold RoceInFlight at h ⊢
  rw [hflow, hsize, hkind]
  exact h

theorem RoceInFlight.feedback {expected : Nat} (h : RoceInFlight st flow high expected p)
    (hp : roceFeedbackOf p = some (header, nack)) :
    st.Boundary header.acknowledgment ∧ header.acknowledgment ≤ expected := by
  unfold RoceInFlight at h
  unfold roceFeedbackOf at hp
  split at hp
  · next hkind =>
    cases hp
    rw [hkind] at h
    exact h.2
  · next hkind =>
    cases hp
    rw [hkind] at h
    exact ⟨h.2.1, h.2.2.1⟩
  · cases hp

/-- The invariant of a queue pair: both ends against one stream, and every packet between them. -/
structure RocePair.Safe (st : Stream) (flow : FlowId) (w : Window) (expected : Nat)
    (s : RocePair) : Prop where
  sends : s.source.Sends st flow w
  receives : s.target.Receives st flow expected
  ordered : Ordered st w expected
  wire : ∀ p ∈ s.wire, RoceInFlight st flow w.high expected p
  accepted : s.accepted = List.range expected
  completed : s.completedBy.length = if st.total ≤ w.una then 1 else 0

theorem HostEntry.Sends.complete (h : e.Sends st flow w) :
    e.roceComplete flow = decide (st.total ≤ w.una) := by
  obtain ⟨g, roce, hs, -, htotal, rfl⟩ := h
  unfold roceComplete
  rw [hs, ← htotal]
  rfl

theorem HostEntry.Receives.expected {expected : Nat} (h : e.Receives st flow expected) :
    e.roceExpected flow = some expected := by
  obtain ⟨r, hr, -, rfl⟩ := h
  unfold roceExpected
  rw [hr]
  rfl

namespace RocePair

variable {s s' : RocePair} {expected : Nat}

theorem Fresh.safe (h : s.Fresh st flow) : s.Safe st flow ⟨0, 0, 0⟩ 0 where
  sends := h.sends
  receives := h.receives
  ordered := .fresh
  wire := by simp [h.wire]
  accepted := h.accepted
  completed := by
    have := h.total_pos
    rw [h.completedBy, if_neg (by show ¬ st.total ≤ 0; omega)]
    rfl

section

variable (h : s.Safe st flow w expected)

include h

/-- A step that moves only the sender's rate or pacer. -/
theorem Safe.quiet {source : HostEntry}
    (hs : source.Sends st flow w) : Safe st flow w expected { s with source } :=
  ⟨hs, h.receives, h.ordered, h.wire, h.accepted, h.completed⟩

theorem Safe.tick {tick : RoceTick} (htick : roceTick c flow s.source = .ok tick) :
    ∃ w', Safe st flow w' expected { s with
      source := tick.entry
      wire := s.wire ++ (tick.emission.map fun emission => emission.data c flow).toList } := by
  rcases roceTick_turn htick h.sends with ⟨hnone, hs⟩ | ⟨em, hsome, hpsn, hbytes, hlt, hs⟩
  · refine ⟨w, hs, h.receives, h.ordered, ?_, h.accepted, h.completed⟩
    simpa [hnone] using h.wire
  · refine ⟨w.send st, hs, h.receives, h.ordered.send hlt, ?_, h.accepted, h.completed⟩
    intro p hp
    rw [hsome, map_some, toList_some, mem_append, mem_singleton] at hp
    rcases hp with hp | rfl
    · exact (h.wire p hp).mono h.ordered.high_le_send (Nat.le_refl _)
    · refine ⟨rfl, ?_⟩
      show st.Boundary em.psn ∧ em.psn < st.total ∧ em.bytes = st.size em.psn ∧
        em.psn + em.bytes ≤ (w.send st).high
      rw [hpsn, hbytes]
      exact ⟨h.ordered.next_boundary, hlt, rfl, h.ordered.send_le⟩

/-- Feedback moves the window within what the receiver has; the first one to reach the
end completes the pair. -/
theorem Safe.feedback {rest : List PacketDescriptor} {dataClass : Nat} {reaction : RoceReaction} (hwire : s.wire = p :: rest)
    (hp : roceFeedbackOf p = some (header, nack))
    (hreaction : roceFeedback c p header nack dataClass s.source = .ok reaction) :
    ∃ w', Safe st flow w' expected { s with
      source := reaction.entry
      wire := rest
      completedBy :=
        if !s.source.roceComplete flow && reaction.entry.roceComplete flow then
          s.completedBy ++ [p.id]
        else s.completedBy } := by
  have hflight := h.wire p (by rw [hwire]; exact mem_cons_self)
  obtain ⟨hboundary, hle⟩ := hflight.feedback hp
  have hflow : p.flow = flow := hflight.1
  subst hflow
  obtain ⟨w', hs, hturn⟩ := roceFeedback_turn hreaction h.sends
  -- Stale feedback changes nothing, an ACK slides the window, a NACK also goes back.
  have hord : Ordered st w' expected := by
    rcases hturn with rfl | rfl | rfl
    · exact h.ordered
    · exact h.ordered.acknowledge hle hboundary
    · exact h.ordered.goBack hle hboundary
  have hhigh : w'.high = w.high := by
    rcases hturn with rfl | rfl | rfl <;> rfl
  have huna : w.una ≤ w'.una := by
    rcases hturn with rfl | rfl | rfl
    · exact Nat.le_refl _
    · exact Nat.le_max_left _ _
    · exact Nat.le_max_left _ _
  refine ⟨w', hs, h.receives, hord, ?_, h.accepted, ?_⟩
  · intro q hq
    rw [hhigh]
    exact h.wire q (by rw [hwire]; exact mem_cons_of_mem _ hq)
  · have hcount := h.completed
    rw [h.sends.complete, hs.complete]
    -- The window's lower end only grows, so the end of the stream is reached once.
    by_cases hbefore : st.total ≤ w.una
    · rw [if_pos hbefore] at hcount
      rw [if_pos (Nat.le_trans hbefore huna)]
      simpa [hbefore] using hcount
    · rw [if_neg hbefore] at hcount
      by_cases hafter : st.total ≤ w'.una
      · simp [hbefore, hafter, hcount]
      · simp [hafter, hcount]

theorem Safe.data {rest : List PacketDescriptor} {header : RoceDataHeader} {delivery : RoceDelivery} (hwire : s.wire = p :: rest) (hp : p.kind = .roceData header)
    (hdelivery : roceDelivery c p header s.target = .ok delivery) :
    ∃ expected', Safe st flow w expected' { s with
      target := delivery.entry
      wire := rest ++ delivery.reply.toList
      accepted :=
        if delivery.entry.roceExpected flow = s.target.roceExpected flow then s.accepted
        else s.accepted ++ range' header.psn p.sizeBytes } := by
  have hflight := h.wire p (by rw [hwire]; exact mem_cons_self)
  unfold RoceInFlight at hflight
  rw [hp] at hflight
  obtain ⟨rfl, hboundary, hlt, hsize, hsent⟩ := hflight
  obtain ⟨expected', hr, hexpected, hreply⟩ := roceDelivery_turn hdelivery h.receives
  have hpos := Stream.size_pos hlt
  have hord : Ordered st w expected' := by
    rw [hexpected]
    split
    · next heq =>
      rw [hsize, heq]
      rw [hsize, heq] at hsent
      exact h.ordered.accept (heq ▸ hlt) hsent
    · exact h.ordered
  have hmono : expected ≤ expected' := by
    rw [hexpected]
    split <;> omega
  refine ⟨expected', h.sends, hr, hord, ?_, ?_, h.completed⟩
  · intro q hq
    rcases mem_append.1 hq with hq | hq
    · refine (h.wire q ?_).mono (Nat.le_refl _) hmono
      rw [hwire]
      exact mem_cons_of_mem _ hq
    · rw [mem_toList] at hq
      obtain ⟨hflow, ack, hack, hkind⟩ := hreply q hq
      refine ⟨hflow, ?_⟩
      rcases hkind with hkind | ⟨hkind, hbeyond⟩
      · rw [hkind]
        exact ⟨hack ▸ hord.expected_boundary, hack.le⟩
      · -- A packet beyond the expected one was refused, so the receiver has not moved.
        have hsame : expected' = expected := by
          rw [hexpected, if_neg (by omega)]
        rw [hkind]
        refine ⟨hack ▸ hord.expected_boundary, hack.le, ?_⟩
        rw [hack, hsame]
        omega
  · dsimp only
    rw [hr.expected, h.receives.expected, hexpected, h.accepted]
    -- The receiver takes exactly the packet it expects; the bytes taken stay an initial segment.
    by_cases heq : header.psn = expected
    · rw [if_pos heq, if_neg (by simp only [some.injEq]; omega), heq,
        range_eq_range', range_eq_range', ← range'_append_1, Nat.zero_add]
    · rw [if_neg heq, if_pos rfl]

/-- One step of the pair keeps it safe. -/
theorem Safe.step (hstep : RoceStep flow s s') : ∃ w' expected', Safe st flow w' expected' s' := by
  cases hstep with
  | tick c htick =>
    obtain ⟨w', h'⟩ := h.tick htick
    exact ⟨w', expected, h'⟩
  | feedback c hwire hp hreaction =>
    obtain ⟨w', h'⟩ := h.feedback hwire hp hreaction
    exact ⟨w', expected, h'⟩
  | timeout c htimeout =>
    -- Going back to the oldest unacknowledged packet acknowledges nothing new.
    have hord := h.ordered.goBack h.ordered.una_le h.ordered.una_boundary
    refine ⟨w.goBack w.una, expected, roceTimeout_turn htimeout h.sends, h.receives, hord,
      h.wire, h.accepted, ?_⟩
    show s.completedBy.length = if st.total ≤ max w.una w.una then 1 else 0
    rw [Nat.max_self]
    exact h.completed
  | cnp c hflow hcnp =>
    subst hflow
    exact ⟨w, expected, h.quiet (cnpReaction_turn hcnp h.sends)⟩
  | resume c hresume => exact ⟨w, expected, h.quiet (restartPaused_turn hresume h.sends)⟩
  | release c hfor hkind => exact ⟨w, expected, h.quiet (releasedSender_turn hfor hkind h.sends)⟩
  | data c hwire hp hdelivery =>
    obtain ⟨expected', h'⟩ := h.data hwire hp hdelivery
    exact ⟨w, expected', h'⟩
  | network hcarries =>
    refine ⟨w, expected, h.sends, h.receives, h.ordered, ?_, h.accepted, h.completed⟩
    exact hcarries.forall (fun _ _ hsame hq => hq.marked hsame) h.wire
  | elsewhere hsource htarget =>
    obtain ⟨r, hr, hrest⟩ := h.receives
    exact ⟨w, expected, h.sends.congr hsource, ⟨r, htarget.trans hr, hrest⟩, h.ordered, h.wire,
      h.accepted, h.completed⟩

/-- Every state a safe pair reaches is safe. -/
theorem Safe.run (hrun : Relation.ReflTransGen (RoceStep flow) s s') :
    ∃ w' expected', Safe st flow w' expected' s' := by
  induction hrun with
  | refl => exact ⟨w, expected, h⟩
  | tail _ hstep ih =>
    obtain ⟨w', expected', h'⟩ := ih
    exact h'.step hstep

end

end RocePair

/-! ## §3. No packet is inconsistent. -/

def PlainError.IsInconsistentRoce (e : PlainError) : Prop :=
  ∃ flow id, e = .inconsistentRocePacket flow id

theorem countUp_avoids {n : Nat} : Avoids PlainError.IsInconsistentRoce (countUp node n) :=
  .okOr (by rintro ⟨_, _, ⟨⟩⟩)

theorem generatorFor_avoids : Avoids PlainError.IsInconsistentRoce (e.generatorFor node flow) := by
  refine .bind (.okOr (by rintro ⟨_, _, ⟨⟩⟩)) fun _ _ => ?_
  exact .bind (.okOr (by rintro ⟨_, _, ⟨⟩⟩)) fun _ _ => .ok _

theorem restartRocePacer_avoids :
    Avoids PlainError.IsInconsistentRoce (restartRocePacer c g roce) := by
  unfold restartRocePacer
  dsimp only
  split
  · exact .ok _
  · refine .bind (.okOr (by rintro ⟨_, _, ⟨⟩⟩)) fun _ _ => ?_
    split <;> exact .ok _

theorem rearmRoceTimer_avoids :
    Avoids PlainError.IsInconsistentRoce (rearmRoceTimer c flow g roce) := by
  unfold rearmRoceTimer
  split
  · exact .ok _
  · split
    · exact .bind (.okOr (by rintro ⟨_, _, ⟨⟩⟩)) fun _ _ => .ok _
    · exact .ok _

theorem roceAcknowledge_avoids {acknowledgment : Nat} :
    Avoids PlainError.IsInconsistentRoce (roceAcknowledge c flow acknowledgment nack g roce) := by
  unfold roceAcknowledge
  dsimp only
  generalize (if nack = true then decide (acknowledgment < roce.sndUna)
    else decide (acknowledgment ≤ roce.sndUna)) = stale
  split
  · exact .ok _
  · exact .bind rearmRoceTimer_avoids fun _ _ => .bind restartRocePacer_avoids fun _ _ => .ok _

/-- Feedback for bytes that were sent is consistent. -/
theorem roceFeedback_avoids {dataClass : Nat} (hs : e.Sends st p.flow w)
    (hack : header.acknowledgment ≤ w.high) :
    Avoids PlainError.IsInconsistentRoce (roceFeedback c p header nack dataClass e) := by
  refine .bind generatorFor_avoids ?_
  rintro ⟨position, g⟩ hfor
  obtain ⟨hposition, hg⟩ := generatorFor_eq hfor
  dsimp only
  split
  · next roce hkind =>
    obtain ⟨-, -, rfl⟩ := hs.found hposition hg hkind
    refine .bind (.bind countUp_avoids fun _ _ => .ok _) fun g₁ hcounted => ?_
    obtain ⟨arrivals, rfl⟩ := applyGeneratorFeedback_eq_ok hcounted
    refine .bind (.passes hack) fun _ _ => ?_
    exact .bind roceAcknowledge_avoids fun _ _ => .ok _
  · exact .throw (by rintro ⟨_, _, ⟨⟩⟩)

theorem recordInboundSuccessors_avoids {inbound : FlowId} {sequence bytes advance : Nat}
    {positions : List Nat} {causes : PendingCauses} :
    Avoids PlainError.IsInconsistentRoce
      (recordInboundSuccessors node inbound sequence bytes advance positions e causes) := by
  induction positions generalizing e causes with
  | nil => exact .ok _
  | cons position rest ih =>
    unfold recordInboundSuccessors
    split
    · dsimp only
      split
      · exact ih
      · refine .bind (.okOr (by rintro ⟨_, _, ⟨⟩⟩)) fun _ _ => ?_
        exact .bind (.require (by rintro ⟨_, _, ⟨⟩⟩)) fun _ _ => ih
    · exact ih

theorem allocatePayload_avoids : Avoids PlainError.IsInconsistentRoce (e.allocatePayload c) := by
  refine .bind (.okOr (by rintro ⟨_, _, ⟨⟩⟩)) fun _ _ => ?_
  exact .bind (.okOr (by rintro ⟨_, _, ⟨⟩⟩)) fun _ _ => .ok _

/-- Data inside the stream is consistent. -/
theorem roceDelivery_avoids {header : RoceDataHeader} {expected : Nat}
    (hr : e.Receives st p.flow expected) (hlt : st.total < width 64)
    (hfits : header.psn + p.sizeBytes ≤ st.total) :
    Avoids PlainError.IsInconsistentRoce (roceDelivery c p header e) := by
  obtain ⟨r, hfound, htotal, -⟩ := hr
  refine .bind (.okOr (by rintro ⟨_, _, ⟨⟩⟩)) fun receivers hreceivers => ?_
  refine .bind (.okOr (by rintro ⟨_, _, ⟨⟩⟩)) fun position hposition => ?_
  refine .bind (.okOr (by rintro ⟨_, _, ⟨⟩⟩)) fun r' hr' => ?_
  rw [okOr_eq_ok] at hreceivers hposition hr'
  unfold roceReceiver at hfound
  rw [hreceivers, bind_some, hposition, bind_some, hr'] at hfound
  cases hfound
  have hcheck : (checkedAdd 64 header.psn p.sizeBytes).any fun stop => stop ≤ r.totalBytes := by
    rw [checkedAdd_of_lt (by omega), htotal]
    simpa using hfits
  refine .bind (.passes hcheck) fun _ _ => ?_
  dsimp only
  refine .bind ?_ fun _ _ => .bind countUp_avoids fun _ _ => .bind ?_ fun _ _ => .ok _
  · unfold recordInboundProgress
    split
    · exact .ok _
    · exact recordInboundSuccessors_avoids
  · unfold roceAnswer
    split
    · refine .bind allocatePayload_avoids fun _ _ => .bind ?_ fun _ _ => .ok _
      exact .bind (.okOr (by rintro ⟨_, _, ⟨⟩⟩)) fun _ _ => .ok _
    · exact .ok _

/-! ## §4. Safety. -/

/-- Go-back-N is safe from a fresh queue pair, whatever the network does: the two ends
stay ordered on packet boundaries, no NACK asks for the end, no packet is refused as
inconsistent, the receiver takes the bytes of the stream once each and in order, and a
pair is complete when, and only when, one arrival has completed it. -/
theorem roce_go_back_n_safe {st : Stream} {flow : FlowId} {s t : RocePair}
    (hfresh : s.Fresh st flow) (hrun : Relation.ReflTransGen (RoceStep flow) s t) :
    ∃ g roce r, t.source.roceSender flow = some (g, roce) ∧ t.target.roceReceiver flow = some r ∧
      roce.pacer.mtuBytes = st.mtu ∧ roce.pacer.totalBytes = st.total ∧
      (roce.sndUna ≤ r.expectedPsn ∧ r.expectedPsn ≤ g.bytesEmitted ∧
        g.bytesEmitted ≤ roce.pacer.totalBytes) ∧
      (roce.sndUna ≤ roce.nextPsn ∧ roce.nextPsn ≤ g.bytesEmitted) ∧
      (∀ psn ∈ [roce.sndUna, r.expectedPsn, roce.nextPsn, g.bytesEmitted], st.Boundary psn) ∧
      (∀ p ∈ t.wire, ∀ header, p.kind = .roceNack header →
        header.acknowledgment < roce.pacer.totalBytes) ∧
      (∀ p ∈ t.wire, ∀ c, (∀ header, p.kind = .roceData header → p.sizeBytes < width 32 ∧
          Avoids PlainError.IsInconsistentRoce (roceDelivery c p header t.target)) ∧
        ∀ header nack dataClass, roceFeedbackOf p = some (header, nack) →
          Avoids PlainError.IsInconsistentRoce (roceFeedback c p header nack dataClass t.source)) ∧
      t.accepted = List.range r.expectedPsn ∧
      t.completedBy.length = if roce.pacer.totalBytes ≤ roce.sndUna then 1 else 0 := by
  -- The window invariant holds in `t`; the rest reads it off the two hosts and the wire.
  obtain ⟨w, expected, h⟩ := hfresh.safe.run hrun
  have hsends := h.sends
  have hreceives := h.receives
  obtain ⟨g, roce, hs, hmtu, htotal, hw⟩ := h.sends
  obtain ⟨r, hr, -, hexpected⟩ := h.receives
  have hcompleted := h.completed
  subst hw hexpected
  refine ⟨g, roce, r, hs, hr, hmtu, htotal, ?_, ⟨h.ordered.una_next, h.ordered.next_le⟩, ?_, ?_, ?_,
    h.accepted, htotal ▸ hcompleted⟩
  · exact ⟨h.ordered.una_le, h.ordered.expected_le, htotal ▸ h.ordered.high_boundary.le⟩
  · intro psn hpsn
    simp only [mem_cons, not_mem_nil, or_false] at hpsn
    rcases hpsn with rfl | rfl | rfl | rfl
    · exact h.ordered.una_boundary
    · exact h.ordered.expected_boundary
    · exact h.ordered.next_boundary
    · exact h.ordered.high_boundary
  · intro p hp header hkind
    have hflight := (h.wire p hp).2
    rw [hkind] at hflight
    rw [htotal]
    exact hflight.2.2
  · intro p hp c
    have hflight := h.wire p hp
    have hflow : p.flow = flow := hflight.1
    constructor
    · intro header hkind
      have hdata := hflight.2
      rw [hkind] at hdata
      obtain ⟨-, -, hsize, hsent⟩ := hdata
      have hmtu' := hfresh.mtu_lt
      have hsize' : p.sizeBytes ≤ st.mtu := by
        rw [hsize]
        exact Nat.min_le_left _ _
      -- A data packet ends within the bytes sent, so within the stream.
      refine ⟨by omega, roceDelivery_avoids (hflow ▸ hreceives) hfresh.total_lt ?_⟩
      exact Nat.le_trans hsent h.ordered.high_boundary.le
    · intro header nack dataClass hfeedback
      -- Feedback acknowledges at most what the receiver expects next.
      refine roceFeedback_avoids (hflow ▸ hsends) ?_
      exact Nat.le_trans (hflight.feedback hfeedback).2 h.ordered.expected_le

/-- A queue pair with one packet of three bytes to send at 8 Gbit/s. -/
def sampleRocePair : RocePair where
  source :=
    { state := { emptyHost with
        generators := [⟨0, 0, 0, ⟨.scheduled, 100, 0⟩, 0, ⟨0, 0, 0⟩, .roce {
          pacer := ⟨100, 1000, 4, 3, 0⟩
          controller := {
            config := ⟨8000000000, 8000000000, 8000000000, 0, 0, 0, 0, 0, 0, 0, false⟩
            alphaQ63 := 0
            currentRateBps := 8000000000
            targetRateBps := 8000000000
            nextAlphaNs := 0
            nextDecreaseNs := 0
            nextIncreaseNs := 0
            stage := 0
            armed := false
            alphaPending := false
            decreasePending := false
            increaseArmed := false }
          pacingTimerPayload := 0
          nextPsn := 0
          sndUna := 0
          rtoDeadlineNs := 0
          rtoNs := 0
          windowBytes := 0
          pacerArmed := true
          variableWindow := false
          windowParked := false
          congestionControl := .none }⟩] }
      index := ⟨[(0, 0)], [], none⟩ }
  target :=
    { state := { emptyHost with roceReceivers := some [⟨0, 3, 0, 1, 0, 64, 0, none, false⟩] }
      index := ⟨[], [], none⟩ }
  wire := []
  accepted := []
  completedBy := []

theorem sampleRocePair_fresh : sampleRocePair.Fresh ⟨4, 3, by decide⟩ 0 where
  sends := ⟨_, _, rfl, rfl, rfl, rfl⟩
  receives := ⟨_, rfl, rfl, rfl⟩
  total_pos := by decide
  total_lt := by decide
  mtu_lt := by decide
  wire := rfl
  accepted := rfl
  completedBy := rfl

/-- A tick, the packet's arrival and its acknowledgment complete the sample. -/
theorem sampleRocePair_completes :
    ∃ t, Relation.ReflTransGen (RoceStep 0) sampleRocePair t ∧ t.completedBy = [3] ∧
      t.accepted = [0, 1, 2] :=
  ⟨_, ((Relation.ReflTransGen.refl.tail
      (.tick (exchangeContext 0 100 .pacingTimer 0) rfl)).tail
      (.data (exchangeContext 1 200 .remoteArrival 2) rfl rfl rfl)).tail
      (.feedback (exchangeContext 0 300 .remoteArrival 3) rfl rfl
        (rfl : roceFeedback _ _ _ _ 0 _ = .ok _)), rfl, rfl⟩

theorem roce_go_back_n_safe_sample :
    ∃ t, Relation.ReflTransGen (RoceStep 0) sampleRocePair t ∧ t.completedBy = [3] ∧
      ∃ g roce r, t.source.roceSender 0 = some (g, roce) ∧ t.target.roceReceiver 0 = some r ∧
        roce.sndUna ≤ r.expectedPsn ∧ t.accepted = List.range r.expectedPsn := by
  obtain ⟨t, hrun, hcompleted, -⟩ := sampleRocePair_completes
  obtain ⟨g, roce, r, hs, hr, -, -, hle, -, -, -, -, haccepted, -⟩ :=
    roce_go_back_n_safe sampleRocePair_fresh hrun
  exact ⟨t, hrun, hcompleted, g, roce, r, hs, hr, hle.1, haccepted⟩

end Days
