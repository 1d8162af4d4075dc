/-
  Days.Exec.HostRoce — RoCE queue pairs: ticks, feedback, timeouts and the
  receiver (`scalar.rs`).
-/
import Days.Exec.HostPacing

namespace Days

/-! ## §1. Sender bookkeeping. -/

/-- `image_flow_priority`. -/
def imageFlowPriority (c : Ctx) (flow : FlowId) : Except PlainError Nat := do
  let descriptor ← c.image.flow flow
  return descriptor.priority

/-- `settle_roce_sender`: the status and the mirrors of the outstanding bytes. -/
def settleRoceSender (g : FlowGeneratorState) (roce : RoceGenerator)
    (parkedStatus : GeneratorStatus) : FlowGeneratorState :=
  let outstanding := g.bytesEmitted - roce.sndUna
  { g with
    nextEmission := { g.nextEmission with status := Roce.settledStatus roce parkedStatus }
    feedback :=
      { g.feedback with outstandingBytes := outstanding, unacknowledgedBytes := outstanding }
    kind := .roce roce }

/-- `restart_roce_pacer`: start a parked pacer on its next grid point. -/
def restartRocePacer (c : Ctx) (g : FlowGeneratorState) (roce : RoceGenerator) :
    Except PlainError (Option Nat × FlowGeneratorState × RoceGenerator) :=
  let roce := { roce with windowParked := false }
  if roce.pacerArmed ∨ roce.nextPsn ≥ roce.pacer.totalBytes ∨
      roce.sndUna ≥ roce.pacer.totalBytes then .ok (none, g, roce)
  else do
    let timeNs ← okOr (Roce.restartTimeNs roce c.now) (.generatorTimeOverflow g.flow)
    if timeNs ≤ c.image.stopTimeNs then
      return (some timeNs,
        { g with nextEmission := { g.nextEmission with departureTimeNs := timeNs } },
        { roce with pacerArmed := true })
    else
      return (none,
        { g with
          nextEmission := { g.nextEmission with departureTimeNs := timeNs, status := .stopped } },
        roce)

/-- `leave_parked_list`: only a restartable queue pair stays listed. -/
def leaveParkedList (pfc : Option HostPfcState) (dataClass position : Nat)
    (g : FlowGeneratorState) (roce : RoceGenerator) : Option HostPfcState :=
  pfc.map fun pfc =>
    let restartable := !roce.pacerArmed && !decide (g.nextEmission.status = .stopped) &&
      decide (roce.nextPsn < roce.pacer.totalBytes) &&
      decide (roce.sndUna < roce.pacer.totalBytes)
    if restartable then pfc
    else
      { pfc with
        pauseParked :=
          Function.update pfc.pauseParked dataClass ((pfc.pauseParked dataClass).erase position) }

def HostEntry.setPfc (e : HostEntry) (pfc : Option HostPfcState) : HostEntry :=
  { e with state := { e.state with pfc } }

/-- `roce_sender_record`. -/
def roceSenderRecord (c : Ctx) (flow : FlowId) (kind : RoceSenderKind)
    (park : Option Roce.TickPark) (dataClass : Nat) (roce : RoceGenerator) (rateBps : Option Nat)
    (input : Option RoceAckHeader) (emitted : Option RoceEmission) (before : Roce.SenderView)
    (after : FlowGeneratorState) : MechanismTransitionRecord :=
  .roceSender {
    key := c.event.key
    node := c.node.id
    flow
    kind
    classPaused := decide (park = some .classPaused)
    windowBlocked := decide (park = some .windowBlocked)
    dataClass
    pacer := roce.pacer
    rtoNs := roce.rtoNs
    windowBytes := roce.windowBytes
    variableWindow := roce.variableWindow
    maximumRateBps := roce.controller.config.maximumRateBps
    initialRateBps := roce.controller.config.initialRateBps
    congestionControl := roce.congestionControl
    rateBps
    inputAcknowledgment := input.map (·.acknowledgment)
    inputCeEcho := input.map (·.ceEcho)
    emitted
    before
    after := .of after roce }

/-- The row of the clocks that fired before an event, when one changed the rate. -/
def advanceRecord (c : Ctx) (flow : FlowId) (bound : Nat) (advance : Option DcqcnAdvance)
    (before after : DcqcnController) : Option MechanismTransitionRecord :=
  (advance.filter DcqcnAdvance.appliedRateChange).map fun advance =>
    .dcqcn ⟨c.event.key, c.node.id, flow, .advance, bound, advance, false, before, after⟩

/-- `emit_roce_timers`. -/
def emitRoceTimers (c : Ctx) (token : PayloadId) (tickNs timerNs : Option Nat) : Prog Unit := do
  Prog.each tickNs (emit c.node.id .pacingTimer token)
  Prog.each timerNs (emit c.node.id .retransmissionTimeout token)

/-! ## §2. Ticks. -/

/-- What a tick asks for. -/
structure RoceTick where
  entry : HostEntry
  emission : Option RoceEmission
  nextTickNs : Option Nat
  timerNs : Option Nat
  advance : Option MechanismTransitionRecord
  record : MechanismTransitionRecord

/-- The queue pair after its credit has grown and may have paid for one packet. -/
structure RoceSend where
  entry : HostEntry
  generator : FlowGeneratorState
  roce : RoceGenerator
  emission : Option RoceEmission
  timerNs : Option Nat

/-- A packet sent for the first time moves the emission counters. -/
def countFirstSend (c : Ctx) (retransmission : Bool) (stop : Nat) (g : FlowGeneratorState) :
    Except PlainError FlowGeneratorState :=
  if retransmission then .ok g
  else do
    let emitted ← countUp c.node.id g.packetsEmitted
    return { g with bytesEmitted := stop, packetsEmitted := emitted }

/-- Send the packet at `nextPsn`, of `size` bytes. -/
def roceSendPacket (c : Ctx) (flow : FlowId) (size : Nat) (s : RoceSend) :
    Except PlainError RoceSend := do
  let psn := s.roce.nextPsn
  let retransmission := decide (psn < s.generator.bytesEmitted)
  let outstandingBefore := decide (s.roce.sndUna < s.generator.bytesEmitted)
  let (payload, entry) ← s.entry.allocatePayload c
  let entry ← entry.countSourcedPackets c 1
  let roce := { s.roce with nextPsn := psn + size }
  let generator ← countFirstSend c retransmission (psn + size) s.generator
  let emission : RoceEmission := ⟨psn, size, retransmission, payload⟩
  if roce.rtoNs ≠ 0 ∧ !outstandingBefore then
    let deadline ← okOr (checkedAdd 64 c.now roce.rtoNs) (.generatorTimeOverflow flow)
    return ⟨entry, generator, { roce with rtoDeadlineNs := deadline }, some emission, some deadline⟩
  else return ⟨entry, generator, roce, some emission, none⟩

/-- The credit of one tick, and the packet it pays for. -/
def roceCredit (c : Ctx) (flow : FlowId) (s : RoceSend) : Except PlainError RoceSend := do
  let scale ← okOr (pacingCreditScale 1) (.counterOverflow c.node.id)
  let tick ← okOr (pacingTickCredit s.roce.controller.currentRateBps s.roce.pacer.pacingIntervalNs)
    (.counterOverflow c.node.id)
  let credit ← okOr (checkedAdd 128 s.roce.pacer.creditQuanta tick) (.counterOverflow c.node.id)
  let size := Roce.packetSize s.roce s.roce.nextPsn
  let cost ← okOr (pacedPacketCost size scale) (.counterOverflow c.node.id)
  let withCredit (credit : Nat) : RoceSend :=
    { s with roce := { s.roce with pacer := { s.roce.pacer with creditQuanta := credit } } }
  if credit ≥ cost then roceSendPacket c flow size (withCredit (credit - cost))
  else return withCredit credit

def roceSending (c : Ctx) (flow : FlowId) (s : RoceSend) : Except PlainError RoceSend :=
  if s.roce.nextPsn < s.roce.pacer.totalBytes then roceCredit c flow s else .ok s

/-- The priority in the row of a tick; it is only asked for when a row is written. -/
def recordedPriority (c : Ctx) (flow : FlowId) : Except PlainError Nat :=
  if c.full then imageFlowPriority c flow else .ok 0

/-- The next tick of a queue pair that has packets left. -/
def roceNextTick (c : Ctx) (flow : FlowId) (g : FlowGeneratorState) (roce : RoceGenerator) :
    Except PlainError (GeneratorStatus × FlowGeneratorState × RoceGenerator) :=
  if roce.nextPsn < roce.pacer.totalBytes then do
    let next ← okOr (checkedAdd 64 c.now roce.pacer.pacingIntervalNs) (.generatorTimeOverflow flow)
    let g := { g with nextEmission := { g.nextEmission with departureTimeNs := next } }
    if next ≤ c.image.stopTimeNs then return (.blocked, g, { roce with pacerArmed := true })
    else return (.stopped, g, roce)
  else .ok (.blocked, g, roce)

/-- The paused class of the queue pair, when its host is paused for it. -/
def rocePausedClass (c : Ctx) (flow : FlowId) (pfc : Option HostPfcState) :
    Except PlainError (Option (HostPfcState × Nat)) :=
  match pfc with
  | none => .ok none
  | some pfc => do
    let priority ← imageFlowPriority c flow
    return if pfc.isPaused priority then some (pfc, priority) else none

/-- The parked list of a paused host: queue pairs that have packets left join it. -/
def parkPaused (pfc : HostPfcState) (priority position : Nat) (roce : RoceGenerator) :
    HostPfcState :=
  if roce.nextPsn < roce.pacer.totalBytes ∧ roce.sndUna < roce.pacer.totalBytes then
    { pfc with
      pauseParked :=
        Function.update pfc.pauseParked priority (insert position (pfc.pauseParked priority)) }
  else pfc

/-- The state half of `host_roce_pacing_timer`. -/
def roceTick (c : Ctx) (flow : FlowId) (entry : HostEntry) : Except PlainError RoceTick := do
  let unexpected := PlainError.unexpectedGeneratorEmission c.node.id flow c.event.payload
  let position ← okOr (entry.index.firstGenerator flow) unexpected
  let generator ← okOr entry.state.generators[position]? unexpected
  match generator.kind with
  | .roce roce =>
    require (roce.pacerArmed ∧ roce.pacingTimerPayload = c.event.payload ∧
      generator.nextEmission.departureTimeNs = c.now) unexpected
    let before := Roce.SenderView.of generator roce
    let bound := saturatingAdd 64 c.now 1
    let complete := decide (roce.sndUna ≥ roce.pacer.totalBytes)
    let (advance, controller) := dcqcnMaterialize roce.controller complete bound
    let advanceRow := advanceRecord c flow bound advance roce.controller controller
    let roce := { roce with pacerArmed := false, controller }
    match ← rocePausedClass c flow entry.state.pfc with
    | some (pfc, priority) =>
      let generator := settleRoceSender generator roce .blocked
      let entry := entry.setPfc (some (parkPaused pfc priority position roce))
      return {
        entry := entry.setGenerator position generator
        emission := none
        nextTickNs := none
        timerNs := none
        advance := advanceRow
        record := roceSenderRecord c flow .tick (some .classPaused) priority roce none none none
          before generator }
    | none =>
      if roce.windowBytes ≠ 0 ∧ roce.nextPsn < roce.pacer.totalBytes ∧ Roce.windowBound roce then
        let priority ← imageFlowPriority c flow
        let roce := { roce with windowParked := true }
        let generator := settleRoceSender generator roce .blocked
        return {
          entry := entry.setGenerator position generator
          emission := none
          nextTickNs := none
          timerNs := none
          advance := advanceRow
          record := roceSenderRecord c flow .tick (some .windowBlocked) priority roce none none
            none before generator }
      else
        let sending := decide (roce.nextPsn < roce.pacer.totalBytes)
        let sent ← roceSending c flow ⟨entry, generator, roce, none, none⟩
        let (parked, generator, roce) ← roceNextTick c flow sent.generator sent.roce
        let generator := settleRoceSender generator roce parked
        let priority ← recordedPriority c flow
        return {
          entry := sent.entry.setGenerator position generator
          emission := sent.emission
          nextTickNs :=
            if roce.pacerArmed then some generator.nextEmission.departureTimeNs else none
          timerNs := sent.timerNs
          advance := advanceRow
          record := roceSenderRecord c flow .tick none priority roce
            (if sending then some controller.currentRateBps else none) none sent.emission before
            generator }
  | _ => throw unexpected

/-- The data packet of an emission. -/
def RoceEmission.data (e : RoceEmission) (c : Ctx) (flow : FlowId) : PacketDescriptor :=
  ⟨e.payload, flow, e.bytes, false, .roceData ⟨e.psn, c.now, e.retransmission⟩⟩

/-- `host_roce_pacing_timer`. -/
def hostRocePacingTimer (c : Ctx) (p : PacketDescriptor) : Prog Unit := do
  let entry ← getHost
  let tick ← roceTick c p.flow entry
  setHost tick.entry
  Prog.when c.full do
    pushMechanism? tick.advance
    pushMechanism tick.record
  emitRoceTimers c c.event.payload tick.nextTickNs tick.timerNs
  Prog.each tick.emission fun emission => do
    sourcePacket c (emission.data c p.flow)
    let ready ← claimReady
    emitReady c ready emission.payload

/-! ## §3. Feedback and timeouts. -/

/-- The window after an acknowledgment, and the timers that follow. -/
structure RoceWindow where
  generator : FlowGeneratorState
  roce : RoceGenerator
  supersededNs : Option Nat
  timerNs : Option Nat
  tickNs : Option Nat

/-- Rearm the retransmission timer while bytes are outstanding. -/
def rearmRoceTimer (c : Ctx) (flow : FlowId) (g : FlowGeneratorState) (roce : RoceGenerator) :
    Except PlainError (Option Nat × RoceGenerator) :=
  if roce.rtoNs = 0 then .ok (none, roce)
  else if roce.sndUna < g.bytesEmitted then do
    let deadline ← okOr (checkedAdd 64 c.now roce.rtoNs) (.generatorTimeOverflow flow)
    return (some deadline, { roce with rtoDeadlineNs := deadline })
  else .ok (none, { roce with rtoDeadlineNs := 0 })

/-- Move the window to an acknowledgment; a NACK also goes back to it. -/
def roceAcknowledge (c : Ctx) (flow : FlowId) (acknowledgment : Nat) (nack : Bool)
    (g : FlowGeneratorState) (roce : RoceGenerator) : Except PlainError RoceWindow :=
  let stale :=
    if nack then decide (acknowledgment < roce.sndUna) else decide (acknowledgment ≤ roce.sndUna)
  if stale then .ok ⟨g, roce, none, none, none⟩
  else do
    let outstandingBefore := decide (roce.sndUna < g.bytesEmitted)
    let supersededNs :=
      if roce.rtoNs ≠ 0 ∧ outstandingBefore then some roce.rtoDeadlineNs else none
    let sndUna := max roce.sndUna acknowledgment
    let nextPsn := if nack then sndUna else max roce.nextPsn sndUna
    let (timerNs, roce) ← rearmRoceTimer c flow g { roce with sndUna, nextPsn }
    let (tickNs, g, roce) ← restartRocePacer c g roce
    return ⟨g, roce, supersededNs, timerNs, tickNs⟩

/-- The controller's reaction to feedback: frozen at the end, cut on an echoed mark. -/
def roceControl (c : Ctx) (froze feedback : Bool) (advance : DcqcnAdvance)
    (controller : DcqcnController) : DcqcnAdvance × DcqcnController :=
  let (advance, controller) :=
    if froze then
      let (settled, controller) := controller.settle c.now
      (advance.add settled, controller)
    else (advance, controller)
  if feedback then
    let (fed, controller) := controller.onFeedback c.now
    (advance.add fed, controller)
  else (advance, controller)

/-- What an ACK, a NACK or a timeout asks for. -/
structure RoceReaction where
  entry : HostEntry
  window : RoceWindow
  control : Option MechanismTransitionRecord
  record : MechanismTransitionRecord
  completedStage : Option Nat

/-- The state half of `host_roce_feedback_arrival`. -/
def roceFeedback (c : Ctx) (p : PacketDescriptor) (header : RoceAckHeader) (nack : Bool)
    (dataClass : Nat) (entry : HostEntry) : Except PlainError RoceReaction := do
  let (position, generator) ← entry.generatorFor c.node.id p.flow
  match generator.kind with
  | .roce roce =>
    let generator ← applyGeneratorFeedback c.node.id generator
    let before := Roce.SenderView.of generator roce
    let total := roce.pacer.totalBytes
    let (advance, controller) := dcqcnMaterialize roce.controller (decide (roce.sndUna ≥ total)) c.now
    require (header.acknowledgment ≤ generator.bytesEmitted) (.inconsistentRocePacket p.flow p.id)
    let window ← roceAcknowledge c p.flow header.acknowledgment nack generator
      { roce with controller }
    let dcqcn := decide (roce.congestionControl = .dcqcn)
    let finished := decide (roce.sndUna < total) && decide (window.roce.sndUna ≥ total)
    let froze := finished && dcqcn
    let feedback := header.ceEcho && decide (window.roce.sndUna < total) && dcqcn
    let (advance, after) :=
      roceControl c froze feedback (advance.getD DcqcnAdvance.none) window.roce.controller
    let control : Option MechanismTransitionRecord :=
      if feedback || froze || advance.appliedRateChange then
        some (.dcqcn ⟨c.event.key, c.node.id, p.flow, if feedback then .feedback else .advance,
          c.now, advance, froze, roce.controller, after⟩)
      else none
    let sender := { window.roce with controller := after }
    let generator := settleRoceSender window.generator sender window.generator.nextEmission.status
    let pfc := leaveParkedList entry.state.pfc dataClass position generator sender
    let isStage := (entry.state.stage position).isSome
    return {
      entry := (entry.setGenerator position generator).setPfc pfc
      window := { window with roce := sender }
      control
      record := roceSenderRecord c p.flow (if nack then .nack else .ack) none dataClass sender none
        (some header) none before generator
      completedStage := if finished && isStage then some header.acknowledgment else none }
  | _ => throw (.unknownGenerator c.node.id p.flow)

/-- Start the stages that a completed queue pair was waited for by. -/
def completeRoceStage (c : Ctx) (p : PacketDescriptor) (header : RoceAckHeader)
    (acknowledgment : Nat) : Prog Unit := do
  let delay ← unloadedRoundTripNs c p.flow header.acknowledgedBytes p.sizeBytes
  let entry ← getHost
  let (entry, causes) :=
    completeLocalSuccessors entry p.flow ⟨acknowledgment, header.echoedSentTimeNs, delay⟩ []
  setHost entry
  activateReadyCollectives c causes

/-- `host_roce_feedback_arrival`. -/
def hostRoceFeedbackArrival (c : Ctx) (p : PacketDescriptor) (header : RoceAckHeader)
    (nack : Bool) : Prog Unit := do
  let flow ← c.image.flow p.flow
  expectNode c flow.id flow.source
  recordArrival c p .feedback
  markTerminal c.event.payload
  let entry ← getHost
  let reaction ← roceFeedback c p header nack flow.priority entry
  setHost reaction.entry
  let token := reaction.window.roce.pacingTimerPayload
  Prog.each reaction.window.supersededNs (cancelSupersededTimer token)
  Prog.when c.full do
    pushMechanism? reaction.control
    pushMechanism reaction.record
  emitRoceTimers c token reaction.window.tickNs reaction.window.timerNs
  Prog.each reaction.completedStage (completeRoceStage c p header)

/-- The state half of `host_roce_timeout`; a superseded timer does nothing. -/
def roceTimeout (c : Ctx) (flow : FlowId) (dataClass : Nat) (entry : HostEntry) :
    Except PlainError (Option RoceReaction) := do
  let (position, generator) ← entry.generatorFor c.node.id flow
  match generator.kind with
  | .roce roce =>
    if roce.rtoNs ≠ 0 ∧ roce.sndUna < generator.bytesEmitted ∧ roce.rtoDeadlineNs = c.now ∧
        roce.pacingTimerPayload = c.event.payload then
      let before := Roce.SenderView.of generator roce
      let bound := saturatingAdd 64 c.now 1
      let (advance, controller) := dcqcnMaterialize roce.controller false bound
      let control := advanceRecord c flow bound advance roce.controller controller
      let deadline ← okOr (checkedAdd 64 c.now roce.rtoNs) (.generatorTimeOverflow flow)
      let (tickNs, generator, sender) ← restartRocePacer c generator
        { roce with controller, nextPsn := roce.sndUna, rtoDeadlineNs := deadline }
      let generator := settleRoceSender generator sender generator.nextEmission.status
      let pfc := leaveParkedList entry.state.pfc dataClass position generator sender
      return some {
        entry := (entry.setGenerator position generator).setPfc pfc
        window := ⟨generator, sender, none, some deadline, tickNs⟩
        control
        record := roceSenderRecord c flow .timeout none dataClass sender none none none before
          generator
        completedStage := none }
    else return none
  | _ => throw (.unknownGenerator c.node.id flow)

/-- `host_roce_timeout`. -/
def hostRoceTimeout (c : Ctx) : Prog Unit := do
  let token ← packet c.event.payload
  let dataClass ← imageFlowPriority c token.flow
  let entry ← getHost
  match ← roceTimeout c token.flow dataClass entry with
  | none => return ()
  | some reaction =>
    setHost reaction.entry
    Prog.when c.full do
      pushMechanism? reaction.control
      pushMechanism reaction.record
    emitRoceTimers c c.event.payload reaction.window.tickNs reaction.window.timerNs

/-- `host_retransmission_timeout`: a TCP timer, else the timer of a queue pair. -/
def hostRetransmissionTimeout (c : Ctx) : Prog Unit := do
  let entry ← getHost
  match expireTimer c entry with
  | some (flow, sequence, transition, entry) =>
    setHost entry
    hostTcpTimeout c flow sequence transition
  | none =>
    let token ← isRoceToken c.event.payload
    Prog.when token (hostRoceTimeout c)

/-! ## §4. The receiver. -/

/-- What an arriving data packet asks for. -/
structure RoceDelivery where
  entry : HostEntry
  reply : Option PacketDescriptor
  ready : Bool
  record : MechanismTransitionRecord
  causes : PendingCauses

/-- The acknowledgment a receiver sends back. -/
def roceReply (p : PacketDescriptor) (header : RoceDataHeader) (receiver : RoceReceiverState)
    (action : Roce.ReceiverAction) (payload : PayloadId) : PacketDescriptor :=
  let ack : RoceAckHeader :=
    ⟨receiver.expectedPsn, header.sentTimeNs, p.sizeBytes, p.congestionExperienced⟩
  ⟨payload, p.flow, receiver.ackSizeBytes, false,
    if action = .nack then .roceNack ack else .roceAck ack⟩

/-- Allocate the reply of an action that sends one, and claim the egress. -/
def roceAnswer (c : Ctx) (p : PacketDescriptor) (header : RoceDataHeader)
    (receiver : RoceReceiverState) (action : Roce.ReceiverAction) (entry : HostEntry) :
    Except PlainError (Option PacketDescriptor × Bool × HostEntry) :=
  if action.sendsFeedback then do
    let (payload, entry) ← entry.allocatePayload c
    let entry ← entry.countSourcedPackets c 1
    let (ready, entry) := entry.claim
    return (some (roceReply p header receiver action payload), ready, entry)
  else .ok (none, false, entry)

/-- The state half of `host_roce_data_arrival`. -/
def roceDelivery (c : Ctx) (p : PacketDescriptor) (header : RoceDataHeader) (entry : HostEntry) :
    Except PlainError RoceDelivery := do
  let unknown := PlainError.unknownGenerator c.node.id p.flow
  let receivers ← okOr entry.state.roceReceivers unknown
  let position ← okOr (receivers.findIdx? (·.flow == p.flow)) unknown
  let receiver ← okOr receivers[position]? unknown
  require ((checkedAdd 64 header.psn p.sizeBytes).any fun stop => stop ≤ receiver.totalBytes)
    (.inconsistentRocePacket p.flow p.id)
  let before := Roce.ReceiverView.of receiver
  let (action, receiver) := Roce.receive receiver header.psn p.sizeBytes c.now
  let entry :=
    { entry with
      state := { entry.state with roceReceivers := some (receivers.set position receiver) } }
  let (entry, causes) ← recordInboundProgress c.node.id entry p.flow header.psn p.sizeBytes
    (receiver.expectedPsn - before.expectedPsn) []
  let count ← countUp c.node.id entry.state.receivedPackets
  let entry := { entry with state := { entry.state with receivedPackets := count } }
  let (reply, ready, entry) ← roceAnswer c p header receiver action entry
  let record : MechanismTransitionRecord :=
    .roceReceiver {
      key := c.event.key
      node := c.node.id
      flow := p.flow
      totalBytes := receiver.totalBytes
      ackEveryPackets := receiver.ackEveryPackets
      nackIntervalNs := receiver.nackIntervalNs
      duplicateAck := receiver.duplicateAck
      ackSizeBytes := receiver.ackSizeBytes
      packetPsn := header.psn
      packetBytes := p.sizeBytes
      packetSentTimeNs := header.sentTimeNs
      packetRetransmission := header.retransmission
      packetCe := p.congestionExperienced
      action
      feedbackAcknowledgment := reply.map fun _ => receiver.expectedPsn
      feedbackPayload := reply.map (·.id)
      feedbackCeEcho := reply.map fun _ => p.congestionExperienced
      before
      after := .of receiver }
  return ⟨entry, reply, ready, record, causes⟩

/-- `host_roce_data_arrival`. -/
def hostRoceDataArrival (c : Ctx) (p : PacketDescriptor) (header : RoceDataHeader) :
    Prog Unit := do
  let flow ← c.image.flow p.flow
  expectNode c flow.id flow.target
  let entry ← getHost
  let delivery ← roceDelivery c p header entry
  setHost delivery.entry
  recordArrival c p .delivered
  markTerminal c.event.payload
  Prog.when c.full (pushMechanism delivery.record)
  Prog.each delivery.reply fun reply => do
    -- The acknowledged size travels in 32 bits.
    require (p.sizeBytes < width 32) (.inconsistentRocePacket p.flow p.id)
    sourcePacket c reply
    emitReady c delivery.ready reply.id
  activateReadyCollectives c delivery.causes

end Days
