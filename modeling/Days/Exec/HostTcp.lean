/-
  Days.Exec.HostTcp — TCP receiver, acknowledgments and timeouts (`scalar.rs`).
-/
import Days.Exec.HostCore

namespace Days

/-! ## §1. The receiver. -/

/-- Append a range to sorted ranges, merging it with an adjacent last one. -/
def mergeRange (merged : List TcpReceiveRange) (range : TcpReceiveRange) : List TcpReceiveRange :=
  match merged.getLast? with
  | some last =>
    if range.start ≤ last.stop then
      merged.dropLast ++ [{ last with stop := max last.stop range.stop }]
    else merged ++ [range]
  | none => [range]

/-- Advance the frontier over the ranges that reach it and keep the others. -/
def absorbRange (acc : Nat × List TcpReceiveRange) (range : TcpReceiveRange) :
    Nat × List TcpReceiveRange :=
  if range.start ≤ acc.1 then (max acc.1 range.stop, acc.2) else (acc.1, acc.2 ++ [range])

/-- `tcp_receive_range`. -/
def tcpReceiveRange (receiver : TcpReceiverState) (start stop : Nat) : TcpReceiverState :=
  if stop ≤ start ∨ stop ≤ receiver.nextExpectedSequence then receiver
  else
    let arrived : TcpReceiveRange := ⟨start, stop⟩
    let sorted := (receiver.outOfOrder ++ [arrived]).insertionSort fun a b =>
      a.start < b.start ∨ a.start = b.start ∧ a.stop ≤ b.stop
    let merged := sorted.foldl mergeRange []
    let (next, keep) := merged.foldl absorbRange (receiver.nextExpectedSequence, [])
    { receiver with nextExpectedSequence := next, outOfOrder := keep }

/-- The state half of `host_tcp_data_arrival`: the acknowledgment it sends back. -/
def tcpDataArrival (c : Ctx) (p : PacketDescriptor) (header : TcpDataHeader) (entry : HostEntry) :
    Except PlainError (PacketDescriptor × HostEntry × PendingCauses) := do
  let position ← okOr (entry.index.firstReceiver p.flow) (.unknownGenerator c.node.id p.flow)
  let receiver ← okOr entry.state.tcpReceivers[position]? (.unknownGenerator c.node.id p.flow)
  let stop ← okOr (checkedAdd 64 header.sequence p.sizeBytes) (.counterOverflow c.node.id)
  let received := tcpReceiveRange receiver header.sequence stop
  let advanced := received.nextExpectedSequence - receiver.nextExpectedSequence
  let entry :=
    { entry with
      state := { entry.state with tcpReceivers := entry.state.tcpReceivers.set position received } }
  let (entry, causes) ←
    recordInboundProgress c.node.id entry p.flow header.sequence p.sizeBytes advanced []
  let (payload, entry) ← entry.allocatePayload c
  let count ← countUp c.node.id entry.state.receivedPackets
  let entry := { entry with state := { entry.state with receivedPackets := count } }
  let entry ← entry.countSourcedPackets c 1
  let ack : PacketDescriptor :=
    ⟨payload, p.flow, received.ackSizeBytes, false,
      .tcpAck ⟨received.nextExpectedSequence, p.sizeBytes, header.sentTimeNs⟩⟩
  return (ack, entry, causes)

/-- Claim an idle egress after its packet has been queued. -/
def claimReady : Prog Bool := do
  let entry ← getHost
  let (ready, entry) := entry.claim
  setHost entry
  return ready

/-- Check that the packet ends at this node. -/
def expectNode (c : Ctx) (flow : FlowId) (expected : NodeId) : Except PlainError Unit :=
  if expected = c.node.id then .ok () else .error (.flowRouteMiss flow c.node.id)

/-- `host_tcp_data_arrival`. -/
def hostTcpDataArrival (c : Ctx) (p : PacketDescriptor) (header : TcpDataHeader) : Prog Unit := do
  let flow ← c.image.flow p.flow
  expectNode c flow.id flow.target
  let entry ← getHost
  let (ack, entry, causes) ← tcpDataArrival c p header entry
  setHost entry
  recordArrival c p .delivered
  markTerminal c.event.payload
  sourcePacket c ack
  let ready ← claimReady
  emitReady c ready ack.id
  activateReadyCollectives c causes

/-! ## §2. The sender. -/

/-- `apply_generator_feedback`: every generator kind only counts the arrival. -/
def applyGeneratorFeedback (node : NodeId) (g : FlowGeneratorState) :
    Except PlainError FlowGeneratorState := do
  let arrivals ← countUp node g.feedback.arrivals
  return { g with feedback := { g.feedback with arrivals } }

/-- What an acknowledgment makes the sender do. -/
structure TcpAckOutcome where
  retransmit : Option Nat
  fill : Bool
  acknowledgedThrough : Option Nat
  input : Option TcpTransitionInput
  superseded : Option TcpTimerState
  tcp : TcpGenerator

/-- An acknowledgment of new bytes. -/
def onNewAcknowledgment (c : Ctx) (tcp : TcpGenerator) (header : TcpAckHeader)
    (acknowledgment : Nat) : TcpAckOutcome :=
  let acknowledgedBytes := acknowledgment - tcp.highestAck
  let rttSample := max (c.now - header.echoedSentTimeNs) 1
  let (srttNs, rttVarNs, rtoNs) := updateRtoNs tcp.srttNs tcp.rttVarNs rttSample
  let control := tcp.control.onNewAck acknowledgedBytes c.now rttSample acknowledgment
  { retransmit :=
      if control.phase = .fastRecovery ∧ acknowledgment < tcp.recoveryHighSequence then
        some acknowledgment
      else none
    fill := decide (acknowledgment < tcp.totalBytes)
    acknowledgedThrough := some acknowledgment
    input := some (.newAck acknowledgedBytes rttSample tcp.bytesInFlight acknowledgment)
    superseded := tcp.activeTimer
    tcp :=
      { tcp with
        srttNs
        rttVarNs
        rtoNs
        control
        bytesInFlight := tcp.bytesInFlight - acknowledgedBytes
        highestAck := acknowledgment
        duplicateAcks := 0
        activeTimer := none } }

/-- A duplicate acknowledgment with bytes in flight. -/
def onDuplicateAcknowledgment (c : Ctx) (tcp : TcpGenerator) : TcpAckOutcome :=
  let (fastRetransmit, control) := tcp.control.onDuplicateAck tcp.bytesInFlight c.now
  let input := some (.duplicateAck tcp.bytesInFlight tcp.nextSequence)
  let duplicateAcks := control.duplicateAcks
  if fastRetransmit then
    { retransmit := some tcp.highestAck
      fill := false
      acknowledgedThrough := none
      input
      superseded := tcp.activeTimer
      tcp :=
        { tcp with
          duplicateAcks
          recoveryHighSequence := tcp.nextSequence
          control := control.setRecoveryHighSequence tcp.nextSequence
          activeTimer := none } }
  else
    { retransmit := none
      fill := decide (duplicateAcks > 3)
      acknowledgedThrough := none
      input
      superseded := none
      tcp := { tcp with duplicateAcks, control } }

def onAcknowledgment (c : Ctx) (tcp : TcpGenerator) (header : TcpAckHeader) : TcpAckOutcome :=
  let acknowledgment := min header.acknowledgment tcp.nextSequence
  if acknowledgment > tcp.highestAck then onNewAcknowledgment c tcp header acknowledgment
  else if acknowledgment = tcp.highestAck ∧ tcp.highestAck < tcp.totalBytes ∧
      tcp.bytesInFlight ≠ 0 then onDuplicateAcknowledgment c tcp
  else ⟨none, false, none, none, none, tcp⟩

/-- The sum of one packet's delays over a route. -/
def routeDelay (c : Ctx) (flow : FlowId) (bytes : Nat) :
    List LinkId → Nat → Except PlainError Nat
  | [], total => .ok total
  | id :: rest, total => do
    let link ← c.image.link id
    let delay ← okOr (link.delayNs bytes).toOption (.generatorTimeOverflow flow)
    let total ← okOr (checkedAdd 64 total delay) (.generatorTimeOverflow flow)
    routeDelay c flow bytes rest total

/-- `unloaded_round_trip_ns`. -/
def unloadedRoundTripNs (c : Ctx) (flow : FlowId) (dataBytes ackBytes : Nat) :
    Except PlainError Nat := do
  let descriptor ← c.image.flow flow
  let forward ← routeDelay c flow dataBytes descriptor.route 0
  routeDelay c flow ackBytes descriptor.reverseRoute forward

/-- The sender's answer to an acknowledgment and the stages it completes. -/
structure TcpAckPlan where
  outcome : TcpAckOutcome
  transition : Option TcpTransitionRecord
  scheduledSendPending : Bool
  causes : PendingCauses

/-- The state half of `host_tcp_ack_arrival`. -/
def tcpAckArrival (c : Ctx) (p : PacketDescriptor) (header : TcpAckHeader) (entry : HostEntry) :
    Except PlainError (TcpAckPlan × HostEntry) := do
  let (position, generator) ← entry.generatorFor c.node.id p.flow
  match generator.kind with
  | .tcp tcp =>
    let generator ← applyGeneratorFeedback c.node.id generator
    let outcome := onAcknowledgment c tcp header
    let flight := outcome.tcp.bytesInFlight
    let generator :=
      { generator with
        feedback :=
          { generator.feedback with outstandingBytes := flight, unacknowledgedBytes := flight }
        kind := .tcp outcome.tcp }
    let isStage := (entry.state.stage position).isSome
    let entry := entry.setGenerator position generator
    let transition := outcome.input.map fun input =>
      (⟨c.event.key, c.node.id, p.flow, tcp.mssBytes, input, tcp.control, outcome.tcp.control⟩ :
        TcpTransitionRecord)
    let pending := decide (generator.nextEmission.status = .scheduled)
    let completed := outcome.acknowledgedThrough.filter fun acknowledged =>
      isStage && decide (acknowledged ≥ tcp.totalBytes)
    match completed with
    | some acknowledged =>
      let delay ← unloadedRoundTripNs c p.flow header.acknowledgedBytes p.sizeBytes
      let (entry, causes) :=
        completeLocalSuccessors entry p.flow ⟨acknowledged, header.echoedSentTimeNs, delay⟩ []
      return (⟨outcome, transition, pending, causes⟩, entry)
    | none => return (⟨outcome, transition, pending, []⟩, entry)
  | _ => throw (.unknownGenerator c.node.id p.flow)

/-- `host_tcp_ack_arrival`. -/
def hostTcpAckArrival (c : Ctx) (p : PacketDescriptor) (header : TcpAckHeader) : Prog Unit := do
  let flow ← c.image.flow p.flow
  expectNode c flow.id flow.source
  recordArrival c p .feedback
  markTerminal c.event.payload
  let entry ← getHost
  let (plan, entry) ← tcpAckArrival c p header entry
  setHost entry
  let outcome := plan.outcome
  Prog.each outcome.superseded fun timer => cancelSupersededTimer timer.attempt timer.deadlineNs
  Prog.each outcome.acknowledgedThrough (acknowledgeTcpSegments p.flow)
  Prog.when c.full (Prog.each plan.transition pushTcp)
  Prog.when (plan.transition.isSome && !(plan.scheduledSendPending && outcome.retransmit.isNone)) do
    let attempts ← prepareTcpAttempts c p.flow outcome.retransmit
      (outcome.fill && !plan.scheduledSendPending) plan.scheduledSendPending
    installTcpAttempts c attempts
  activateReadyCollectives c plan.causes

/-! ## §3. Timeouts. -/

/-- The running timer of a generator, when it is the one that fired. -/
def firedTimer (c : Ctx) (g : FlowGeneratorState) : Option (TcpGenerator × TcpTimerState) :=
  match g.kind with
  | .tcp tcp =>
    (tcp.activeTimer.filter fun timer =>
      timer.attempt == c.event.payload && timer.deadlineNs == c.now).map fun timer => (tcp, timer)
  | _ => none

/-- The first generator whose timer fired, with its sender after the timeout. -/
def expireTimer (c : Ctx) (entry : HostEntry) :
    Option (FlowId × Nat × TcpTransitionRecord × HostEntry) := do
  let position ← entry.state.generators.findIdx? fun g => (firedTimer c g).isSome
  let generator ← entry.state.generators[position]?
  let (tcp, timer) ← firedTimer c generator
  let control := tcp.control.onTimeout tcp.bytesInFlight
  let expired :=
    { tcp with
      activeTimer := none
      control
      rtoNs := min (saturatingMul 64 timer.rtoNs 2) 60000000000 }
  let record : TcpTransitionRecord :=
    ⟨c.event.key, c.node.id, generator.flow, tcp.mssBytes, .timeout tcp.bytesInFlight, tcp.control,
      control⟩
  return (generator.flow, tcp.highestAck, record,
    entry.setGenerator position { generator with kind := .tcp expired })

/-- A retransmission timeout of a TCP sender. -/
def hostTcpTimeout (c : Ctx) (flow : FlowId) (sequence : Nat) (transition : TcpTransitionRecord) :
    Prog Unit := do
  Prog.when c.full (pushTcp transition)
  let plan ← prepareTcpAttempts c flow (some sequence) false false
  installTcpAttempts c plan

end Days
