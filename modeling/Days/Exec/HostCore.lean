/-
  Days.Exec.HostCore — host handlers for sourcing, service and stage timers
  (`scalar.rs`).
-/
import Days.Exec.HostSend

namespace Days

/-! ## §1. Sourced packets. -/

/-- Claim an idle egress; the caller emits the `TxReady` later. -/
def HostEntry.claim (e : HostEntry) : Bool × HostEntry :=
  (e.idle, e.setReadyPending (e.state.txReadyPending || e.idle))

/-- The departure after this one, before the stop time is applied. -/
def nextDeparture (c : Ctx) (flow : FlowId) (constant : ConstantGenerator) (bytesEmitted : Nat) :
    Except PlainError (Option Nat) :=
  match constant.termination with
  | .bytes total =>
    if bytesEmitted < total then do
      let next ← okOr (checkedAdd 64 c.now constant.intervalNs) (.generatorTimeOverflow flow)
      return some next
    else .ok none
  | .durationNs duration => do
    let stop ← okOr (checkedAdd 64 constant.firstDepartureNs duration) (.generatorTimeOverflow flow)
    let candidate ← okOr (checkedAdd 64 c.now constant.intervalNs) (.generatorTimeOverflow flow)
    return if candidate < stop then some candidate else none

/-- Whether the event is the emission its generator has scheduled. -/
def FlowGeneratorState.expects (g : FlowGeneratorState) (c : Ctx) : Bool :=
  decide (g.nextEmission.status = .scheduled) && g.nextEmission.departureTimeNs == c.now &&
    g.nextEmission.payload == c.event.payload

/-- The generator update of `host_packet_arrival`: the next packet, if one follows
before the stop time. -/
def constantEmission (c : Ctx) (p : PacketDescriptor) (entry : HostEntry) :
    Except PlainError (Option (PacketDescriptor × Nat) × HostEntry) := do
  let (position, generator) ← entry.generatorFor c.node.id p.flow
  require (generator.expects c) (.unexpectedGeneratorEmission c.node.id p.flow c.event.payload)
  let emitted ← countUp c.node.id generator.packetsEmitted
  let bytes ← okOr (checkedAdd 64 generator.bytesEmitted p.sizeBytes) (.counterOverflow c.node.id)
  let generator := { generator with packetsEmitted := emitted, bytesEmitted := bytes }
  match generator.kind with
  | .constant constant =>
    let candidate ← nextDeparture c p.flow constant bytes
    match candidate.filter (· ≤ c.image.stopTimeNs) with
    | some departure =>
      let (payload, entry) ← entry.allocatePayload c
      let generator := { generator with nextEmission := ⟨.scheduled, departure, payload⟩ }
      let next : PacketDescriptor := ⟨payload, p.flow, constant.packetSizeBytes, false, .data⟩
      return (some (next, departure), entry.setGenerator position generator)
    | none =>
      let status : GeneratorStatus := if candidate.isSome then .stopped else .finished
      let generator :=
        { generator with
          nextEmission :=
            { generator.nextEmission with
              status
              departureTimeNs := candidate.getD generator.nextEmission.departureTimeNs } }
      return (none, entry.setGenerator position generator)
  -- The source has `unreachable!` here: no other kind is sourced by an arrival.
  | _ => throw (.unexpectedGeneratorEmission c.node.id p.flow c.event.payload)

/-- `host_preloaded_packet_arrival`. -/
def hostPreloadedPacketArrival (c : Ctx) : Prog Unit := do
  let p ← packet c.event.payload
  setSourceTime c.event.payload c.now
  let entry ← getHost
  let entry ← entry.countSourcedPackets c 1
  let (ready, entry) := entry.claim
  setHost entry
  enqueueSourcePacket c.event.payload
  recordSourced p
  emitReady c ready c.event.payload

/-- The state half of `host_tcp_initial_send`. -/
def tcpInitialSend (c : Ctx) (p : PacketDescriptor) (header : TcpDataHeader) (entry : HostEntry) :
    Except PlainError HostEntry := do
  let (position, generator) ← entry.generatorFor c.node.id p.flow
  match generator.kind with
  | .tcp tcp =>
    require (generator.nextEmission.status = .scheduled ∧ generator.nextEmission.payload = p.id ∧
        generator.nextEmission.departureTimeNs = c.now ∧ header.sequence = tcp.nextSequence ∧
        header.sentTimeNs = c.now ∧ !header.retransmission)
      (.unexpectedGeneratorEmission c.node.id p.flow p.id)
    let emitted ← countUp c.node.id generator.packetsEmitted
    let bytes ← okOr (checkedAdd 64 generator.bytesEmitted p.sizeBytes) (.counterOverflow c.node.id)
    let next ← okOr (checkedAdd 64 tcp.nextSequence p.sizeBytes) (.counterOverflow c.node.id)
    let flight ← okOr (checkedAdd 64 tcp.bytesInFlight p.sizeBytes) (.counterOverflow c.node.id)
    let tcp := { tcp with nextSequence := next, bytesInFlight := flight, lastAttempt := p.id }
    let generator :=
      { generator with
        packetsEmitted := emitted
        bytesEmitted := bytes
        feedback :=
          { generator.feedback with outstandingBytes := flight, unacknowledgedBytes := flight }
        nextEmission := { generator.nextEmission with status := .blocked }
        kind := .tcp tcp }
    (entry.setGenerator position generator).countSourcedPackets c 1
  | _ => throw (.unexpectedGeneratorEmission c.node.id p.flow p.id)

/-- `host_tcp_initial_send`. -/
def hostTcpInitialSend (c : Ctx) (p : PacketDescriptor) (header : TcpDataHeader) : Prog Unit := do
  setSourceTime c.event.payload c.now
  let entry ← getHost
  let entry ← tcpInitialSend c p header entry
  setHost entry
  seedTcpSegment p
  enqueueSourcePacket p.id
  recordSourced p
  let plan ← prepareTcpAttempts c p.flow none true false
  installTcpAttempts c plan

/-- Create the next packet of a constant source and its arrival. -/
def scheduleNext (c : Ctx) (next : Option (PacketDescriptor × Nat)) : Prog Unit :=
  Prog.each next fun (p, departure) => do
    insertPacket p (some departure)
    emit c.node.id .packetArrival p.id departure

/-- A generator emission of a constant source. -/
def hostConstantEmission (c : Ctx) (p : PacketDescriptor) : Prog Unit := do
  setSourceTime c.event.payload c.now
  let entry ← getHost
  let (next, entry) ← constantEmission c p entry
  let entry ← entry.countSourcedPackets c 1
  let (ready, entry) := entry.claim
  setHost entry
  enqueueSourcePacket c.event.payload
  recordSourced p
  scheduleNext c next
  emitReady c ready c.event.payload

/-- `host_packet_arrival`. -/
def hostPacketArrival (c : Ctx) : Prog Unit := do
  let p ← packet c.event.payload
  let entry ← getHost
  match entry.index.firstGenerator p.flow with
  | none => hostPreloadedPacketArrival c
  | some _ =>
    match p.kind with
    | .tcpData header => hostTcpInitialSend c p header
    | _ => hostConstantEmission c p

/-! ## §2. Service. -/

/-- The first queued packet of an unpaused class. -/
def hostEligibleBySearch (c : Ctx) (pfc : HostPfcState) : Nat → List PayloadId → Prog (Option Nat)
  | _, [] => pure none
  | position, payload :: rest => do
    let p ← packet payload
    let priority ← c.image.packetPfcClass p
    if !pfc.isPaused priority then return some position
    else hostEligibleBySearch c pfc (position + 1) rest

/-- `host_pfc_first_eligible`. -/
def hostPfcFirstEligible (c : Ctx) (entry : HostEntry) : Prog (Option Nat) :=
  match entry.state.pfc with
  | none => pure (if entry.state.queue.isEmpty then none else some 0)
  | some pfc => hostEligibleBySearch c pfc 0 entry.state.queue

/-- Put a packet taken from the queue on the host's link. -/
def hostStartService (c : Ctx) (egress : LinkId) (payload : PayloadId) : Prog Unit := do
  let link ← c.image.link egress
  require (link.source = c.node.id) (.linkSourceMismatch link.id c.node.id link.source)
  startTransmission payload
  let p ← packet payload
  let arrivalTimeNs ← ofTime (link.arrivalTimeNs c.now p.sizeBytes)
  let departureTimeNs ← okOr (checkedSub arrivalTimeNs link.propagationNs) (.time .arrivalOverflow)
  emit c.node.id .txComplete payload departureTimeNs
  let p ← packet payload
  let target ← c.image.packetRemoteTarget p link.id
  emit target .remoteArrival payload arrivalTimeNs

/-- `host_tx_ready`: without PFC the head is served, with PFC the first packet
of an unpaused class. -/
def hostTxReady (c : Ctx) : Prog Unit := do
  let entry ← getHost
  Prog.check (entry.state.inService = none) (.hostAlreadyTransmitting c.node.id)
  let entry := entry.setReadyPending false
  match ← hostPfcFirstEligible c entry with
  | none => setHost entry
  | some position =>
    let payload ← okOr entry.state.queue[position]? (.invalidSchedulerState c.node.id)
    setHost
      { entry with
        state :=
          { entry.state with
            queue := entry.state.queue.eraseIdx position
            inService := some payload } }
    hostStartService c entry.state.egressLink payload

/-- Free the service slot. -/
def HostEntry.release (e : HostEntry) (departed : Nat) : HostEntry :=
  { e with state := { e.state with inService := none, departedPackets := departed } }

/-- The second half of `host_tx_complete`: wake the egress if a packet is eligible. -/
def hostFinishService (c : Ctx) (entry : HostEntry) (eligible : Bool) : Prog Unit := do
  let ready := eligible && !entry.state.txReadyPending
  setHost (entry.setReadyPending (entry.state.txReadyPending || ready))
  let p ← header c.event.payload
  recordDeparture c p
  finishTransmission c.event.payload
  emitReady c ready c.event.payload

/-- `host_tx_complete`. -/
def hostTxComplete (c : Ctx) : Prog Unit := do
  let entry ← getHost
  Prog.check (entry.state.inService = some c.event.payload)
    (.unexpectedTxComplete c.node.id entry.state.inService c.event.payload)
  let departed ← countUp c.node.id entry.state.departedPackets
  let eligible ← hostPfcFirstEligible c (entry.release departed)
  hostFinishService c (entry.release departed) eligible.isSome

/-! ## §3. Stage timers. -/

/-- Finish a stage whose timer is the scheduled one. -/
def finishStage (c : Ctx) (flow : FlowId) (position : Nat) (generator : FlowGeneratorState)
    (durationNs : Nat) (entry : HostEntry) : HostEntry × PendingCauses :=
  let entry :=
    entry.setGenerator position
      { generator with nextEmission := { generator.nextEmission with status := .finished } }
  completeLocalSuccessors entry flow ⟨0, c.now - durationNs, durationNs⟩ []

/-- The state half of `host_compute_timer`. -/
def computeTimer (c : Ctx) (flow : FlowId) (entry : HostEntry) :
    Except PlainError (HostEntry × PendingCauses) := do
  let (position, generator) ← entry.generatorFor c.node.id flow
  require (generator.expects c) (.unexpectedGeneratorEmission c.node.id flow c.event.payload)
  match entry.state.stage position with
  | some { role := .compute compute, .. } =>
    return finishStage c flow position generator compute.durationNs entry
  | _ => throw (.unexpectedGeneratorEmission c.node.id flow c.event.payload)

/-- `host_compute_timer`. -/
def hostComputeTimer (c : Ctx) (flow : FlowId) : Prog Unit := do
  let entry ← getHost
  let (entry, causes) ← computeTimer c flow entry
  setHost entry
  markTerminal c.event.payload
  activateReadyCollectives c causes

/-- The state half of `host_notify_timer`: also the lane delay of the notice. -/
def notifyTimer (c : Ctx) (flow : FlowId) (entry : HostEntry) :
    Except PlainError (Nat × HostEntry × PendingCauses) := do
  let (position, generator) ← entry.generatorFor c.node.id flow
  match generator.kind with
  | .constant constant =>
    require (generator.expects c) (.unexpectedGeneratorEmission c.node.id flow c.event.payload)
    let generator :=
      { generator with packetsEmitted := 1, bytesEmitted := constant.packetSizeBytes }
    return (constant.firstDepartureNs,
      finishStage c flow position generator constant.intervalNs entry)
  | _ => throw (.unexpectedGeneratorEmission c.node.id flow c.event.payload)

/-- `host_notify_timer`. -/
def hostNotifyTimer (c : Ctx) (flow : FlowId) : Prog Unit := do
  let entry ← getHost
  let (laneNs, entry, causes) ← notifyTimer c flow entry
  setHost entry
  let descriptor ← c.image.flow flow
  let arrivalNs ← okOr (checkedAdd 64 c.now laneNs) (.time .arrivalOverflow)
  emit descriptor.target .remoteArrival c.event.payload arrivalNs
  activateReadyCollectives c causes

/-- `host_notify_arrival`. -/
def hostNotifyArrival (c : Ctx) (p : PacketDescriptor) : Prog Unit := do
  let entry ← getHost
  let (entry, causes) ←
    recordInboundProgress c.node.id entry p.flow 0 p.sizeBytes p.sizeBytes []
  setHost entry
  markTerminal c.event.payload
  activateReadyCollectives c causes

end Days
