/-
  Days.Exec.HostSend — how a host puts packets into its egress queue and starts
  stages (`scalar.rs`).
-/
import Days.Exec.Stage
import Days.Exec.Switch

namespace Days

/-! ## §1. The egress queue. -/

/-- Whether a queued packet stays in front of one sourced at `timeNs`. -/
def sourceBefore (timeNs : Nat) (flow : FlowId) (id : PayloadId) :
    Option (Option Nat × FlowId × PayloadId) → Bool
  | none => false
  | some (none, _, _) => true
  | some (some queuedTime, queuedFlow, queuedId) =>
    decide (queuedTime < timeNs ∨ queuedTime = timeNs ∧
      (queuedFlow < flow ∨ queuedFlow = flow ∧ queuedId ≤ id))

def sourceKeys : List PayloadId → Prog (List (Option (Option Nat × FlowId × PayloadId)))
  | [] => pure []
  | id :: rest => do
    let key ← sourceKey id
    let rest ← sourceKeys rest
    return key :: rest

/-- Behind the last queued packet that stays in front. -/
def sourcePosition (timeNs : Nat) (flow : FlowId) (id : PayloadId)
    (keys : List (Option (Option Nat × FlowId × PayloadId))) : Nat :=
  keys.length - (keys.reverse.takeWhile fun key => !sourceBefore timeNs flow id key).length

/-- `enqueue_source_packet`: in order of source time, flow and id. -/
def enqueueSourcePacket (payload : PayloadId) : Prog Unit := do
  let p ← packet payload
  let key ← sourceKey payload
  let sourceTimeNs ← okOr (key.bind (·.1)) (.unknownPacket payload)
  let entry ← getHost
  let keys ← sourceKeys entry.state.queue
  let position := sourcePosition sourceTimeNs p.flow p.id keys
  setHost
    { entry with state := { entry.state with queue := entry.state.queue.insertIdx position payload } }

/-- Put a new packet into the store and the queue, and count it. -/
def sourcePacket (c : Ctx) (p : PacketDescriptor) : Prog Unit := do
  insertPacket p (some c.now)
  enqueueSourcePacket p.id
  recordSourced p

/-- Emit the `TxReady` a claimed egress waits for. -/
def emitReady (c : Ctx) (ready : Bool) (payload : PayloadId) : Prog Unit :=
  Prog.when ready (emit c.node.id .txReady payload c.now)

/-! ## §2. TCP attempts. -/

structure TcpSendPlan where
  packets : List PacketDescriptor
  timer : Option TcpTimerState

/-- A sender while attempts are being prepared. -/
structure TcpSending where
  entry : HostEntry
  generator : FlowGeneratorState
  tcp : TcpGenerator
  packets : List PacketDescriptor

def tcpDataPacket (id : PayloadId) (flow : FlowId) (sizeBytes sequence nowNs : Nat)
    (retransmission : Bool) : PacketDescriptor :=
  ⟨id, flow, sizeBytes, false, .tcpData ⟨sequence, nowNs, retransmission⟩⟩

/-- Send the requested segment again. -/
def retransmitAttempt (c : Ctx) (flow : FlowId) (s : TcpSending) (sequence sizeBytes : Nat) :
    Except PlainError TcpSending := do
  let (payload, entry) ← s.entry.allocatePayload c
  return { s with
    entry
    tcp := { s.tcp with lastAttempt := payload }
    packets := s.packets ++ [tcpDataPacket payload flow sizeBytes sequence c.now true] }

/-- The `fill_window` loop; every segment advances the sequence, so the bytes
still to send bound it. -/
def fillWindow (c : Ctx) (flow : FlowId) : Nat → TcpSending → Except PlainError TcpSending
  | 0, s => .ok s
  | fuel + 1, s =>
    let tcp := s.tcp
    let allowance := tcp.control.cwndBytes - tcp.bytesInFlight
    if allowance = 0 ∨ tcp.nextSequence ≥ tcp.totalBytes then .ok s
    else
      let sizeBytes := min (min tcp.mssBytes (tcp.totalBytes - tcp.nextSequence)) allowance
      if sizeBytes = 0 then .ok s
      else do
        let (payload, entry) ← s.entry.allocatePayload c
        let next ← okOr (checkedAdd 64 tcp.nextSequence sizeBytes) (.counterOverflow c.node.id)
        let flight ← okOr (checkedAdd 64 tcp.bytesInFlight sizeBytes) (.counterOverflow c.node.id)
        let emitted ← countUp c.node.id s.generator.packetsEmitted
        let bytes ← okOr (checkedAdd 64 s.generator.bytesEmitted sizeBytes)
          (.counterOverflow c.node.id)
        fillWindow c flow fuel
          { entry
            generator := { s.generator with packetsEmitted := emitted, bytesEmitted := bytes }
            tcp := { tcp with nextSequence := next, bytesInFlight := flight, lastAttempt := payload }
            packets :=
              s.packets ++ [tcpDataPacket payload flow sizeBytes tcp.nextSequence c.now false] }

/-- Install a retransmission timer when bytes are in flight and none runs. -/
def installTimer (c : Ctx) (flow : FlowId) (preserve : Bool) (tcp : TcpGenerator) :
    Except PlainError (Option TcpTimerState × TcpGenerator) :=
  if !preserve && tcp.activeTimer.isNone && tcp.bytesInFlight != 0 then do
    let generation ← countUp c.node.id tcp.timerGeneration
    let deadlineNs ← okOr (checkedAdd 64 c.now tcp.rtoNs) (.generatorTimeOverflow flow)
    let timer : TcpTimerState := ⟨tcp.lastAttempt, tcp.highestAck, deadlineNs, generation, tcp.rtoNs⟩
    return (some timer, { tcp with timerGeneration := generation, activeTimer := some timer })
  else .ok (none, tcp)

/-- Write a TCP sender back into its generator. -/
def settleTcp (preserve : Bool) (tcp : TcpGenerator) (g : FlowGeneratorState) :
    FlowGeneratorState :=
  { g with
    feedback :=
      { g.feedback with
        outstandingBytes := tcp.bytesInFlight
        unacknowledgedBytes := tcp.bytesInFlight }
    nextEmission :=
      if preserve then g.nextEmission
      else { g.nextEmission with
        status := if tcp.highestAck ≥ tcp.totalBytes then .finished else .blocked }
    kind := .tcp tcp }

/-- The retransmission that was asked for, unless everything has been sent. -/
def retransmitFirst (c : Ctx) (flow : FlowId) (retransmit : Option (Nat × Nat)) (s : TcpSending) :
    Except PlainError TcpSending :=
  match retransmit with
  | some (sequence, sizeBytes) =>
    if sequence < s.tcp.totalBytes then retransmitAttempt c flow s sequence sizeBytes else .ok s
  | none => .ok s

def fillIf (c : Ctx) (flow : FlowId) (fill : Bool) (s : TcpSending) :
    Except PlainError TcpSending :=
  if fill then fillWindow c flow (s.tcp.totalBytes - s.tcp.nextSequence) s else .ok s

/-- The state half of `prepare_tcp_attempts`. -/
def tcpAttempts (c : Ctx) (flow : FlowId) (retransmit : Option (Nat × Nat)) (fill preserve : Bool)
    (entry : HostEntry) : Except PlainError (TcpSendPlan × HostEntry) := do
  let (position, generator) ← entry.generatorFor c.node.id flow
  match generator.kind with
  | .tcp tcp =>
    let s ← retransmitFirst c flow retransmit ⟨entry, generator, tcp, []⟩
    let s ← fillIf c flow fill s
    let (timer, tcp) ← installTimer c flow preserve s.tcp
    let entry := s.entry.setGenerator position (settleTcp preserve tcp s.generator)
    let entry ← entry.countSourcedPackets c s.packets.length
    return (⟨s.packets, timer⟩, entry)
  | _ => throw (.unknownGenerator c.node.id flow)

def seedTcpSegments : List PacketDescriptor → Prog Unit
  | [] => pure ()
  | p :: rest => do
    seedTcpSegment p
    seedTcpSegments rest

/-- The segment a retransmission would repeat. -/
def retransmitSegment (flow : FlowId) (sequence : Option Nat) : Prog (Option (Nat × Nat)) :=
  match sequence with
  | none => pure none
  | some sequence => do
    match ← tcpSegment flow sequence with
    | some segment => return some (sequence, segment.sizeBytes)
    | none => Prog.fail (.missingTcpSegment flow sequence)

/-- `prepare_tcp_attempts`. -/
def prepareTcpAttempts (c : Ctx) (flow : FlowId) (retransmitSequence : Option Nat)
    (fill preserve : Bool) : Prog TcpSendPlan := do
  let retransmit ← retransmitSegment flow retransmitSequence
  let entry ← getHost
  let (plan, entry) ← tcpAttempts c flow retransmit fill preserve entry
  setHost entry
  seedTcpSegments plan.packets
  return plan

def sourcePackets (c : Ctx) : List PacketDescriptor → Prog Unit
  | [] => pure ()
  | p :: rest => do
    sourcePacket c p
    sourcePackets c rest

/-- Claim an idle egress that has something to send. -/
def claimQueued : Prog (Option PayloadId) := do
  let entry ← getHost
  let ready := if entry.idle then entry.state.queue.head? else none
  setHost (entry.setReadyPending (entry.state.txReadyPending || ready.isSome))
  return ready

def emitTimer (c : Ctx) (timer : Option TcpTimerState) : Prog Unit :=
  Prog.each timer fun timer =>
    emit c.node.id .retransmissionTimeout timer.attempt timer.deadlineNs

/-- `install_tcp_attempts`. -/
def installTcpAttempts (c : Ctx) (plan : TcpSendPlan) : Prog Unit := do
  sourcePackets c plan.packets
  let ready ← claimQueued
  emitTimer c plan.timer
  Prog.each ready fun payload => emit c.node.id .txReady payload c.now

/-! ## §3. Starting stages. -/

/-- `start_roce_stage`: arm the pacer of the queue pair now. -/
def startRoceStage (c : Ctx) (flow : FlowId) (cause : PendingCollectiveProgress) (ordinal : Nat) :
    Prog Unit := do
  let entry ← getHost
  let (position, generator) ← entry.generatorFor c.node.id flow
  match generator.kind with
  | .roce roce =>
    let roce :=
      { roce with pacer := { roce.pacer with firstPacingTimeNs := c.now }, pacerArmed := true }
    let generator :=
      { generator with
        nextEmission := ⟨Roce.armedStatus roce, c.now, roce.pacingTimerPayload⟩
        kind := .roce roce }
    setHost (entry.setGenerator position generator)
    pushStageProgress c flow cause ordinal true
    emit c.node.id .pacingTimer roce.pacingTimerPayload c.now
  | _ => Prog.fail (.plain (.unexpectedGeneratorEmission c.node.id flow c.event.payload))

/-- A token for a deadline that is not after the stop. -/
def stageToken (c : Ctx) (deadlineNs : Nat) (entry : HostEntry) :
    Except PlainError (Option PayloadId × HostEntry) :=
  if deadlineNs ≤ c.image.stopTimeNs then do
    let (payload, entry) ← entry.allocatePayload c
    return (some payload, entry)
  else .ok (none, entry)

/-- The state half of `start_compute_stage`. -/
def scheduleStageToken (c : Ctx) (flow : FlowId) (deadlineNs : Nat) (entry : HostEntry) :
    Except PlainError (Option PayloadId × HostEntry) := do
  let (token, entry) ← stageToken c deadlineNs entry
  let (position, generator) ← entry.generatorFor c.node.id flow
  let status : GeneratorStatus := if token.isSome then .scheduled else .stopped
  return (token,
    entry.setGenerator position
      { generator with nextEmission := ⟨status, deadlineNs, token.getD 0⟩ })

/-- `start_compute_stage`, also used for stage notifications. -/
def startComputeStage (c : Ctx) (flow : FlowId) (durationNs tokenSizeBytes : Nat)
    (tokenKind : PacketKind) (cause : PendingCollectiveProgress) (ordinal : Nat) : Prog Unit := do
  let deadlineNs ← okOr (checkedAdd 64 c.now durationNs) (.generatorTimeOverflow flow)
  let entry ← getHost
  let (token, entry) ← scheduleStageToken c flow deadlineNs entry
  setHost entry
  pushStageProgress c flow cause ordinal true
  Prog.each token fun payload => do
    insertPacket ⟨payload, flow, tokenSizeBytes, false, tokenKind⟩ (some c.now)
    emit c.node.id .pacingTimer payload deadlineNs

/-- `activate_wrapped_stage`: start a stage according to its generator. -/
def activateWrappedStage (c : Ctx) (flow : FlowId) (cause : PendingCollectiveProgress)
    (ordinal : Nat) : Prog Unit := do
  let entry ← getHost
  let (position, generator) ← entry.generatorFor c.node.id flow
  match generator.kind with
  | .constant constant =>
    match entry.state.stage position with
    | some { role := .compute compute, .. } =>
      startComputeStage c flow compute.durationNs 0 .data cause ordinal
    | _ =>
      startComputeStage c flow constant.intervalNs constant.packetSizeBytes .stageNotify cause
        ordinal
  | .roce _ => startRoceStage c flow cause ordinal
  | .tcp _ =>
    let plan ← prepareTcpAttempts c flow none true false
    pushStageProgress c flow cause ordinal true
    installTcpAttempts c plan
  | _ => Prog.fail (.plain (.unexpectedGeneratorEmission c.node.id flow c.event.payload))

/-- The activation loop; each turn takes one stage out of the releasable set. -/
def activateLoop (c : Ctx) : Nat → Nat → PendingCauses → Prog (Nat × PendingCauses)
  | 0, ordinal, causes => pure (ordinal, causes)
  | fuel + 1, ordinal, causes => do
    let entry ← getHost
    match entry.index.firstReady entry.state.generators with
    | none => return (ordinal, causes)
    | some position =>
      let generator ← okOr entry.state.generators[position]? (.unknownGenerator c.node.id 0)
      let stage ← okOr (entry.state.stage position) (.unknownGenerator c.node.id generator.flow)
      setHost (entry.setStage position { stage with activated := true })
      let (cause, causes) ← okOr (causes.take generator.flow)
        (.unexpectedGeneratorEmission c.node.id generator.flow c.event.payload)
      activateWrappedStage c generator.flow cause ordinal
      let ordinal ← countUp c.node.id ordinal
      activateLoop c fuel ordinal causes

/-- Rows for the causes that started nothing. -/
def pushRemaining (c : Ctx) : Nat → PendingCauses → Prog Unit
  | _, [] => pure ()
  | ordinal, cause :: rest => do
    pushStageProgress c cause.flow cause ordinal false
    let ordinal ← countUp c.node.id ordinal
    pushRemaining c ordinal rest

/-- How many stages could start. -/
def HostStageIndex.releasableCount (index : HostStageIndex) : Nat :=
  index.stageViews.elim 0 fun views => views.releasableStages.card

/-- `activate_ready_collectives`, for at least one cause. -/
def activateReadyCollectives (c : Ctx) (causes : PendingCauses) : Prog Unit :=
  match causes with
  | [] => pure ()
  | causes => do
    let entry ← getHost
    let (ordinal, remaining) ← activateLoop c (entry.index.releasableCount + 1) 0 causes
    pushRemaining c ordinal remaining

end Days
