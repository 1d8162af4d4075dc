/-
  Days.Exec.HostArrival — what a host does with packets and ticks that reach it,
  and the dispatch of an event to its handler (`scalar.rs`).
-/
import Days.Exec.HostRoce

namespace Days

/-! ## §1. PAUSE and RESUME at a host. -/

/-- Apply a PAUSE or RESUME of `controller`; the flag says that a class opened. -/
def HostPfcState.control (pfc : HostPfcState) (priority : Nat) (pause : Bool)
    (controller : NodeId) : Bool × HostPfcState :=
  let before := pfc.pausedByController priority
  let after := if pause then insert controller before else before.erase controller
  let pfc := { pfc with pausedByController := Function.update pfc.pausedByController priority after }
  (!pause && decide (controller ∈ before) && !pfc.isPaused priority, pfc)

/-- The ticks and rows of the queue pairs a RESUME restarts. -/
structure RoceRestarts where
  entry : HostEntry
  ticks : List (PayloadId × Nat)
  records : List MechanismTransitionRecord

/-- Restart the queue pair at `position`. -/
def restartParked (c : Ctx) (position : Nat) (acc : RoceRestarts) :
    Except PlainError RoceRestarts := do
  let generator ← okOr acc.entry.state.generators[position]? (.invalidSchedulerState c.node.id)
  match generator.kind with
  | .roce roce =>
    let before := Roce.SenderView.of generator roce
    let complete := decide (roce.sndUna ≥ roce.pacer.totalBytes)
    let (advance, controller) := dcqcnMaterialize roce.controller complete c.now
    let advanced := advanceRecord c generator.flow c.now advance roce.controller controller
    let (tickNs, restarted, sender) ← restartRocePacer c generator { roce with controller }
    let settled := settleRoceSender restarted sender restarted.nextEmission.status
    let priority ← imageFlowPriority c generator.flow
    let record := roceSenderRecord c generator.flow .resume none priority sender none none none
      before settled
    return {
      entry := acc.entry.setGenerator position settled
      ticks := acc.ticks ++ (tickNs.map fun timeNs => (sender.pacingTimerPayload, timeNs)).toList
      records := acc.records ++ advanced.toList ++ [record] }
  | _ => throw (.invalidSchedulerState c.node.id)

def restartAll (c : Ctx) : List Nat → RoceRestarts → Except PlainError RoceRestarts
  | [], acc => .ok acc
  | position :: rest, acc => do
    let acc ← restartParked c position acc
    restartAll c rest acc

/-- Take the parked list of a class and restart every queue pair on it. -/
def restartPaused (c : Ctx) (priority : Nat) (entry : HostEntry) :
    Except PlainError RoceRestarts := do
  let pfc ← okOr entry.state.pfc (.invalidSchedulerState c.node.id)
  let parked := (List.range entry.state.generators.length).filter fun position =>
    decide (position ∈ pfc.pauseParked priority)
  let emptied :=
    entry.setPfc (some { pfc with pauseParked := Function.update pfc.pauseParked priority ∅ })
  restartAll c parked ⟨emptied, [], []⟩

def pushMechanisms : List MechanismTransitionRecord → Prog Unit
  | [] => pure ()
  | record :: rest => do
    pushMechanism record
    pushMechanisms rest

def emitTicks (c : Ctx) : List (PayloadId × Nat) → Prog Unit
  | [] => pure ()
  | (payload, timeNs) :: rest => do
    emit c.node.id .pacingTimer payload timeNs
    emitTicks c rest

/-- Claim an idle egress for the first eligible packet. -/
def claimEligible (c : Ctx) : Prog (Option PayloadId) := do
  let entry ← getHost
  match ← hostPfcFirstEligible c entry with
  | none => return none
  | some position =>
    if entry.idle then
      let payload ← okOr entry.state.queue[position]? (.invalidSchedulerState c.node.id)
      setHost (entry.setReadyPending true)
      return some payload
    else return none

/-- `host_pfc_remote_arrival`. -/
def hostPfcRemoteArrival (c : Ctx) (header : PfcHeader) : Prog Unit := do
  let entry ← getHost
  let pfc ← okOr entry.state.pfc (.invalidSchedulerState c.node.id)
  let controller := c.event.key.originNode
  let (unpaused, controlled) := pfc.control header.priority header.pause controller
  setHost (entry.setPfc (some controlled))
  let transition : MechanismTransitionRecord :=
    .pfcControl {
      key := c.event.key
      node := c.node.id
      queueId := 0
      controlledLink := header.controlledLink
      controller
      priority := header.priority
      action := if header.pause then .pause else .resume
      beforeControllers := pfc.pausedByController header.priority
      afterControllers := controlled.pausedByController header.priority }
  Prog.when c.full (pushMechanism transition)
  markTerminal c.event.payload
  Prog.when unpaused do
    let ready ← claimEligible c
    let entry ← getHost
    let restarts ← restartPaused c header.priority entry
    setHost restarts.entry
    Prog.when c.full (pushMechanisms restarts.records)
    Prog.each ready fun payload => emit c.node.id .txReady payload c.now
    emitTicks c restarts.ticks

/-! ## §2. Other arrivals. -/

/-- The reaction of a DCQCN source or a queue pair to a CNP. -/
def cnpReaction (c : Ctx) (p : PacketDescriptor) (entry : HostEntry) :
    Except PlainError (Option MechanismTransitionRecord × HostEntry) := do
  let (position, generator) ← entry.generatorFor c.node.id p.flow
  let generator ← applyGeneratorFeedback c.node.id generator
  let row (advance : DcqcnAdvance) (before after : DcqcnController) :
      Option MechanismTransitionRecord :=
    some (.dcqcn ⟨c.event.key, c.node.id, p.flow, .feedback, c.now, advance, false, before, after⟩)
  match generator.kind with
  | .dcqcn dcqcn =>
    if generator.nextEmission.status ≠ .scheduled ∧ generator.nextEmission.status ≠ .blocked then
      return (none, entry.setGenerator position generator)
    else
      let (advance, controller) := dcqcn.controller.onFeedback c.now
      let rate :=
        { dcqcn.rate with rateNumeratorBitsPerSecond := controller.currentRateBps }
      return (row advance dcqcn.controller controller,
        entry.setGenerator position
          { generator with kind := .dcqcn { dcqcn with rate, controller } })
  | .roce roce =>
    if roce.sndUna ≥ roce.pacer.totalBytes then
      return (none, entry.setGenerator position generator)
    else
      let (advance, controller) := roce.controller.onFeedback c.now
      let settled :=
        settleRoceSender generator { roce with controller } generator.nextEmission.status
      return (row advance roce.controller controller, entry.setGenerator position settled)
  | _ => throw (.unknownGenerator c.node.id p.flow)

/-- `host_dcqcn_cnp_arrival`. -/
def hostDcqcnCnpArrival (c : Ctx) (p : PacketDescriptor) : Prog Unit := do
  let flow ← c.image.flow p.flow
  expectNode c flow.id flow.source
  let entry ← getHost
  let (transition, entry) ← cnpReaction c p entry
  setHost entry
  Prog.when c.full (pushMechanism? transition)
  recordArrival c p .feedback
  markTerminal c.event.payload

/-- A packet without a transport: feedback is counted at its generator, the rest
is received. -/
def plainArrival (c : Ctx) (p : PacketDescriptor) (flow : FlowDescriptor) (entry : HostEntry) :
    Except PlainError (ArrivalDisposition × HostEntry) := do
  let feedback :=
    if p.kind.isFeedback then entry.state.generators.findIdx? (·.flow == p.flow) else none
  match feedback with
  | some position =>
    let generator ← okOr entry.state.generators[position]? (.unknownGenerator c.node.id p.flow)
    let generator ← applyGeneratorFeedback c.node.id generator
    return (.feedback, entry.setGenerator position generator)
  | none =>
    expectNode c flow.id (flow.terminal p.kind)
    let received ← countUp c.node.id entry.state.receivedPackets
    return (.delivered, { entry with state := { entry.state with receivedPackets := received } })

/-- The end of `host_remote_arrival`. -/
def hostPlainArrival (c : Ctx) (p : PacketDescriptor) (flow : FlowDescriptor) : Prog Unit := do
  let entry ← getHost
  let (disposition, entry) ← plainArrival c p flow entry
  setHost entry
  recordArrival c p disposition
  markTerminal c.event.payload

/-- `host_remote_arrival`. -/
def hostRemoteArrival (c : Ctx) : Prog Unit := do
  let p ← packet c.event.payload
  let flow ← c.image.flow p.flow
  match p.kind with
  | .tcpData header => hostTcpDataArrival c p header
  | .tcpAck header => hostTcpAckArrival c p header
  | .dcqcnCnp _ => hostDcqcnCnpArrival c p
  | .roceData header => hostRoceDataArrival c p header
  | .roceAck header => hostRoceFeedbackArrival c p header false
  | .roceNack header => hostRoceFeedbackArrival c p header true
  | .pfc header => hostPfcRemoteArrival c header
  | .stageNotify => hostNotifyArrival c p
  | .data =>
    let entry ← getHost
    if entry.state.dcqcnReceivers.any (·.flow == p.flow) then hostDcqcnDataArrival c p
    else hostPlainArrival c p flow
  | .feedback | .rocePacingTimer => hostPlainArrival c p flow

/-! ## §3. Ticks. -/

/-- Whether a compute stage of the host owns the flow. -/
def HostEntry.computeOwns (e : HostEntry) (flow : FlowId) : Bool :=
  (e.index.generatorsOf flow).any fun position =>
    match e.state.stage position with
    | some { role := .compute _, .. } => true
    | _ => false

def HostEntry.dcqcnOwns (e : HostEntry) (flow : FlowId) : Bool :=
  (e.index.generatorsOf flow).any fun position =>
    match e.state.generators[position]? with
    | some { kind := .dcqcn _, .. } => true
    | _ => false

/-- `host_pacing_timer`. -/
def hostPacingTimer (c : Ctx) : Prog Unit := do
  let p ← packet c.event.payload
  match p.kind with
  | .rocePacingTimer => hostRocePacingTimer c p
  | .stageNotify => hostNotifyTimer c p.flow
  | _ =>
    let entry ← getHost
    if entry.computeOwns p.flow then hostComputeTimer c p.flow
    else if entry.dcqcnOwns p.flow then hostDcqcnPacingTimer c p
    else hostRatePacingTimer c p

/-! ## §4. Dispatch. -/

/-- The handler of a transition. -/
def handlerProg (c : Ctx) : TransitionHandler → Prog Unit
  | .hostPacketArrival => hostPacketArrival c
  | .hostTxReady => hostTxReady c
  | .hostTxComplete => hostTxComplete c
  | .hostRemoteArrival => hostRemoteArrival c
  | .switchTxReady => switchTxReady c
  | .switchTxComplete => switchTxComplete c
  | .switchRemoteArrival => switchRemoteArrival c
  | .hostRetransmissionTimeout => hostRetransmissionTimeout c
  | .hostPacingTimer => hostPacingTimer c

/-- The handler of an event and what it is run with. -/
def resolveEvent (image : SimulationImage) (mode : ObservationMode) (event : Event) :
    Except PlainError (Ctx × TransitionHandler) := do
  let node ← image.node event.target
  let handler ← okOr (resolveTransition node.kind event.kind)
    (.unsupportedTransition node.id node.kind event.kind)
  return (⟨image, mode, node, event⟩, handler)

/-- `dispatch`: run the handler of an event. -/
def dispatch (image : SimulationImage) (mode : ObservationMode) (event : Event)
    (s : TransitionState) : Except ExecutionError TransitionState := do
  let (c, handler) ← Prog.liftPlain (resolveEvent image mode event)
  let (_, s) ← (handlerProg c handler).run c s
  return s

end Days
