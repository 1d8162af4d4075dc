/-
  Days.Exec.Switch — the transition handlers of a switch (`scalar.rs`).

  Each handler looks packets up through `Prog` and hands the descriptors to a
  pure step on the switch entry; the step says what is recorded and emitted.
-/
import Days.Exec.Queue

namespace Days

/-! ## §1. Queues of a switch. -/

namespace SwitchState

/-- The first queue with the given egress link, and its slot. -/
def findQueue (s : SwitchState) (egress : Option LinkId) : Option (Nat × SwitchQueueState) :=
  (s.queues.findIdx? fun q => decide (q.egressLink = egress)).bind fun slot =>
    (s.queues[slot]?).map fun q => (slot, q)

def setQueue (s : SwitchState) (slot : Nat) (q : SwitchQueueState) : SwitchState :=
  { s with queues := s.queues.set slot q }

end SwitchState

namespace SwitchEntry

def queueFor (e : SwitchEntry) (node : NodeId) (egress : Option LinkId) :
    Except PlainError (Nat × SwitchQueueState) :=
  okOr (e.state.findQueue egress) (.missingSwitchQueue node egress)

def setQueue (e : SwitchEntry) (slot : Nat) (q : SwitchQueueState) : SwitchEntry :=
  { e with state := e.state.setQueue slot q }

def pfcOrder (e : SwitchEntry) (slot : Nat) : Option PfcClassOrder := (e.pfcOrders[slot]?).join

def modifyPfcOrder (e : SwitchEntry) (slot : Nat) (f : PfcClassOrder → PfcClassOrder) :
    SwitchEntry :=
  { e with pfcOrders := e.pfcOrders.modify slot (Option.map f) }

end SwitchEntry

def pfcAnyPaused (pfc : PfcQueueState) : Bool := (List.range 8).any pfc.isPaused

/-! ## §2. PFC ingress accounting. -/

structure PfcFramePlan where
  channelIndex : Nat
  flow : FlowId
  header : PfcHeader

/-- What one accounting step asks for: a control frame and a trace row. -/
structure PfcStep where
  plan : Option PfcFramePlan
  transition : Option MechanismTransitionRecord

def PfcStep.none : PfcStep := ⟨.none, .none⟩

/-- The trace row of one accounting step. -/
def pfcThresholdRecord (c : Ctx) (queueId : Nat) (ingress : PfcIngressState)
    (priority amount : Nat) (action : PfcOccupancyAction) (depth : Nat) (asserted : Bool)
    (emitted : Option PfcControlAction) : MechanismTransitionRecord :=
  .pfcThreshold {
    key := c.event.key
    node := c.node.id
    queueId
    controlledLink := ingress.controlledLink
    priority
    xonBytes := ingress.xonThresholdBytes priority
    xoffBytes := ingress.xoffThresholdBytes priority
    bufferCapacityBytes := ingress.bufferCapacityBytes priority
    amountBytes := amount
    action
    beforeOccupancyBytes := ingress.occupancyBytes priority
    beforeAsserted := ingress.pauseAsserted priority
    afterOccupancyBytes := depth
    afterAsserted := asserted
    emitted }

namespace PfcIngressState

def setClass (ingress : PfcIngressState) (priority depth : Nat) (asserted : Bool) :
    PfcIngressState :=
  { ingress with
    occupancyBytes := Function.update ingress.occupancyBytes priority depth
    pauseAsserted := Function.update ingress.pauseAsserted priority asserted }

/-- An admitted packet: at XOFF and not yet asserted, ask for a PAUSE. -/
def admitPacket (c : Ctx) (queueId priority : Nat) (p : PacketDescriptor) (ingress : PfcIngressState) :
    Except PlainError (PfcStep × PfcIngressState) :=
  let xoff := ingress.xoffThresholdBytes priority
  let asserted := ingress.pauseAsserted priority
  if xoff = 0 then .ok (.none, ingress)
  else do
    let depth ← okOr (checkedAdd 64 (ingress.occupancyBytes priority) p.sizeBytes)
      (.counterOverflow c.node.id)
    if depth < xoff ∨ asserted then
      return (⟨none, some (pfcThresholdRecord c queueId ingress priority p.sizeBytes .admission depth
          asserted none)⟩, ingress.setClass priority depth asserted)
    else
      return (⟨some ⟨ingress.controlChannelIndex, p.flow, ⟨ingress.controlledLink, priority, true⟩⟩,
          some (pfcThresholdRecord c queueId ingress priority p.sizeBytes .admission depth true
            (some .pause))⟩, ingress.setClass priority depth true)

/-- A served packet: at XON and asserted, ask for a RESUME. -/
def drain (c : Ctx) (queueId priority : Nat) (p : PacketDescriptor) (ingress : PfcIngressState) :
    Except PlainError (PfcStep × PfcIngressState) :=
  let asserted := ingress.pauseAsserted priority
  if ingress.xoffThresholdBytes priority = 0 then .ok (.none, ingress)
  else do
    let depth ← okOr (checkedSub (ingress.occupancyBytes priority) p.sizeBytes)
      (.counterOverflow c.node.id)
    if !asserted ∨ depth > ingress.xonThresholdBytes priority then
      return (⟨none, some (pfcThresholdRecord c queueId ingress priority p.sizeBytes .drain depth
          asserted none)⟩, ingress.setClass priority depth asserted)
    else
      return (⟨some ⟨ingress.controlChannelIndex, p.flow, ⟨ingress.controlledLink, priority, false⟩⟩,
          some (pfcThresholdRecord c queueId ingress priority p.sizeBytes .drain depth false
            (some .resume))⟩, ingress.setClass priority depth false)

/-- Whether the packet does not fit the lossless buffer of its class. -/
def overflows (ingress : PfcIngressState) (priority sizeBytes : Nat) : Bool :=
  ingress.xoffThresholdBytes priority != 0 &&
    (checkedAdd 64 (ingress.occupancyBytes priority) sizeBytes).all fun depth =>
      decide (depth > ingress.bufferCapacityBytes priority)

end PfcIngressState

namespace PfcQueueState

def ingressFor (pfc : PfcQueueState) (incoming : Option LinkId) : Option (Nat × PfcIngressState) :=
  (pfc.ingresses.findIdx? fun i => decide (some i.controlledLink = incoming)).bind fun slot =>
    (pfc.ingresses[slot]?).map fun i => (slot, i)

/-- Run an accounting step on the ingress the packet came in by. -/
def account (pfc : PfcQueueState) (incoming : Option LinkId)
    (f : PfcIngressState → Except PlainError (PfcStep × PfcIngressState)) :
    Except PlainError (PfcStep × PfcQueueState) :=
  match pfc.ingressFor incoming with
  | none => .ok (.none, pfc)
  | some (slot, ingress) => do
    let (step, ingress) ← f ingress
    return (step, { pfc with ingresses := pfc.ingresses.set slot ingress })

end PfcQueueState

/-- Account on the queue's PFC state, if it has one. -/
def SwitchQueueState.account (q : SwitchQueueState) (incoming : Option LinkId)
    (f : PfcIngressState → Except PlainError (PfcStep × PfcIngressState)) :
    Except PlainError (PfcStep × SwitchQueueState) :=
  match q.pfc with
  | none => .ok (.none, q)
  | some pfc => do
    let (step, pfc) ← pfc.account incoming f
    return (step, { q with pfc := some pfc })

/-- `emit_pfc_frame`: a 64-byte frame over the declared control channel. -/
def emitPfcFrame (c : Ctx) (plan : PfcFramePlan) : Prog Unit := do
  let channel ← okOr c.image.channels[plan.channelIndex]? (.unknownLink plan.header.controlledLink)
  let entry ← getSwitch
  let payload ← allocatePayloadId c entry.state.nextOriginSeq
  insertPacket ⟨payload, plan.flow, 64, false, .pfc plan.header⟩ (some c.now)
  let arrivalTimeNs ← okOr (checkedAdd 64 c.now channel.minDelayNs) (.time .arrivalOverflow)
  emit channel.target .remoteArrival payload arrivalTimeNs

/-! ## §3. Trace rows of the schedulers. -/

def spRecord (c : Ctx) (kind : SpTransitionKind) (queueSlot : Nat) (priorities : List Nat)
    (p : PacketDescriptor) (departureTimeNs : Option Nat) :
    Except PlainError MechanismTransitionRecord := do
  let classId ← okOr (schedulerClass p.flow priorities.length) (.invalidSchedulerState c.node.id)
  return .sp {
    key := c.event.key
    node := c.node.id
    queueId := queueSlot
    kind
    classCount := priorities.length
    packet := schedulerPacket p
    classId
    priority := priorities.getD classId 0
    departureTimeNs }

def wfqRecord (c : Ctx) (kind : WfqTransitionKind) (queueSlot rateBps : Nat)
    (wfq : WfqSchedulerState) (p : PacketDescriptor) (virtualStart finish : Option Rat)
    (queuedPackets : List WfqQueuedPacket) (pausedPriorities : List Nat) (pfcPriority : Nat) :
    MechanismTransitionRecord :=
  .wfq {
    key := c.event.key
    node := c.node.id
    queueId := queueSlot
    kind
    rateBps
    weights := wfq.weights
    packet := schedulerPacket p
    virtualStart
    finish
    after := .of wfq
    queuedPackets
    pausedPriorities
    pfcPriority }

/-- `scheduler_queue_of`: the switch queue a packet uses at this node. -/
def schedulerQueueOf (c : Ctx) (p : PacketDescriptor) :
    Prog (Option (Nat × SwitchQueueState × LinkId)) :=
  match c.node.kind with
  | .host => pure none
  | .switch => do
    match ← c.image.packetEgressAt p c.node.id with
    | none => return none
    | some egress =>
      let entry ← getSwitch
      let (slot, queue) ← entry.queueFor c.node.id (some egress)
      return some (slot, queue, egress)

/-- The PFC class shown in a WFQ row; zero on a queue without PFC. -/
def recordedPfcPriority (c : Ctx) (queue : SwitchQueueState) (p : PacketDescriptor) :
    Except PlainError Nat :=
  if queue.pfc.isSome then c.image.packetPfcClass p else .ok 0

def observeSchedulerEnqueue (c : Ctx) (p : PacketDescriptor) : Prog Unit := do
  match ← schedulerQueueOf c p with
  | none => return ()
  | some (slot, queue, _) =>
    match queue.scheduler with
    | .staticPriority priorities =>
      let record ← spRecord c .enqueue slot priorities p none
      pushMechanism record
    | .weightedFairQueue wfq =>
      let finish ← okOr wfq.packetFinishTimes[p.id]? (.missingWfqFinishTag c.node.id p.id)
      let classId ← okOr (schedulerClass p.flow wfq.weights.length)
        (.invalidSchedulerState c.node.id)
      let service := ((p.sizeBytes * 8 : Nat) : Rat) / ((wfq.weights.getD classId 0 : Nat) : Rat)
      let egress ← okOr queue.egressLink (.invalidSchedulerState c.node.id)
      let pfcPriority ← recordedPfcPriority c queue p
      let link ← c.image.link egress
      pushMechanism (wfqRecord c .enqueue slot link.rateBps wfq p (some (finish - service))
        (some finish) [] [] pfcPriority)
    | _ => return ()

def observeSchedulerCompletion (c : Ctx) (p : PacketDescriptor) : Prog Unit := do
  match ← schedulerQueueOf c p with
  | none => return ()
  | some (slot, queue, egress) =>
    match queue.scheduler with
    | .staticPriority priorities =>
      let record ← spRecord c .depart slot priorities p (some c.now)
      pushMechanism record
    | .weightedFairQueue wfq =>
      let link ← c.image.link egress
      pushMechanism (wfqRecord c .complete slot link.rateBps wfq p none none [] [] 0)
    | _ => return ()

/-- The waiting packets of a WFQ row, with their tags. -/
def wfqQueuedPackets (c : Ctx) (queue : SwitchQueueState) (wfq : WfqSchedulerState) :
    List PacketDescriptor → Except PlainError (List WfqQueuedPacket)
  | [] => .ok []
  | waiting :: rest => do
    let pfcPriority ← recordedPfcPriority c queue waiting
    let finish ← okOr wfq.packetFinishTimes[waiting.id]?
      (.missingWfqFinishTag c.node.id waiting.id)
    let rest ← wfqQueuedPackets c queue wfq rest
    return ⟨schedulerPacket waiting, pfcPriority, finish⟩ :: rest

/-- Look up each id in turn. -/
def packets : List PayloadId → Prog (List PacketDescriptor)
  | [] => pure []
  | id :: rest => do
    let p ← packet id
    let rest ← packets rest
    return p :: rest

/-- `observe_service_start`: the row of the packet now in service. -/
def observeServiceStart (c : Ctx) (slot : Nat) : Prog Unit := do
  let entry ← getSwitch
  let queue ← okOr entry.state.queues[slot]? (.invalidSchedulerState c.node.id)
  match queue.scheduler with
  | .staticPriority priorities =>
    let served ← okOr queue.inService (.invalidSchedulerState c.node.id)
    let egress ← okOr queue.egressLink (.invalidSchedulerState c.node.id)
    let served ← packet served
    let link ← c.image.link egress
    let arrival ← ofTime (link.arrivalTimeNs c.now served.sizeBytes)
    let departure ← okOr (checkedSub arrival link.propagationNs) (.time .arrivalOverflow)
    let record ← spRecord c .schedule slot priorities served (some departure)
    pushMechanism record
  | .weightedFairQueue wfq =>
    let served ← okOr queue.inService (.invalidSchedulerState c.node.id)
    let egress ← okOr queue.egressLink (.invalidSchedulerState c.node.id)
    let served ← packet served
    let link ← c.image.link egress
    let arrival ← ofTime (link.arrivalTimeNs c.now served.sizeBytes)
    let _ ← okOr (checkedSub arrival link.propagationNs) (.time .arrivalOverflow)
    let waiting ← packets queue.queue
    let queuedPackets ← wfqQueuedPackets c queue wfq (served :: waiting)
    let pausedPriorities :=
      match queue.pfc with
      | none => []
      | some pfc => (List.range 8).filter pfc.isPaused
    let finish ← okOr wfq.packetFinishTimes[served.id]? (.missingWfqFinishTag c.node.id served.id)
    pushMechanism (wfqRecord c .select slot link.rateBps wfq served none (some finish)
      queuedPackets pausedPriorities 0)
  | _ => return ()

/-! ## §4. Counters every node keeps. -/

def recordSourced (p : PacketDescriptor) : Prog Unit := Prog.op (.countSourced p)

def recordDeparture (c : Ctx) (p : PacketDescriptor) : Prog Unit := do
  Prog.op (.countDeparted p.id)
  Prog.when c.full do
    Prog.op (.pushDeparture p)
    observeSchedulerCompletion c p

def recordArrival (c : Ctx) (p : PacketDescriptor) (disposition : ArrivalDisposition) :
    Prog Unit := do
  Prog.op (.countArrival p disposition)
  Prog.when c.full do
    Prog.op (.pushArrival p disposition)
    Prog.when (disposition = .admitted) (observeSchedulerEnqueue c p)

/-! ## §5. Arrivals. -/

/-- The position before the first queued packet of lower priority. -/
def spInsertionPosition (c : Ctx) (priorities : List Nat) (incomingPriority : Nat) :
    List PayloadId → Prog Nat
  | [] => pure 0
  | payload :: rest => do
    let queued ← packet payload
    let queuedClass ← okOr (schedulerClass queued.flow priorities.length)
      (.invalidSchedulerState c.node.id)
    if priorities.getD queuedClass 0 < incomingPriority then return 0
    else
      let position ← spInsertionPosition c priorities incomingPriority rest
      return position + 1

def switchSpInsertionPosition (c : Ctx) (entry : SwitchEntry) (egress : Option LinkId)
    (incomingFlow : FlowId) : Prog (Option Nat) := do
  let (_, queue) ← entry.queueFor c.node.id egress
  match queue.scheduler with
  | .staticPriority priorities =>
    let incomingClass ← okOr (schedulerClass incomingFlow priorities.length)
      (.invalidSchedulerState c.node.id)
    let position ← spInsertionPosition c priorities (priorities.getD incomingClass 0) queue.queue
    return some position
  | _ => return none

/-- What the handler knows about an arriving packet. -/
structure ArrivalInfo where
  packet : PacketDescriptor
  rateBps : Option Nat
  spPosition : Option Nat
  priority : Nat
  incomingLink : Option LinkId

/-- What an arrival asks for after the queue has been updated. -/
structure ArrivalPlan where
  disposition : ArrivalDisposition
  scheduleReady : Bool
  markPacket : Bool
  pfc : PfcStep
  aqm : Option (EcnRampPolicy × QueueAdmissionAction)

/-- Admission: a full lossless buffer drops before any policy is asked. -/
def admissionAction (c : Ctx) (slot queueBytes : Nat) (queue : SwitchQueueState)
    (info : ArrivalInfo) :
    Except PlainError (QueueAdmissionAction × Option (EcnRampPolicy × QueueAdmissionAction)) :=
  let pfcOverflow :=
    (queue.pfc.bind fun pfc => pfc.ingressFor info.incomingLink).any fun ingress =>
      ingress.2.overflows info.priority info.packet.sizeBytes
  if pfcOverflow then .ok (.drop, none)
  else
    match queue.dropMark with
    | .tailDrop => do
      let action ← taildropAction queue.queueCapacityPackets queue.queue.length queueBytes
        info.packet.sizeBytes c.node.id
      return (action, none)
    | .ecnRamp policy =>
      let action := ecnRampAction policy queueBytes info.packet c.image.seed c.node.id slot
        c.event.payload
      .ok (action, some (policy, action))

/-- Place an admitted packet according to the discipline. -/
def enqueueArrival (c : Ctx) (queue : SwitchQueueState) (info : ArrivalInfo) :
    Except PlainError SwitchQueueState :=
  match queue.scheduler with
  | .fifo | .deficitRoundRobin _ | .weightedRoundRobin _ =>
    .ok { queue with queue := queue.queue ++ [c.event.payload] }
  | .staticPriority _ => do
    let position ← okOr info.spPosition (.invalidSchedulerState c.node.id)
    return { queue with queue := queue.queue.insertIdx position c.event.payload }
  | .weightedFairQueue wfq => do
    let rateBps ← okOr info.rateBps (.invalidSchedulerState c.node.id)
    let (wfq, waiting) ← wfq.enqueue queue.queue info.packet c.now rateBps c.node.id
    return { queue with queue := waiting, scheduler := .weightedFairQueue wfq }

/-- Whether an arriving packet of the class starts an idle queue. -/
def SwitchQueueState.wantsReady (q : SwitchQueueState) (priority : Nat) : Bool :=
  q.egressLink.isSome && q.inService.isNone && !q.txReadyPending &&
    !(q.pfc.any fun pfc => pfc.isPaused priority)

/-- The queue update of `switch_remote_arrival`. -/
def arrivalStep (c : Ctx) (entry : SwitchEntry) (egress : Option LinkId) (info : ArrivalInfo) :
    Except PlainError (Nat × Nat × ArrivalPlan × SwitchEntry) := do
  let arrived ← countUp c.node.id entry.state.arrivedPackets
  let entry := { entry with state := { entry.state with arrivedPackets := arrived } }
  let (slot, queue) ← entry.queueFor c.node.id egress
  let queueBytes := entry.queueBytes.getD slot 0
  let (action, aqm) ← admissionAction c slot queueBytes queue info
  if action = .drop then
    let dropped ← countUp c.node.id entry.state.droppedPackets
    return (slot, queueBytes, ⟨.dropped, false, false, .none, aqm⟩,
      { entry with state := { entry.state with droppedPackets := dropped } })
  else
    let queue ← enqueueArrival c queue info
    let scheduleReady := queue.wantsReady info.priority
    let queue := { queue with txReadyPending := queue.txReadyPending || scheduleReady }
    let (pfc, queue) ← queue.account info.incomingLink
      (PfcIngressState.admitPacket c slot info.priority info.packet)
    let bytes ← okOr (checkedAdd 64 queueBytes info.packet.sizeBytes) (.counterOverflow c.node.id)
    let entry := entry.setQueue slot queue
    let entry := { entry with queueBytes := entry.queueBytes.set slot bytes }
    let entry :=
      if queue.pfc.isSome then entry.modifyPfcOrder slot (·.push info.priority) else entry
    return (slot, queueBytes, ⟨.admitted, scheduleReady, action == .mark, pfc, aqm⟩, entry)

/-- The AQM row of an arrival at an ECN ramp. -/
def aqmRecord (c : Ctx) (slot queueBytes : Nat) (packet : PacketDescriptor) (ecnBefore : Bool)
    (policy : EcnRampPolicy) (action : QueueAdmissionAction) : AqmTransitionRecord where
  key := c.event.key
  node := c.node.id
  queueId := slot
  payload := c.event.payload
  queuedBytesBefore := queueBytes
  packetSizeBytes := packet.sizeBytes
  ecnBefore := ecnBefore
  ecnAfter := packet.ecnMarked
  policy := policy
  action :=
    match action with
    | .enqueue => .enqueue
    | .mark => .mark
    | .drop => .drop

def pushMechanism? (record : Option MechanismTransitionRecord) : Prog Unit :=
  Prog.each record pushMechanism

/-- `pfc_first_eligible_by_search`. -/
def pfcFirstEligibleBySearch (c : Ctx) (pfc : PfcQueueState) :
    Nat → List PayloadId → Prog (Option (Nat × PayloadId))
  | _, [] => pure none
  | position, payload :: rest => do
    let p ← packet payload
    let priority ← c.image.packetPfcClass p
    if !pfc.isPaused priority then return some (position, payload)
    else pfcFirstEligibleBySearch c pfc (position + 1) rest

/-- `pfc_first_eligible`: the earliest waiting packet whose class may be sent. -/
def pfcFirstEligible (c : Ctx) (queue : SwitchQueueState) (pfc : PfcQueueState)
    (order : Option PfcClassOrder) : Prog (Option (Nat × PayloadId)) :=
  match queue.queue with
  | [] => pure none
  | head :: _ =>
    if !pfcAnyPaused pfc then pure (some (0, head))
    else
      match order with
      | none => pfcFirstEligibleBySearch c pfc 0 queue.queue
      | some order =>
        match order.firstUnpausedPosition pfc with
        | none => pure none
        | some position => do
          let payload ← okOr queue.queue[position]? (.invalidSchedulerState c.node.id)
          return some (position, payload)

/-- The class order of the packets already queued. -/
def pfcOrderOf (c : Ctx) : PfcClassOrder → List PayloadId → Prog PfcClassOrder
  | order, [] => pure order
  | order, payload :: rest => do
    let p ← packet payload
    let priority ← c.image.packetPfcClass p
    pfcOrderOf c (order.push priority) rest

/-- `ensure_pfc_order`: a FIFO PFC queue keeps a class order once paused. -/
def ensurePfcOrder (c : Ctx) (slot : Nat) (entry : SwitchEntry) : Prog SwitchEntry :=
  match entry.state.queues[slot]? with
  | none => pure entry
  | some queue =>
    if queue.pfc.isNone || !queue.scheduler.isFifo || (entry.pfcOrder slot).isSome then pure entry
    else do
      let order ← pfcOrderOf c .new queue.queue
      return { entry with pfcOrders := entry.pfcOrders.set slot (some order) }

def orderIfPaused (c : Ctx) (slot : Nat) (pause : Bool) (entry : SwitchEntry) :
    Prog SwitchEntry :=
  if pause then ensurePfcOrder c slot entry else pure entry

/-- The packet a resumed idle queue is woken with. -/
def wakePayload (c : Ctx) (maySchedule : Bool) (queue : SwitchQueueState) (pfc : PfcQueueState)
    (order : Option PfcClassOrder) : Prog (Option PayloadId) :=
  if maySchedule then do
    let first ← pfcFirstEligible c queue pfc order
    return first.map (·.2)
  else pure none

/-- Apply a PAUSE or RESUME of `controller`; the flag says that a class opened. -/
def PfcQueueState.control (pfc : PfcQueueState) (priority : Nat) (pause : Bool)
    (controller : NodeId) : Bool × PfcQueueState :=
  let before := pfc.pausedByController priority
  let after := if pause then insert controller before else before.erase controller
  let pfc := { pfc with pausedByController := Function.update pfc.pausedByController priority after }
  (!pause && decide (controller ∈ before) && !pfc.isPaused priority, pfc)

/-- `switch_pfc_remote_arrival`. -/
def switchPfcRemoteArrival (c : Ctx) (header : PfcHeader) : Prog Unit := do
  let entry ← getSwitch
  let (slot, queue) ← entry.queueFor c.node.id (some header.controlledLink)
  let pfc ← okOr queue.pfc (.invalidSchedulerState c.node.id)
  let controller := c.event.key.originNode
  let (resumed, controlled) := pfc.control header.priority header.pause controller
  let transition : MechanismTransitionRecord :=
    .pfcControl {
      key := c.event.key
      node := c.node.id
      queueId := slot
      controlledLink := header.controlledLink
      controller
      priority := header.priority
      action := if header.pause then .pause else .resume
      beforeControllers := pfc.pausedByController header.priority
      afterControllers := controlled.pausedByController header.priority }
  let queue := { queue with pfc := some controlled }
  let entry := entry.setQueue slot queue
  let entry ← orderIfPaused c slot header.pause entry
  let schedulePayload ← wakePayload c (resumed && queue.inService.isNone && !queue.txReadyPending)
    queue controlled (entry.pfcOrder slot)
  let entry :=
    if schedulePayload.isSome then entry.setQueue slot { queue with txReadyPending := true }
    else entry
  setSwitch entry
  Prog.when c.full (pushMechanism transition)
  markTerminal c.event.payload
  Prog.each schedulePayload fun payload => emit c.node.id .txReady payload c.now

/-- The rate of an egress link, when there is one. -/
def egressRate (c : Ctx) (egress : Option LinkId) : Except PlainError (Option Nat) :=
  match egress with
  | none => .ok none
  | some id => do
    let link ← c.image.link id
    return some link.rateBps

/-- What the handler looks up about an arriving packet. -/
def arrivalInfo (c : Ctx) (entry : SwitchEntry) (arriving : PacketDescriptor)
    (egress : Option LinkId) : Prog ArrivalInfo := do
  let rateBps ← egressRate c egress
  let spPosition ← switchSpInsertionPosition c entry egress arriving.flow
  let (_, queue) ← entry.queueFor c.node.id egress
  if queue.pfc.isSome then
    let priority ← c.image.packetPfcClass arriving
    let incomingLink ← c.image.packetIncomingLinkAt arriving c.node.id
    return ⟨arriving, rateBps, spPosition, priority, incomingLink⟩
  else return ⟨arriving, rateBps, spPosition, 0, none⟩

/-- `switch_remote_arrival` for a packet that is not a PFC frame. -/
def switchPacketArrival (c : Ctx) (arriving : PacketDescriptor) : Prog Unit := do
  let egress ← c.image.packetEgressAt arriving c.node.id
  let entry ← getSwitch
  let info ← arrivalInfo c entry arriving egress
  let (slot, queueBytes, plan, entry) ← arrivalStep c entry egress info
  setSwitch entry
  Prog.when plan.markPacket (setPacketMarked c.event.payload)
  let arrived := { arriving with ecnMarked := arriving.ecnMarked || plan.markPacket }
  Prog.when c.full do
    pushMechanism? plan.pfc.transition
    Prog.each plan.aqm fun (policy, action) =>
      pushAqm (aqmRecord c slot queueBytes arrived arriving.ecnMarked policy action)
  recordArrival c arrived plan.disposition
  Prog.when (plan.disposition = .dropped) (markTerminal c.event.payload)
  Prog.each plan.pfc.plan (emitPfcFrame c)
  Prog.when plan.scheduleReady (emit c.node.id .txReady c.event.payload c.now)

/-- `switch_remote_arrival`. -/
def switchRemoteArrival (c : Ctx) : Prog Unit := do
  let arriving ← packet c.event.payload
  match arriving.kind with
  | .pfc header => switchPfcRemoteArrival c header
  | _ => switchPacketArrival c arriving

/-! ## §6. Service. -/

/-- A waiting packet that may be served, with what its accounting needs. -/
structure PfcSelection where
  position : Nat
  packet : PacketDescriptor
  priority : Nat
  incomingLink : Option LinkId

inductive SwitchServicePlan where
  | head (packet : Option PacketDescriptor)
  | pfcFirst (selection : Option PfcSelection)
  | eligible (selections : List PfcSelection)

/-- The waiting packets of unpaused classes, in queue order. -/
def eligibleSelections (c : Ctx) (pfc : Option PfcQueueState) :
    Nat → List PayloadId → Prog (List PfcSelection)
  | _, [] => pure []
  | position, payload :: rest => do
    let p ← packet payload
    let priority ← c.image.packetPfcClass p
    if pfc.any fun pfc => pfc.isPaused priority then eligibleSelections c pfc (position + 1) rest
    else
      let incomingLink ← c.image.packetIncomingLinkAt p c.node.id
      let rest ← eligibleSelections c pfc (position + 1) rest
      return ⟨position, p, priority, incomingLink⟩ :: rest

/-- The read-only half of `switch_tx_ready`: what could be served. -/
def switchServicePlan (c : Ctx) (entry : SwitchEntry) (slot : Nat) (queue : SwitchQueueState) :
    Prog SwitchServicePlan :=
  match queue.pfc, schedulerServesHead queue.scheduler with
  | none, true =>
    match queue.queue with
    | [] => pure (.head none)
    | payload :: _ => do
      let p ← packet payload
      return .head (some p)
  | some pfc, true => do
    match ← pfcFirstEligible c queue pfc (entry.pfcOrder slot) with
    | none => return .pfcFirst none
    | some (position, payload) =>
      let p ← packet payload
      let priority ← c.image.packetPfcClass p
      let incomingLink ← c.image.packetIncomingLinkAt p c.node.id
      return .pfcFirst (some ⟨position, p, priority, incomingLink⟩)
  | pfc, false => do
    let selections ← eligibleSelections c pfc 0 queue.queue
    return .eligible selections

/-- The packet taken into service, and what its departure from the queue asks for. -/
structure ServiceOutcome where
  payload : PayloadId
  packet : PacketDescriptor
  priority : Option Nat
  pfc : PfcStep
  schedulerTransition : Option MechanismTransitionRecord

/-- Take the packet at `position` into service; a WFQ queue must hold its tag. -/
def takeIntoService (c : Ctx) (queue : SwitchQueueState) (position : Nat) :
    Except PlainError (PayloadId × SwitchQueueState) := do
  let payload ← okOr queue.queue[position]? (.invalidSchedulerState c.node.id)
  match queue.scheduler with
  | .weightedFairQueue wfq =>
    let _ ← okOr wfq.packetFinishTimes[payload]? (.missingWfqFinishTag c.node.id payload)
    return (payload, { queue with queue := queue.queue.eraseIdx position, inService := some payload })
  | _ =>
    return (payload, { queue with queue := queue.queue.eraseIdx position, inService := some payload })

/-- The trace row of a round-robin selection. -/
def roundRobinRecord (c : Ctx) (slot : Nat) (before after : SchedulerKind) (scanSteps : Nat)
    (eligible : List PacketDescriptor) (selected : PayloadId) : Option MechanismTransitionRecord :=
  match before, after with
  | .deficitRoundRobin before, .deficitRoundRobin after =>
    some (.drr {
      key := c.event.key
      node := c.node.id
      queueId := slot
      quantaBytes := before.quantaBytes
      beforeDeficitsBytes := before.deficitsBytes
      beforeCurrentClass := before.currentClass
      scanSteps
      eligiblePackets := eligible.map schedulerPacket
      selectedPayload := selected
      afterDeficitsBytes := after.deficitsBytes
      afterCurrentClass := after.currentClass })
  | .weightedRoundRobin before, .weightedRoundRobin after =>
    some (.wrr {
      key := c.event.key
      node := c.node.id
      queueId := slot
      weights := before.weights
      beforePacketsSent := before.packetsSentInRound
      beforeCurrentClass := before.currentClass
      eligiblePackets := eligible.map schedulerPacket
      selectedPayload := selected
      afterPacketsSent := after.packetsSentInRound
      afterCurrentClass := after.currentClass })
  | _, _ => none

/-- Serve a selected packet of a PFC or round-robin queue. -/
def serveSelection (c : Ctx) (slot : Nat) (queue : SwitchQueueState) (before : SchedulerKind)
    (scanSteps : Nat) (eligible : List PacketDescriptor) (s : PfcSelection) :
    Except PlainError (ServiceOutcome × SwitchQueueState) := do
  let (payload, queue) ← takeIntoService c queue s.position
  let (pfc, queue) ← queue.account s.incomingLink
    (PfcIngressState.drain c slot s.priority s.packet)
  let transition := roundRobinRecord c slot before queue.scheduler scanSteps eligible payload
  return (⟨payload, s.packet, some s.priority, pfc, transition⟩, queue)

/-- The queue update of `switch_tx_ready`; `none` leaves the queue idle. -/
def serviceStep (c : Ctx) (slot : Nat) (queue : SwitchQueueState) :
    SwitchServicePlan → Except PlainError (Option ServiceOutcome × SwitchQueueState)
  | .head none | .pfcFirst none => .ok (none, queue)
  | .head (some p) => do
    let (payload, queue) ← takeIntoService c queue 0
    return (some ⟨payload, p, none, .none, none⟩, queue)
  | .pfcFirst (some s) => do
    -- A queue that serves its head keeps no round-robin state, so no row follows.
    let (outcome, queue) ← serveSelection c slot queue .fifo 0 [] s
    return (some outcome, queue)
  | .eligible selections => do
    let eligible := selections.map (·.packet)
    let (selected, scheduler) ← schedulerSelectPosition queue.scheduler eligible c.node.id
    match selected with
    | none => return (none, { queue with scheduler })
    | some (position, scanSteps) =>
      let s ← okOr selections[position]? (.invalidSchedulerState c.node.id)
      let (outcome, queue) ←
        serveSelection c slot { queue with scheduler } queue.scheduler scanSteps eligible s
      return (some outcome, queue)

/-- The entry after a packet has left the queue: its byte counter and class order. -/
def settleService (c : Ctx) (entry : SwitchEntry) (slot : Nat) (queue : SwitchQueueState)
    (outcome : ServiceOutcome) : Except PlainError SwitchEntry := do
  let bytes ← okOr (checkedSub (entry.queueBytes.getD slot 0) outcome.packet.sizeBytes)
    (.counterOverflow c.node.id)
  let entry := entry.setQueue slot queue
  let entry := { entry with queueBytes := entry.queueBytes.set slot bytes }
  match outcome.priority with
  | some priority => return entry.modifyPfcOrder slot (·.pop priority)
  | none => return entry

/-- The second half of `switch_tx_ready`: put the served packet on its link. -/
def startService (c : Ctx) (slot : Nat) (egress : LinkId) (outcome : ServiceOutcome) :
    Prog Unit := do
  Prog.when c.full do
    pushMechanism? outcome.pfc.transition
    pushMechanism? outcome.schedulerTransition
    observeServiceStart c slot
  let link ← c.image.link egress
  require (link.source = c.node.id) (.linkSourceMismatch link.id c.node.id link.source)
  startTransmission outcome.payload
  let arrivalTimeNs ← ofTime (link.arrivalTimeNs c.now outcome.packet.sizeBytes)
  let departureTimeNs ← okOr (checkedSub arrivalTimeNs link.propagationNs) (.time .arrivalOverflow)
  Prog.each outcome.pfc.plan (emitPfcFrame c)
  emit c.node.id .txComplete outcome.payload departureTimeNs
  let target ← c.image.packetRemoteTarget outcome.packet link.id
  emit target .remoteArrival outcome.payload arrivalTimeNs

/-- `switch_tx_ready`. -/
def switchTxReady (c : Ctx) : Prog Unit := do
  let ready ← header c.event.payload
  let egress ← c.image.packetEgressAt ready c.node.id
  let egress ← okOr egress (.missingSwitchQueue c.node.id none)
  let entry ← getSwitch
  let (slot, queue) ← entry.queueFor c.node.id (some egress)
  let plan ← switchServicePlan c entry slot queue
  Prog.check (queue.inService = none) (.switchAlreadyTransmitting c.node.id egress)
  let (outcome, queue) ← serviceStep c slot { queue with txReadyPending := false } plan
  match outcome with
  | none => setSwitch (entry.setQueue slot queue)
  | some outcome =>
    let entry ← settleService c entry slot queue outcome
    setSwitch entry
    startService c slot egress outcome

/-- The next packet a completing queue would serve. -/
def eligibleNext (c : Ctx) (entry : SwitchEntry) (slot : Nat) (queue : SwitchQueueState) :
    Prog (Option PayloadId) :=
  match queue.pfc with
  | none => pure queue.queue.head?
  | some pfc => do
    let first ← pfcFirstEligible c queue pfc (entry.pfcOrder slot)
    return first.map (·.2)

/-- The discipline's bookkeeping for a packet that has left the link. -/
def completeScheduler (c : Ctx) (scheduler : SchedulerKind) (p : PacketDescriptor)
    (rateBps : Nat) : Except PlainError SchedulerKind :=
  match scheduler with
  | .weightedFairQueue wfq => do
    let wfq ← wfq.complete p c.now rateBps c.node.id
    return .weightedFairQueue wfq
  | scheduler => .ok scheduler

/-- `switch_tx_complete`. -/
def switchTxComplete (c : Ctx) : Prog Unit := do
  let sent ← header c.event.payload
  let egress ← c.image.packetEgressAt sent c.node.id
  let egress ← okOr egress (.missingSwitchQueue c.node.id none)
  let link ← c.image.link egress
  let entry ← getSwitch
  let (slot, queue) ← entry.queueFor c.node.id (some egress)
  let eligible ← eligibleNext c entry slot queue
  Prog.check (queue.inService = some c.event.payload)
    (.unexpectedTxComplete c.node.id queue.inService c.event.payload)
  let scheduler ← completeScheduler c queue.scheduler sent link.rateBps
  let next := if eligible.isSome && !queue.txReadyPending then eligible else none
  let departed ← countUp c.node.id entry.state.departedPackets
  let queue :=
    { queue with
      scheduler
      inService := none
      txReadyPending := queue.txReadyPending || next.isSome }
  let entry := entry.setQueue slot queue
  setSwitch { entry with state := { entry.state with departedPackets := departed } }
  recordDeparture c sent
  finishTransmission c.event.payload
  Prog.each next fun payload => emit c.node.id .txReady payload c.now

end Days
