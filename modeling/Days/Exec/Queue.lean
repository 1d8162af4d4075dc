/-
  Days.Exec.Queue — pure parts of the switch handlers (`scalar.rs`): routes,
  admission, weighted fair queueing and the round-robin selections.
-/
import Days.Exec.Prog

namespace Days

/-! ## §1. Routes. -/

/-- The links a packet takes: data forward, everything else back. -/
def FlowDescriptor.path (f : FlowDescriptor) (kind : PacketKind) : List LinkId :=
  if kind.isData then f.route else f.reverseRoute

/-- Where a packet of the flow ends. -/
def FlowDescriptor.terminal (f : FlowDescriptor) (kind : PacketKind) : NodeId :=
  if kind.isData then f.target else f.source

namespace SimulationImage

variable (image : SimulationImage)

/-- The first link of `route` that leaves `node`. -/
def firstLinkFrom (node : NodeId) : List LinkId → Except PlainError (Option LinkId)
  | [] => .ok none
  | id :: rest => do
    let link ← image.link id
    if link.source = node then return some link.id else firstLinkFrom node rest

def packetEgressAt (p : PacketDescriptor) (node : NodeId) : Except PlainError (Option LinkId) := do
  let flow ← image.flow p.flow
  match ← image.firstLinkFrom node (flow.path p.kind) with
  | some link => return some link
  | none =>
    if flow.terminal p.kind = node then return none
    else throw (.flowRouteMiss flow.id node)

/-- The node a link of the route delivers to: the source of the next link. -/
def hopTarget (terminal : NodeId) : List LinkId → Except PlainError NodeId
  | [] => .ok terminal
  | next :: _ => do
    let link ← image.link next
    return link.source

def firstLinkTo (terminal node : NodeId) : List LinkId → Except PlainError (Option LinkId)
  | [] => .ok none
  | id :: rest => do
    let target ← image.hopTarget terminal rest
    if target = node then return some id else firstLinkTo terminal node rest

def packetIncomingLinkAt (p : PacketDescriptor) (node : NodeId) :
    Except PlainError (Option LinkId) := do
  let flow ← image.flow p.flow
  image.firstLinkTo (flow.terminal p.kind) node (flow.path p.kind)

/-- The suffix of a route after its first occurrence of `egress`. -/
def afterLink (egress : LinkId) : List LinkId → Option (List LinkId)
  | [] => none
  | id :: rest => if id = egress then some rest else afterLink egress rest

def packetRemoteTarget (p : PacketDescriptor) (egress : LinkId) : Except PlainError NodeId := do
  let flow ← image.flow p.flow
  match afterLink egress (flow.path p.kind) with
  | none =>
    let link ← image.link egress
    throw (.flowRouteMiss flow.id link.source)
  | some rest => image.hopTarget (flow.terminal p.kind) rest

def packetPfcClass (p : PacketDescriptor) : Except PlainError Nat := do
  let flow ← image.flow p.flow
  return flow.packetPriority p.kind

end SimulationImage

def allocatePayloadId (c : Ctx) (sequence : Nat) : Except PlainError PayloadId :=
  okOr (PayloadId.fromNodeSequence c.node.id c.nodeCount sequence)
    (.payloadSequenceOverflow c.node.id)

/-- `checked_add(1)` on a per-node counter. -/
def countUp (node : NodeId) (n : Nat) : Except PlainError Nat :=
  okOr (checkedAdd 64 n 1) (.counterOverflow node)

/-! ## §2. Admission. -/

inductive QueueAdmissionAction where
  | enqueue
  | mark
  | drop
  deriving DecidableEq

def ecnRampAction (policy : EcnRampPolicy) (queuedBytes : Nat) (p : PacketDescriptor)
    (seed : Nat) (node : NodeId) (queueId : Nat) (payload : PayloadId) : QueueAdmissionAction :=
  match ecnRampDecision policy queuedBytes p.sizeBytes p.kind.isData
      (ecnDraw (ecnQueueKey seed node queueId) payload) with
  | .enqueue => .enqueue
  | .mark => .mark
  | .drop => .drop

def taildropAction (capacityPackets queuedPackets queuedBytes packetSizeBytes : Nat)
    (node : NodeId) : Except PlainError QueueAdmissionAction := do
  let postPackets ← countUp node queuedPackets
  if (checkedAdd 64 queuedBytes packetSizeBytes).isNone ∨
      capacityPackets ≠ 0 ∧ postPackets > capacityPackets then return .drop
  else return .enqueue

/-! ## §3. Scheduling classes and weighted fair queueing. -/

def schedulerClass (flow : FlowId) (classCount : Nat) : Option Nat :=
  if classCount = 0 then none else some (flow % classCount)

def schedulerServesHead : SchedulerKind → Bool
  | .fifo | .staticPriority _ | .weightedFairQueue _ => true
  | .deficitRoundRobin _ | .weightedRoundRobin _ => false

def SchedulerKind.isFifo : SchedulerKind → Bool
  | .fifo => true
  | _ => false

namespace WfqSchedulerState

def activeWeightSum (s : WfqSchedulerState) : Nat :=
  (((s.weights.zip s.activePackets).filter fun entry => entry.2 ≠ 0).map (·.1)).sum

def idle (s : WfqSchedulerState) : Bool := s.activePackets.all (· == 0)

def advanceVirtualTime (s : WfqSchedulerState) (timeNs rateBps : Nat) (node : NodeId) :
    Except PlainError WfqSchedulerState := do
  let elapsedNs ← okOr (checkedSub timeNs s.lastUpdatedNs)
    (.nonMonotoneWfqTime node s.lastUpdatedNs timeNs)
  let weightSum := s.activeWeightSum
  require (weightSum ≠ 0) (.invalidSchedulerState node)
  if elapsedNs ≠ 0 then
    return { s with
      virtualTime :=
        s.virtualTime + ((elapsedNs * rateBps : Nat) : Rat) / ((1000000000 * weightSum : Nat) : Rat) }
  else return s

/-- The position before the first queued packet with a later finish tag. -/
def insertionPosition (s : WfqSchedulerState) (finish : Rat) (node : NodeId) :
    List PayloadId → Except PlainError Nat
  | [] => .ok 0
  | queued :: rest => do
    let queuedFinish ← okOr s.packetFinishTimes[queued]? (.missingWfqFinishTag node queued)
    if finish < queuedFinish then return 0
    else
      let position ← insertionPosition s finish node rest
      return position + 1

def classValid (s : WfqSchedulerState) (priority : Nat) : Bool :=
  s.weights[priority]? != some 0 && s.finishTimes.length == s.weights.length &&
    s.activePackets.length == s.weights.length

/-- The virtual time of an arrival; an idle queue starts over. -/
def arrivalTime (s : WfqSchedulerState) (arrivalTimeNs rateBps : Nat) (node : NodeId) :
    Except PlainError WfqSchedulerState :=
  if s.idle then .ok { s with virtualTime := 0, finishTimes := s.finishTimes.map fun _ => 0 }
  else s.advanceVirtualTime arrivalTimeNs rateBps node

/-- `wfq_enqueue`: tag the packet and place it by finish time. -/
def enqueue (s : WfqSchedulerState) (queue : List PayloadId) (p : PacketDescriptor)
    (arrivalTimeNs rateBps : Nat) (node : NodeId) :
    Except PlainError (WfqSchedulerState × List PayloadId) := do
  let priority ← okOr (schedulerClass p.flow s.weights.length) (.invalidSchedulerState node)
  require (s.classValid priority) (.invalidSchedulerState node)
  require (s.lastUpdatedNs ≤ arrivalTimeNs) (.nonMonotoneWfqTime node s.lastUpdatedNs arrivalTimeNs)
  let s ← s.arrivalTime arrivalTimeNs rateBps node
  let classFinish := s.finishTimes.getD priority 0
  let virtualStart := if s.virtualTime ≤ classFinish then classFinish else s.virtualTime
  let service := ((p.sizeBytes * 8 : Nat) : Rat) / ((s.weights.getD priority 0 : Nat) : Rat)
  let finish := virtualStart + service
  let position ← s.insertionPosition finish node queue
  require (s.packetFinishTimes[p.id]?).isNone (.invalidSchedulerState node)
  let active ← countUp node (s.activePackets.getD priority 0)
  return ({ s with
      finishTimes := s.finishTimes.set priority finish
      packetFinishTimes := s.packetFinishTimes.insert p.id finish
      activePackets := s.activePackets.set priority active
      lastUpdatedNs := arrivalTimeNs },
    queue.insertIdx position p.id)

/-- `wfq_complete`: drop the tag of a packet that has left. -/
def complete (s : WfqSchedulerState) (p : PacketDescriptor) (departureTimeNs rateBps : Nat)
    (node : NodeId) : Except PlainError WfqSchedulerState := do
  let priority ← okOr (schedulerClass p.flow s.weights.length) (.invalidSchedulerState node)
  require (s.classValid priority ∧ s.activePackets.getD priority 0 ≠ 0)
    (.invalidSchedulerState node)
  let s ← s.advanceVirtualTime departureTimeNs rateBps node
  require (s.packetFinishTimes[p.id]?).isSome (.missingWfqFinishTag node p.id)
  let s :=
    { s with
      packetFinishTimes := s.packetFinishTimes.erase p.id
      activePackets := s.activePackets.set priority (s.activePackets.getD priority 0 - 1) }
  let s :=
    if s.idle then { s with virtualTime := 0, finishTimes := s.finishTimes.set priority 0 } else s
  return { s with lastUpdatedNs := departureTimeNs }

end WfqSchedulerState

/-! ## §4. Round-robin selection. -/

/-- The first waiting packet of a scheduling class. -/
def classPosition (classCount priority : Nat) (packets : List PacketDescriptor) : Option Nat :=
  packets.findIdx? fun p => schedulerClass p.flow classCount == some priority

/-- The refill of one class: a waiting class gains a quantum, an idle one resets. -/
def refillDeficit (classCount : Nat) (quanta : List Nat) (packets : List PacketDescriptor)
    (node : NodeId) (priority deficit : Nat) : Except PlainError Nat :=
  if (classPosition classCount priority packets).isSome then
    okOr (checkedAdd 64 deficit (quanta.getD priority 0)) (.invalidSchedulerState node)
  else .ok 0

/-- One refill of all deficits. -/
def refillDeficits (classCount : Nat) (quanta : List Nat) (packets : List PacketDescriptor)
    (node : NodeId) : Nat → List Nat → Except PlainError (List Nat)
  | _, [] => .ok []
  | priority, deficit :: rest => do
    let deficit ← refillDeficit classCount quanta packets node priority deficit
    let rest ← refillDeficits classCount quanta packets node (priority + 1) rest
    return deficit :: rest

/-- The next class of the scan; the deficits grow when it wraps around. -/
def drrAdvance (quanta : List Nat) (packets : List PacketDescriptor) (node : NodeId)
    (current : Nat) (deficits : List Nat) : Except PlainError (Nat × List Nat) :=
  if current + 1 = quanta.length then do
    let deficits ← refillDeficits quanta.length quanta packets node 0 deficits
    return (0, deficits)
  else .ok (current + 1, deficits)

/-- The scan loop of deficit round robin. -/
def drrScan (quanta : List Nat) (packets : List PacketDescriptor) (node : NodeId) :
    Nat → Nat → Nat → List Nat → Except PlainError (Nat × Nat × Nat × List Nat)
  | 0, _, _, _ => .error (.invalidSchedulerState node)
  | fuel + 1, scanSteps, current, deficits =>
    let scanNext : Except PlainError (Nat × Nat × Nat × List Nat) := do
      let (current, deficits) ← drrAdvance quanta packets node current deficits
      drrScan quanta packets node fuel (scanSteps + 1) current deficits
    match classPosition quanta.length current packets with
    | some position =>
      let size := (packets[position]?).elim 0 (·.sizeBytes)
      let deficit := deficits.getD current 0
      if deficit > 0 ∧ size ≤ deficit then
        .ok (position, scanSteps, current, deficits.set current (deficit - size))
      else scanNext
    | none => scanNext

/-- Enough scan steps for one waiting class to earn its head packet. -/
def drrFuel (classCount : Nat) (packets : List PacketDescriptor) : Nat :=
  (classCount + 1) * ((packets.map (·.sizeBytes)).foldr max 0 + 3)

/-- The scan loop of weighted round robin. -/
def wrrScan (weights : List Nat) (packets : List PacketDescriptor) (node : NodeId) :
    Nat → Nat → List Nat → Except PlainError (Nat × Nat × List Nat)
  | 0, _, _ => .error (.invalidSchedulerState node)
  | fuel + 1, current, sent =>
    let scanNext :=
      wrrScan weights packets node fuel ((current + 1) % weights.length) (sent.set current 0)
    if sent.getD current 0 < weights.getD current 0 then
      match classPosition weights.length current packets with
      | some position => .ok (position, current, sent.set current (sent.getD current 0 + 1))
      | none => scanNext
    else scanNext

def wrrFuel (classCount : Nat) : Nat := 2 * classCount + 2

/-- `scheduler_select_position`: the position among the waiting packets, the
scan steps taken and the scheduler afterwards. -/
def schedulerSelectPosition (scheduler : SchedulerKind) (packets : List PacketDescriptor)
    (node : NodeId) : Except PlainError (Option (Nat × Nat) × SchedulerKind) :=
  if packets.isEmpty then .ok (none, scheduler)
  else match scheduler with
  | .fifo | .staticPriority _ | .weightedFairQueue _ => .ok (some (0, 0), scheduler)
  | .deficitRoundRobin state => do
    let classCount := state.quantaBytes.length
    require (classCount ≠ 0 ∧ state.deficitsBytes.length = classCount ∧ 0 ∉ state.quantaBytes)
      (.invalidSchedulerState node)
    require (state.currentClass < classCount) (.invalidSchedulerState node)
    let (position, scanSteps, current, deficits) ←
      drrScan state.quantaBytes packets node (drrFuel classCount packets) 0 state.currentClass
        state.deficitsBytes
    return (some (position, scanSteps),
      .deficitRoundRobin { state with deficitsBytes := deficits, currentClass := current })
  | .weightedRoundRobin state => do
    let classCount := state.weights.length
    require (classCount ≠ 0 ∧ state.packetsSentInRound.length = classCount ∧ 0 ∉ state.weights)
      (.invalidSchedulerState node)
    require (state.currentClass < classCount) (.invalidSchedulerState node)
    let (position, current, sent) ←
      wrrScan state.weights packets node (wrrFuel classCount) state.currentClass
        state.packetsSentInRound
    return (some (position, 0),
      .weightedRoundRobin { state with packetsSentInRound := sent, currentClass := current })

end Days
