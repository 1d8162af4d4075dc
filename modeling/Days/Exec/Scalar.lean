/-
  Days.Exec.Scalar — building the transition state, the serial event loop and
  its result (`scalar.rs`, `tcp_ledger.rs`).
-/
import Days.Exec.Future
import Days.Exec.HostArrival

namespace Days

/-! ## §1. Loading an image. -/

namespace TcpSegmentLedger

def seedAll (ledger : TcpSegmentLedger) : List PacketDescriptor →
    Except TcpSegmentConflict TcpSegmentLedger
  | [] => .ok ledger
  | p :: rest => do
    let ledger ← ledger.seed p
    seedAll ledger rest

def acknowledgeAll (ledger : TcpSegmentLedger) : List FlowGeneratorState →
    Except TcpSegmentConflict TcpSegmentLedger
  | [] => .ok ledger
  | g :: rest =>
    match g.kind with
    | .tcp tcp => do
      let ledger ← ledger.acknowledge g.flow tcp.highestAck
      acknowledgeAll ledger rest
    | _ => acknowledgeAll ledger rest

/-- `seed_packets`: the segments of some packets, cut at what is acknowledged. -/
def seedPackets (image : SimulationImage) (packets : List PacketDescriptor) :
    Except TcpSegmentConflict TcpSegmentLedger := do
  let ledger ← seedAll ∅ packets
  if ledger.isEmpty then return ledger
  else acknowledgeAll ledger (image.hostStates.flatMap (·.generators))

/-- `seed_image`. -/
def seedImage (image : SimulationImage) : Except TcpSegmentConflict TcpSegmentLedger :=
  seedPackets image image.initialPackets

end TcpSegmentLedger

/-- The packets a host refers to. -/
def HostState.references (h : HostState) : List PayloadId := h.queue ++ h.inService.toList

def SwitchQueueState.references (q : SwitchQueueState) : List PayloadId :=
  q.queue ++ q.inService.toList

def SwitchState.references (s : SwitchState) : List PayloadId :=
  s.queues.flatMap (·.references)

/-- `initial_live_payloads`. -/
def initialLivePayloads (image : SimulationImage) : List PayloadId :=
  (image.initialEvents.filter (·.kind != .retransmissionTimeout)).map (·.payload) ++
    image.hostStates.flatMap (·.references) ++ image.switchStates.flatMap (·.references)

/-- Put descriptors into a store; an id may occur once. -/
def loadPackets (store : Std.ExtTreeMap PayloadId ResidentPacket) : List PacketDescriptor →
    Except PlainError (Std.ExtTreeMap PayloadId ResidentPacket)
  | [] => .ok store
  | p :: rest =>
    match store[p.id]? with
    | some _ => .error (.duplicatePayload p.id)
    | none => loadPackets (store.insert p.id ⟨p, none, 0, false⟩) rest

/-- Count the service slots that hold each packet. -/
def loadTransmitters (node : NodeId) (store : Std.ExtTreeMap PayloadId ResidentPacket) :
    List PayloadId → Except PlainError (Std.ExtTreeMap PayloadId ResidentPacket)
  | [] => .ok store
  | id :: rest => do
    let r ← okOr store[id]? (.unknownPacket id)
    let transmitters ← okOr (checkedAdd 64 r.transmitters 1) (.counterOverflow node)
    loadTransmitters node (store.insert id { r with transmitters }) rest

/-- The bytes queued at a switch queue. -/
def derivedQueueBytes (node : NodeId) (store : Std.ExtTreeMap PayloadId ResidentPacket) :
    List PayloadId → Nat → Except PlainError Nat
  | [], total => .ok total
  | id :: rest, total => do
    let r ← okOr store[id]? (.unknownPacket id)
    let total ← okOr (checkedAdd 64 total r.descriptor.sizeBytes) (.counterOverflow node)
    derivedQueueBytes node store rest total

/-- The class order of a queue that is paused when it is loaded. -/
def derivedClassOrder (image : SimulationImage)
    (store : Std.ExtTreeMap PayloadId ResidentPacket) :
    PfcClassOrder → List PayloadId → Except PlainError PfcClassOrder
  | order, [] => .ok order
  | order, id :: rest => do
    let r ← okOr store[id]? (.unknownPacket id)
    let priority ← image.packetPfcClass r.descriptor
    derivedClassOrder image store (order.push priority) rest

def loadClassOrder (image : SimulationImage) (store : Std.ExtTreeMap PayloadId ResidentPacket)
    (q : SwitchQueueState) : Except PlainError (Option PfcClassOrder) :=
  if q.scheduler.isFifo && q.pfc.any pfcAnyPaused then do
    let order ← derivedClassOrder image store .new q.queue
    return some order
  else .ok none

/-- `derive_switch_queue_bytes` and the class orders, queue by queue. -/
def loadQueues (image : SimulationImage) (node : NodeId)
    (store : Std.ExtTreeMap PayloadId ResidentPacket) :
    List SwitchQueueState → Except PlainError (List Nat × List (Option PfcClassOrder))
  | [] => .ok ([], [])
  | q :: rest => do
    let bytes ← derivedQueueBytes node store q.queue 0
    let order ← loadClassOrder image store q
    let (restBytes, restOrders) ← loadQueues image node store rest
    return (bytes :: restBytes, order :: restOrders)

def loadSwitch (image : SimulationImage) (node : NodeId)
    (store : Std.ExtTreeMap PayloadId ResidentPacket) (s : SwitchState) :
    Except PlainError SwitchEntry := do
  let (queueBytes, pfcOrders) ← loadQueues image node store s.queues
  return ⟨s, queueBytes, pfcOrders⟩

/-- The node whose state lies in a switch slot: the last one of the table. -/
def switchOwner (image : SimulationImage) (slot : Nat) : Option NodeId :=
  (image.nodes.reverse.find? fun node =>
    decide (node.kind = .switch) && node.stateSlot == slot).map (·.id)

def loadSwitches (image : SimulationImage)
    (store : Std.ExtTreeMap PayloadId ResidentPacket) :
    Nat → List SwitchState → Except PlainError (List SwitchEntry)
  | _, [] => .ok []
  | slot, s :: rest => do
    let node ← okOr (switchOwner image slot) (.unknownNode slot)
    let entry ← loadSwitch image node store s
    let rest ← loadSwitches image store (slot + 1) rest
    return entry :: rest

def loadHost (image : SimulationImage) (h : HostState) : HostEntry :=
  ⟨h, .build h image.stageJoins⟩

def loadedState (hosts : List HostEntry) (switches : List SwitchEntry)
    (localNode : Option NodeDescriptor) (packets : Std.ExtTreeMap PayloadId ResidentPacket)
    (ledger : TcpSegmentLedger) : TransitionState where
  hosts := hosts
  switches := switches
  localNode := localNode
  packets := packets
  summary := .zero
  observedPackets := ∅
  departures := []
  arrivals := []
  tcpTransitions := []
  aqmTransitions := []
  mechanismTransitions := []
  tcpSentSegments := ledger
  supersededTimers := []
  children := []

/-- Whether a descriptor is loaded into the store; a TCP segment only the ledger
needs is not. -/
def isLoaded (live : List PayloadId) (p : PacketDescriptor) : Bool :=
  match p.kind with
  | .tcpData _ => decide (p.id ∈ live)
  | _ => true

/-- The service slots of an image. -/
def initialServices (image : SimulationImage) : List PayloadId :=
  image.hostStates.filterMap (·.inService) ++
    (image.switchStates.flatMap (·.queues)).filterMap (·.inService)

/-- `TransitionState::new`. -/
def TransitionState.new (image : SimulationImage) : Except ExecutionError TransitionState := do
  let ledger ← Prog.liftConflict (TcpSegmentLedger.seedImage image)
  let live := initialLivePayloads image
  let store ← Prog.liftPlain (loadPackets ∅ (image.initialPackets.filter (isLoaded live)))
  let store ← Prog.liftPlain (loadTransmitters 0 store (initialServices image))
  let switches ← Prog.liftPlain (loadSwitches image store 0 image.switchStates)
  return loadedState (image.hostStates.map (loadHost image)) switches none store ledger

/-! ## §2. The result. -/

/-- `resumable_packets`: the store, and the segments only the ledger has. -/
def resumablePackets (packets : Std.ExtTreeMap PayloadId ResidentPacket)
    (ledger : TcpSegmentLedger) : List PacketDescriptor :=
  let stored := packets.map fun _ r => r.descriptor
  let all := ledger.packets.foldl (fun descriptors p => descriptors.insertIfNew p.id p) stored
  all.toList.map (·.2)

/-- `finish`: sort the records and report. -/
def TransitionState.finish (s : TransitionState) (mode : ObservationMode)
    (pendingEvents : List Event) : RunResult where
  hostStates := s.hosts.map (·.state)
  switchStates := s.switches.map (·.state)
  summary := s.summary
  residentPackets := resumablePackets s.packets s.tcpSentSegments
  observedPackets := s.observedPackets.toList.map (·.2)
  departures := (s.departures.insertionSort fun a b => a.1 ≤ b.1).map (·.2)
  arrivals := (s.arrivals.insertionSort fun a b => a.1 ≤ b.1).map (·.2)
  diagnostics :=
    if mode = .full then
      some {
        tcpTransitions := s.tcpTransitions.insertionSort fun a b => a.key ≤ b.key
        aqmTransitions := s.aqmTransitions.insertionSort fun a b => a.key ≤ b.key
        mechanismTransitions := s.mechanismTransitions.insertionSort fun a b => a.orderLe b }
    else none
  pendingEvents := pendingEvents

/-! ## §3. The serial loop. -/

/-- A run between two events. -/
structure ScalarRun where
  state : TransitionState
  events : FutureEvents

/-- Whether an event of this time is still to be executed. -/
def withinRun (image : SimulationImage) (horizonNs : Option Nat) (timeNs : Nat) : Bool :=
  decide (timeNs ≤ image.stopTimeNs) && horizonNs.all fun horizon => decide (timeNs < horizon)

/-- Hand the superseded timers and the children of a dispatch to the event list. -/
def settleDispatch (s : TransitionState) (events : FutureEvents) :
    Except ExecutionError ScalarRun := do
  let events ← events.removeSuperseded s.supersededTimers
  let events ← events.insertAll s.children
  return ⟨{ s with supersededTimers := [], children := [] }, events⟩

/-- One turn of the loop; `none` when it is left. -/
def scalarStep (image : SimulationImage) (mode : ObservationMode) (horizonNs : Option Nat)
    (run : ScalarRun) : Except ExecutionError (Option ScalarRun) :=
  match run.events.peekKey with
  | none => .ok none
  | some key =>
    if withinRun image horizonNs key.timeNs then do
      match ← run.events.pop with
      | none => return none
      | some (event, events) =>
        let s ← dispatch image mode event run.state
        let run ← settleDispatch s events
        return some run
    else .ok none

/-- The loop; `none` when the fuel does not reach its end. -/
def scalarLoop (image : SimulationImage) (mode : ObservationMode) (horizonNs : Option Nat) :
    Nat → ScalarRun → Option (Except ExecutionError ScalarRun)
  | 0, _ => none
  | fuel + 1, run =>
    match scalarStep image mode horizonNs run with
    | .error e => some (.error e)
    | .ok none => some (.ok run)
    | .ok (some next) => scalarLoop image mode horizonNs fuel next

/-- The run before its first event. -/
def scalarStart (image : SimulationImage) : Except ExecutionError ScalarRun := do
  let s ← TransitionState.new image
  let events ← initialEventQueue [] .new image.initialEvents
  return ⟨s, events⟩

/-- The end of a run. -/
def ScalarRun.result (mode : ObservationMode) (run : ScalarRun) :
    Except ExecutionError RunResult := do
  let pending ← run.events.intoSortedVec
  return run.state.finish mode pending

/-- `run_scalar_with_observations` with the given fuel. -/
def runScalar (image : SimulationImage) (mode : ObservationMode) (horizonNs : Option Nat)
    (fuel : Nat) : Option (Except ExecutionError RunResult) :=
  match scalarStart image with
  | .error e => some (.error e)
  | .ok run => (scalarLoop image mode horizonNs fuel run).map fun ended => do
      let ended ← ended
      ended.result mode

end Days
