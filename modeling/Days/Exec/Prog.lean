/-
  Days.Exec.Prog — transition handlers as programs over a few operations.

  A handler reads and writes the state only through `Op`: its own node's entry,
  single packets by id, the segment ledger of its flows, counters and records,
  and the emission of child events.  `Prog.run` gives a program its meaning on a
  `TransitionState`; what holds of every operation then holds of every handler.
-/
import Days.Lib.Program
import Days.Exec.State

namespace Days

/-! ## §1. Operations. -/

/-- What a handler is run with: the image, the node, the dispatched event. -/
structure Ctx where
  image : SimulationImage
  mode : ObservationMode
  node : NodeDescriptor
  event : Event

namespace Ctx

def now (c : Ctx) : Nat := c.event.key.timeNs

def full (c : Ctx) : Bool := decide (c.mode = .full)

def nodeCount (c : Ctx) : Nat := c.image.nodes.length

end Ctx

inductive Op where
  | getHost
  | setHost (entry : HostEntry)
  | getSwitch
  | setSwitch (entry : SwitchEntry)
  | packet (id : PayloadId)
  | header (id : PayloadId)
  | sourceKey (id : PayloadId)
  | isRoceToken (id : PayloadId)
  | insertPacket (packet : PacketDescriptor) (sourceTimeNs : Option Nat)
  | setSourceTime (id : PayloadId) (timeNs : Nat)
  | setPacketMarked (id : PayloadId)
  | startTransmission (id : PayloadId)
  | finishTransmission (id : PayloadId)
  | markTerminal (id : PayloadId)
  | tcpSegment (flow : FlowId) (sequence : Nat)
  | seedTcpSegment (packet : PacketDescriptor)
  | acknowledgeTcpSegments (flow : FlowId) (acknowledgment : Nat)
  | countSourced (packet : PacketDescriptor)
  | countDeparted (id : PayloadId)
  | countArrival (packet : PacketDescriptor) (disposition : ArrivalDisposition)
  | pushDeparture (packet : PacketDescriptor)
  | pushArrival (packet : PacketDescriptor) (disposition : ArrivalDisposition)
  | pushTcp (record : TcpTransitionRecord)
  | pushAqm (record : AqmTransitionRecord)
  | pushMechanism (record : MechanismTransitionRecord)
  | cancelSupersededTimer (payload : PayloadId) (deadlineNs : Nat)
  | emit (target : NodeId) (kind : EventKind) (payload : PayloadId) (timeNs : Nat)

/-- What an operation answers. -/
@[reducible] def Resp : Op → Type
  | .getHost => HostEntry
  | .getSwitch => SwitchEntry
  | .packet _ => PacketDescriptor
  | .header _ => PacketDescriptor
  | .sourceKey _ => Option (Option Nat × FlowId × PayloadId)
  | .isRoceToken _ => Bool
  | .tcpSegment _ _ => Option PacketDescriptor
  | _ => Unit

/-! ## §2. Programs. -/

abbrev Prog := Lib.Program Op Resp ExecutionError

namespace Prog

def fail {α : Type} (e : ExecutionError) : Prog α := Lib.Program.fail e

/-- A computation that does not touch the state. -/
def ofExcept {α : Type} : Except PlainError α → Prog α
  | .ok a => Lib.Program.pure a
  | .error e => fail (.plain e)

instance : MonadLift (Except PlainError) Prog where
  monadLift := ofExcept

def op (o : Op) : Prog (Resp o) := Lib.Program.op o

/-- Fail with `e` unless the condition holds. -/
def check (p : Prop) [Decidable p] (e : ExecutionError) : Prog Unit :=
  if p then Pure.pure () else fail e

def when (b : Bool) (prog : Prog Unit) : Prog Unit := if b then prog else Pure.pure ()

/-- Do something for an optional value. -/
def each {α : Type} (o : Option α) (f : α → Prog Unit) : Prog Unit :=
  match o with
  | some a => f a
  | none => Pure.pure ()

end Prog

def getHost : Prog HostEntry := Prog.op .getHost
def setHost (entry : HostEntry) : Prog Unit := Prog.op (.setHost entry)
def getSwitch : Prog SwitchEntry := Prog.op .getSwitch
def setSwitch (entry : SwitchEntry) : Prog Unit := Prog.op (.setSwitch entry)
def packet (id : PayloadId) : Prog PacketDescriptor := Prog.op (.packet id)
/-- A descriptor without its mark, for handlers that do not look at the mark. -/
def header (id : PayloadId) : Prog PacketDescriptor := Prog.op (.header id)
def sourceKey (id : PayloadId) : Prog (Option (Option Nat × FlowId × PayloadId)) :=
  Prog.op (.sourceKey id)
def isRoceToken (id : PayloadId) : Prog Bool := Prog.op (.isRoceToken id)
def insertPacket (p : PacketDescriptor) (sourceTimeNs : Option Nat) : Prog Unit :=
  Prog.op (.insertPacket p sourceTimeNs)
def setSourceTime (id : PayloadId) (timeNs : Nat) : Prog Unit := Prog.op (.setSourceTime id timeNs)
def setPacketMarked (id : PayloadId) : Prog Unit := Prog.op (.setPacketMarked id)
def startTransmission (id : PayloadId) : Prog Unit := Prog.op (.startTransmission id)
def finishTransmission (id : PayloadId) : Prog Unit := Prog.op (.finishTransmission id)
def markTerminal (id : PayloadId) : Prog Unit := Prog.op (.markTerminal id)
def tcpSegment (flow : FlowId) (sequence : Nat) : Prog (Option PacketDescriptor) :=
  Prog.op (.tcpSegment flow sequence)
def seedTcpSegment (p : PacketDescriptor) : Prog Unit := Prog.op (.seedTcpSegment p)
def acknowledgeTcpSegments (flow : FlowId) (acknowledgment : Nat) : Prog Unit :=
  Prog.op (.acknowledgeTcpSegments flow acknowledgment)
def pushTcp (record : TcpTransitionRecord) : Prog Unit := Prog.op (.pushTcp record)
def pushAqm (record : AqmTransitionRecord) : Prog Unit := Prog.op (.pushAqm record)
def pushMechanism (record : MechanismTransitionRecord) : Prog Unit :=
  Prog.op (.pushMechanism record)
def cancelSupersededTimer (payload : PayloadId) (deadlineNs : Nat) : Prog Unit :=
  Prog.op (.cancelSupersededTimer payload deadlineNs)
def emit (target : NodeId) (kind : EventKind) (payload : PayloadId) (timeNs : Nat) : Prog Unit :=
  Prog.op (.emit target kind payload timeNs)

/-! ## §3. State updates. -/

namespace TransitionState

def hostAt (s : TransitionState) (node : NodeDescriptor) : Except PlainError HostEntry := do
  let slot ← s.localStateSlot node
  okOr s.hosts[slot]? (.invalidStateSlot node.id node.kind node.stateSlot)

def switchAt (s : TransitionState) (node : NodeDescriptor) : Except PlainError SwitchEntry := do
  let slot ← s.localStateSlot node
  okOr s.switches[slot]? (.invalidStateSlot node.id node.kind node.stateSlot)

/-- Replace the entry of a node; a node without one is left alone. -/
def setHostAt (s : TransitionState) (node : NodeDescriptor) (entry : HostEntry) :
    TransitionState :=
  match s.localStateSlot node with
  | .ok slot => { s with hosts := s.hosts.set slot entry }
  | .error _ => s

def setSwitchAt (s : TransitionState) (node : NodeDescriptor) (entry : SwitchEntry) :
    TransitionState :=
  match s.localStateSlot node with
  | .ok slot => { s with switches := s.switches.set slot entry }
  | .error _ => s

def resident (s : TransitionState) (id : PayloadId) : Except PlainError ResidentPacket :=
  okOr s.packets[id]? (.unknownPacket id)

def setResident (s : TransitionState) (id : PayloadId) (r : ResidentPacket) : TransitionState :=
  { s with packets := s.packets.insert id r }

def removePacket (s : TransitionState) (id : PayloadId) : TransitionState :=
  { s with packets := s.packets.erase id }

end TransitionState

/-- `add_summary`: the run totals are 128-bit. -/
def addSummary (node : NodeId) (total value : Nat) : Except PlainError Nat :=
  okOr (checkedAdd 128 total value) (.counterOverflow node)

namespace RunSummary

def addSourced (node : NodeId) (size : Nat) (t : RunSummary) : Except PlainError RunSummary := do
  let packets ← addSummary node t.sourcedPackets 1
  let bytes ← addSummary node t.sourcedBytes size
  return { t with sourcedPackets := packets, sourcedBytes := bytes }

def addDeparted (node : NodeId) (size : Nat) (t : RunSummary) : Except PlainError RunSummary := do
  let packets ← addSummary node t.departedPackets 1
  let bytes ← addSummary node t.departedBytes size
  return { t with departedPackets := packets, departedBytes := bytes }

def addArrival (node : NodeId) (size : Nat) (t : RunSummary) :
    ArrivalDisposition → Except PlainError RunSummary
  | .admitted => do
    let packets ← addSummary node t.admittedPackets 1
    let bytes ← addSummary node t.admittedBytes size
    return { t with admittedPackets := packets, admittedBytes := bytes }
  | .dropped => do
    let packets ← addSummary node t.droppedPackets 1
    let bytes ← addSummary node t.droppedBytes size
    return { t with droppedPackets := packets, droppedBytes := bytes }
  | .delivered => do
    let packets ← addSummary node t.receivedPackets 1
    let bytes ← addSummary node t.receivedBytes size
    return { t with receivedPackets := packets, receivedBytes := bytes }
  | .feedback => do
    let packets ← addSummary node t.feedbackPackets 1
    let bytes ← addSummary node t.feedbackBytes size
    return { t with feedbackPackets := packets, feedbackBytes := bytes }

end RunSummary

/-- `observe_packet`: a later sighting can only add the ECN mark. -/
def TransitionState.observePacket (c : Ctx) (s : TransitionState) (p : PacketDescriptor) :
    TransitionState :=
  if c.full then
    let observed :=
      match s.observedPackets[p.id]? with
      | some first => { first with ecnMarked := first.ecnMarked || p.ecnMarked }
      | none => p
    { s with observedPackets := s.observedPackets.insert p.id observed }
  else s

/-! ## §4. Execution. -/

/-- The child an emission creates, and the counter it takes its sequence from. -/
def childEvent (c : Ctx) (originSeq : Nat) (target : NodeId) (kind : EventKind)
    (payload : PayloadId) (timeNs : Nat) : Event where
  key := ⟨timeNs, eventPhase kind, c.node.id, originSeq⟩
  target := target
  kind := kind
  payload := payload

/-- `insert_child`: a child lies strictly after its parent. -/
def insertChild (c : Ctx) (child : Event) (s : TransitionState) :
    Except ExecutionError TransitionState :=
  if child.key ≤ c.event.key then .error (.nonMonotoneChild c.event.key child.key)
  else .ok { s with children := s.children ++ [child] }

def Prog.liftPlain {α : Type} : Except PlainError α → Except ExecutionError α
  | .ok a => .ok a
  | .error e => .error (.plain e)

/-- `tcp_segment_conflict`. -/
def Prog.liftConflict {α : Type} : Except TcpSegmentConflict α → Except ExecutionError α
  | .ok a => .ok a
  | .error conflict => .error (.inconsistentTcpSegment conflict)

/-- `emit_from_host` and `emit_from_switch`: they differ in the table that holds
the origin's sequence counter. -/
def emitChild (c : Ctx) (target : NodeId) (kind : EventKind) (payload : PayloadId)
    (timeNs : Nat) (s : TransitionState) : Except ExecutionError TransitionState :=
  match c.node.kind with
  | .host => do
    let entry ← Prog.liftPlain (s.hostAt c.node)
    let originSeq := entry.state.nextOriginSeq
    let next ← Prog.liftPlain
      (okOr (checkedAdd 64 originSeq 1) (.originSequenceOverflow c.node.id))
    insertChild c (childEvent c originSeq target kind payload timeNs)
      (s.setHostAt c.node { entry with state := { entry.state with nextOriginSeq := next } })
  | .switch => do
    let entry ← Prog.liftPlain (s.switchAt c.node)
    let originSeq := entry.state.nextOriginSeq
    let next ← Prog.liftPlain
      (okOr (checkedAdd 64 originSeq 1) (.originSequenceOverflow c.node.id))
    insertChild c (childEvent c originSeq target kind payload timeNs)
      (s.setSwitchAt c.node { entry with state := { entry.state with nextOriginSeq := next } })

/-- `finish_transmission`: a local store drops what it no longer sends, the
global one keeps it until the packet has ended somewhere. -/
def finishResident (c : Ctx) (id : PayloadId) (s : TransitionState) :
    Except ExecutionError TransitionState := do
  let r ← Prog.liftPlain (s.resident id)
  match checkedSub r.transmitters 1 with
  | none => .error (.unexpectedTxComplete c.node.id none id)
  | some transmitters =>
    if transmitters = 0 ∧ (r.terminal ∨ s.localNode.isSome) then .ok (s.removePacket id)
    else .ok (s.setResident id { r with transmitters })

/-- Run one operation. -/
def Op.exec (c : Ctx) : (o : Op) → TransitionState → Except ExecutionError (Resp o × TransitionState)
  | .getHost, s => do
    let entry ← Prog.liftPlain (s.hostAt c.node)
    return (entry, s)
  | .setHost entry, s => .ok ((), s.setHostAt c.node entry)
  | .getSwitch, s => do
    let entry ← Prog.liftPlain (s.switchAt c.node)
    return (entry, s)
  | .setSwitch entry, s => .ok ((), s.setSwitchAt c.node entry)
  | .packet id, s => do
    let r ← Prog.liftPlain (s.resident id)
    return (r.descriptor, s)
  | .header id, s => do
    let r ← Prog.liftPlain (s.resident id)
    return ({ r.descriptor with ecnMarked := false }, s)
  | .sourceKey id, s =>
    .ok ((s.packets[id]?).map fun r => (r.sourceTimeNs, r.descriptor.flow, r.descriptor.id), s)
  | .isRoceToken id, s =>
    .ok ((s.packets[id]?).any fun r => decide (r.descriptor.kind = .rocePacingTimer), s)
  | .insertPacket p sourceTimeNs, s =>
    match s.packets[p.id]? with
    | some _ => .error (.plain (.duplicatePayload p.id))
    | none => .ok ((), s.setResident p.id ⟨p, sourceTimeNs, 0, false⟩)
  | .setSourceTime id timeNs, s => do
    let r ← Prog.liftPlain (s.resident id)
    return ((), s.setResident id { r with sourceTimeNs := some timeNs })
  | .setPacketMarked id, s => do
    let r ← Prog.liftPlain (s.resident id)
    return ((), s.setResident id { r with descriptor := { r.descriptor with ecnMarked := true } })
  | .startTransmission id, s => do
    let r ← Prog.liftPlain (s.resident id)
    let transmitters ← Prog.liftPlain
      (okOr (checkedAdd 64 r.transmitters 1) (.counterOverflow c.node.id))
    return ((), s.setResident id { r with transmitters })
  | .finishTransmission id, s => do
    let s ← finishResident c id s
    return ((), s)
  | .markTerminal id, s => do
    let r ← Prog.liftPlain (s.resident id)
    if r.transmitters = 0 then return ((), s.removePacket id)
    else return ((), s.setResident id { r with terminal := true })
  | .tcpSegment flow sequence, s => .ok (s.tcpSentSegments.segment flow sequence, s)
  | .seedTcpSegment p, s => do
    let ledger ← Prog.liftConflict (s.tcpSentSegments.seed p)
    return ((), { s with tcpSentSegments := ledger })
  | .acknowledgeTcpSegments flow acknowledgment, s => do
    let ledger ← Prog.liftConflict (s.tcpSentSegments.acknowledge flow acknowledgment)
    return ((), { s with tcpSentSegments := ledger })
  | .countSourced p, s => do
    let summary ← Prog.liftPlain (s.summary.addSourced c.node.id p.sizeBytes)
    return ((), { s.observePacket c p with summary })
  | .countDeparted id, s => do
    let r ← Prog.liftPlain (s.resident id)
    let summary ← Prog.liftPlain (s.summary.addDeparted c.node.id r.descriptor.sizeBytes)
    return ((), { s.observePacket c r.descriptor with summary })
  | .countArrival p disposition, s => do
    let summary ← Prog.liftPlain (s.summary.addArrival c.node.id p.sizeBytes disposition)
    return ((), { s.observePacket c p with summary })
  | .pushDeparture p, s =>
    .ok ((), { s with departures := s.departures ++ [(c.event.key, ⟨p.id, c.now⟩)] })
  | .pushArrival p disposition, s =>
    .ok ((), { s with arrivals := s.arrivals ++ [(c.event.key, ⟨p.id, c.now, disposition⟩)] })
  | .pushTcp record, s => .ok ((), { s with tcpTransitions := s.tcpTransitions ++ [record] })
  | .pushAqm record, s => .ok ((), { s with aqmTransitions := s.aqmTransitions ++ [record] })
  | .pushMechanism record, s =>
    .ok ((), { s with mechanismTransitions := s.mechanismTransitions ++ [record] })
  | .cancelSupersededTimer payload deadlineNs, s =>
    .ok ((), { s with
      supersededTimers := s.supersededTimers ++ [⟨c.node.id, payload, deadlineNs⟩] })
  | .emit target kind payload timeNs, s => do
    let s ← emitChild c target kind payload timeNs s
    return ((), s)

/-- Run a program. -/
def Prog.run {α : Type} (c : Ctx) (prog : Prog α) (s : TransitionState) :
    Except ExecutionError (α × TransitionState) :=
  Lib.Program.run (Op.exec c) prog s

end Days
