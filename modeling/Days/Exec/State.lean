/-
  Days.Exec.State — the state the transition handlers work on (`scalar.rs`,
  `packet_store.rs`, `tcp_ledger.rs`, `stage_index.rs`).

  A global state holds the tables of every node; a node-local one (`localNode`)
  holds a single entry, and its packet store only what that node owns.
-/
import Days.Model.Trace

namespace Days

/-! ## §1. Errors. -/

/-- The errors a handler raises on malformed tables and exhausted counters. -/
inductive PlainError where
  | unknownNode (node : NodeId)
  | invalidStateSlot (node : NodeId) (kind : NodeKind) (stateSlot : Nat)
  | unsupportedTransition (node : NodeId) (kind : NodeKind) (eventKind : EventKind)
  | unknownLink (link : LinkId)
  | linkSourceMismatch (link : LinkId) (expectedSource actualSource : NodeId)
  | unknownPacket (payload : PayloadId)
  | duplicatePayload (payload : PayloadId)
  | unknownFlow (flow : FlowId)
  | unknownGenerator (node : NodeId) (flow : FlowId)
  | unexpectedGeneratorEmission (node : NodeId) (flow : FlowId) (payload : PayloadId)
  | payloadSequenceOverflow (node : NodeId)
  | generatorTimeOverflow (flow : FlowId)
  | flowRouteMiss (flow : FlowId) (node : NodeId)
  | missingSwitchQueue (node : NodeId) (egressLink : Option LinkId)
  | invalidSchedulerState (node : NodeId)
  | missingWfqFinishTag (node : NodeId) (payload : PayloadId)
  | nonMonotoneWfqTime (node : NodeId) (previousNs currentNs : Nat)
  | counterOverflow (node : NodeId)
  | originSequenceOverflow (node : NodeId)
  | inconsistentRocePacket (flow : FlowId) (payload : PayloadId)
  | time (error : TimeError)

/-- `TcpSegmentConflict`: a segment of another size under the same sequence number. -/
structure TcpSegmentConflict where
  flow : FlowId
  sequence : Nat
  originalSizeBytes : Nat
  replacementSizeBytes : Nat

/-- `ExecutionError`: the plain errors, and those that would show a broken
segment ledger, event order, service slot or synchronisation window. -/
inductive ExecutionError where
  | plain (error : PlainError)
  | missingTcpSegment (flow : FlowId) (sequence : Nat)
  | inconsistentTcpSegment (conflict : TcpSegmentConflict)
  | duplicateEventKey (key : EventKey)
  | hostAlreadyTransmitting (node : NodeId)
  | switchAlreadyTransmitting (node : NodeId) (link : LinkId)
  | unexpectedTxComplete (node : NodeId) (expected : Option PayloadId) (actual : PayloadId)
  | nonMonotoneChild (parent child : EventKey)
  | supersededTimerMissing (node : NodeId) (payload : PayloadId) (deadlineNs : Nat)
  | nonPositiveLookahead
  | remoteEventBeforeHorizon (key : EventKey) (exclusiveHorizonNs : Nat)
  | eventBelowHorizonAfterDrain (key : EventKey) (exclusiveHorizonNs : Nat)

/-- `option.ok_or(error)`. -/
def okOr {α : Type} (o : Option α) (e : PlainError) : Except PlainError α :=
  match o with
  | some a => .ok a
  | none => .error e

@[simp] theorem okOr_eq_ok {α : Type} {o : Option α} {e : PlainError} {a : α} :
    okOr o e = .ok a ↔ o = some a := by
  cases o <;> simp [okOr]

/-- Refuse with `e` unless the condition holds. -/
def require (p : Prop) [Decidable p] (e : PlainError) : Except PlainError Unit :=
  if p then .ok () else .error e

@[simp] theorem require_eq_ok {p : Prop} [Decidable p] {e : PlainError} {u : Unit} :
    require p e = .ok u ↔ p := by
  unfold require
  split <;> simp_all

/-- A time computation inside a handler. -/
def ofTime {α : Type} : Except TimeError α → Except PlainError α
  | .ok a => .ok a
  | .error e => .error (.time e)

/-! ## §2. The stage index of a host. -/

def releasable (stage : Option CollectiveStage) : Bool :=
  stage.any fun s => !s.activated && s.dependencies.prerequisitesComplete

/-- Stages by the predecessor that feeds them, and those ready to start. -/
structure StageViews where
  localSuccessors : FlowId → List Nat
  inboundSuccessors : FlowId → List Nat
  releasableStages : Finset Nat

structure HostStageIndex where
  generatorsByFlow : List (FlowId × Nat)
  receiversByFlow : List (FlowId × Nat)
  stageViews : Option StageViews

/-- Positions by flow; the sorted table is searched for one flow. -/
def byFlow (flows : List FlowId) : List (FlowId × Nat) :=
  flows.zipIdx.insertionSort fun a b => a.1 < b.1 ∨ a.1 = b.1 ∧ a.2 ≤ b.2

/-- The stage positions that name `flow` among the given predecessors. -/
def successorsOf (h : HostState) (joins : List FlowId)
    (select : StageDependencies → StagePredecessors) (flow : FlowId) : List Nat :=
  (List.range h.generators.length).flatMap fun position =>
    match h.stage position with
    | none => []
    | some stage =>
      (((select stage.dependencies).toList joins).filter (· == flow)).map fun _ => position

namespace HostStageIndex

def build (h : HostState) (joins : List FlowId) : HostStageIndex where
  generatorsByFlow := byFlow (h.generators.map (·.flow))
  receiversByFlow := byFlow (h.tcpReceivers.map (·.flow))
  stageViews :=
    if (List.range h.generators.length).any fun position => (h.stage position).isSome then
      some {
        localSuccessors := successorsOf h joins (·.localPredecessors)
        inboundSuccessors := successorsOf h joins (·.inbound)
        releasableStages :=
          (Finset.range h.generators.length).filter fun position => releasable (h.stage position) }
    else none

def generatorsOf (index : HostStageIndex) (flow : FlowId) : List Nat :=
  (index.generatorsByFlow.filter (·.1 == flow)).map (·.2)

def firstGenerator (index : HostStageIndex) (flow : FlowId) : Option Nat :=
  (index.generatorsOf flow).head?

def firstReceiver (index : HostStageIndex) (flow : FlowId) : Option Nat :=
  ((index.receiversByFlow.filter (·.1 == flow)).map (·.2)).head?

/-- The first releasable stage whose generator is blocked. -/
def firstReady (index : HostStageIndex) (generators : List FlowGeneratorState) : Option Nat :=
  index.stageViews.bind fun views =>
    (List.range generators.length).find? fun position =>
      decide (position ∈ views.releasableStages) &&
        (generators[position]?).any fun g => decide (g.nextEmission.status = .blocked)

def refreshReleasable (index : HostStageIndex) (position : Nat) (stage : Option CollectiveStage) :
    HostStageIndex :=
  { index with
    stageViews := index.stageViews.map fun views =>
      { views with
        releasableStages :=
          if releasable stage then insert position views.releasableStages
          else views.releasableStages.erase position } }

end HostStageIndex

/-! ## §3. The TCP segment ledger. -/

abbrev TcpSegmentLedger := Std.ExtTreeMap FlowId (Std.ExtTreeMap Nat PacketDescriptor)

namespace TcpSegmentLedger

def segment (ledger : TcpSegmentLedger) (flow : FlowId) (sequence : Nat) :
    Option PacketDescriptor :=
  (ledger[flow]?).bind fun segments => segments[sequence]?

/-- `seed_segment`: remember a sent segment by its sequence number. -/
def seed (ledger : TcpSegmentLedger) (packet : PacketDescriptor) :
    Except TcpSegmentConflict TcpSegmentLedger :=
  match packet.kind with
  | .tcpData header =>
    let segments := (ledger[packet.flow]?).getD ∅
    match segments[header.sequence]? with
    | some original =>
      if original.sizeBytes ≠ packet.sizeBytes then
        .error ⟨packet.flow, header.sequence, original.sizeBytes, packet.sizeBytes⟩
      else .ok (ledger.insert packet.flow (segments.insert header.sequence packet))
    | none => .ok (ledger.insert packet.flow (segments.insert header.sequence packet))
  | _ => .ok ledger

/-- A segment cut at the acknowledgment. -/
def splitAt (packet : PacketDescriptor) (sequence acknowledgment : Nat) : PacketDescriptor :=
  { packet with
    sizeBytes := packet.sizeBytes - (acknowledgment - sequence)
    kind :=
      match packet.kind with
      | .tcpData header => .tcpData { header with sequence := acknowledgment }
      | kind => kind }

/-- The segments of a flow after an acknowledgment, the last acknowledged one cut. -/
def remaining (flow : FlowId) (acknowledgment : Nat)
    (segments : Std.ExtTreeMap Nat PacketDescriptor) :
    Except TcpSegmentConflict (Std.ExtTreeMap Nat PacketDescriptor) :=
  let unacknowledged := segments.filter fun sequence _ => decide (acknowledgment ≤ sequence)
  let acknowledged := segments.filter fun sequence _ => decide (sequence < acknowledgment)
  match acknowledged.toList.getLast? with
  | none => .ok unacknowledged
  | some (sequence, packet) =>
    if acknowledgment - sequence < packet.sizeBytes then
      let rest := splitAt packet sequence acknowledgment
      match unacknowledged[acknowledgment]? with
      | some original =>
        if original.sizeBytes ≠ rest.sizeBytes then
          .error ⟨flow, acknowledgment, original.sizeBytes, rest.sizeBytes⟩
        else .ok unacknowledged
      | none => .ok (unacknowledged.insert acknowledgment rest)
    else .ok unacknowledged

/-- `acknowledge_segments`: forget acknowledged segments, cutting the last one. -/
def acknowledge (ledger : TcpSegmentLedger) (flow : FlowId) (acknowledgment : Nat) :
    Except TcpSegmentConflict TcpSegmentLedger :=
  match ledger[flow]? with
  | none => .ok ledger
  | some segments => do
    let remaining ← remaining flow acknowledgment segments
    if remaining.isEmpty then return ledger.erase flow
    else return ledger.insert flow remaining

/-- All packets of the ledger, by flow and sequence. -/
def packets (ledger : TcpSegmentLedger) : List PacketDescriptor :=
  ledger.toList.flatMap fun entry => entry.2.toList.map (·.2)

end TcpSegmentLedger

/-! ## §4. Entries and the state. -/

/-- A packet in the store: who still transmits it, and whether it has ended. -/
structure ResidentPacket where
  descriptor : PacketDescriptor
  sourceTimeNs : Option Nat
  transmitters : Nat
  terminal : Bool

/-- The arrival order of a paused FIFO queue, class by class. -/
structure PfcClassOrder where
  nextSeq : Nat
  classes : Nat → List Nat

namespace PfcClassOrder

def new : PfcClassOrder := ⟨0, fun _ => []⟩

def push (order : PfcClassOrder) (priority : Nat) : PfcClassOrder :=
  { nextSeq := order.nextSeq + 1
    classes := Function.update order.classes priority (order.classes priority ++ [order.nextSeq]) }

def pop (order : PfcClassOrder) (priority : Nat) : PfcClassOrder :=
  { order with classes := Function.update order.classes priority (order.classes priority).tail }

/-- The queue position of the earliest packet of an unpaused class. -/
def firstUnpausedPosition (order : PfcClassOrder) (pfc : PfcQueueState) : Option Nat :=
  let fronts :=
    ((List.range 8).filter fun priority => !pfc.isPaused priority).filterMap fun priority =>
      (order.classes priority).head?
  fronts.min?.map fun first =>
    ((List.range 8).map fun priority => (order.classes priority).countP (· < first)).sum

end PfcClassOrder

structure HostEntry where
  state : HostState
  index : HostStageIndex

/-- A switch with its derived counters: queued bytes and class orders by queue. -/
structure SwitchEntry where
  state : SwitchState
  queueBytes : List Nat
  pfcOrders : List (Option PfcClassOrder)

/-- A timer that a later one of the same sender replaces. -/
structure SupersededTimer where
  target : NodeId
  payload : PayloadId
  deadlineNs : Nat

structure TransitionState where
  hosts : List HostEntry
  switches : List SwitchEntry
  localNode : Option NodeDescriptor
  packets : Std.ExtTreeMap PayloadId ResidentPacket
  summary : RunSummary
  observedPackets : Std.ExtTreeMap PayloadId PacketDescriptor
  departures : List (EventKey × PacketDeparture)
  arrivals : List (EventKey × PacketArrivalObservation)
  tcpTransitions : List TcpTransitionRecord
  aqmTransitions : List AqmTransitionRecord
  mechanismTransitions : List MechanismTransitionRecord
  tcpSentSegments : TcpSegmentLedger
  supersededTimers : List SupersededTimer
  children : List Event

/-! ## §5. Table lookups. -/

/-- `indexed_lookup`: by position when the id is its own index, else by search. -/
def indexedLookup {α : Type} (table : List α) (id : Nat) (matchesId : α → Bool) : Option α :=
  match (table[id]?).filter matchesId with
  | some a => some a
  | none => table.find? matchesId

namespace SimulationImage

def node (image : SimulationImage) (id : NodeId) : Except PlainError NodeDescriptor :=
  okOr (indexedLookup image.nodes id (·.id == id)) (.unknownNode id)

def link (image : SimulationImage) (id : LinkId) : Except PlainError LinkDescriptor :=
  okOr (indexedLookup image.links id (·.id == id)) (.unknownLink id)

def flow (image : SimulationImage) (id : FlowId) : Except PlainError FlowDescriptor :=
  okOr (indexedLookup image.flows id (·.id == id)) (.unknownFlow id)

end SimulationImage

namespace TransitionState

/-- `local_state_slot`: a local state has its one entry at position 0. -/
def localStateSlot (s : TransitionState) (node : NodeDescriptor) : Except PlainError Nat :=
  match s.localNode with
  | some owner => if owner = node then .ok 0 else .error (.unknownNode node.id)
  | none => .ok node.stateSlot

end TransitionState

end Days
