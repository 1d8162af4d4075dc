/-
  Days.Model.Trace — what a run reports (`scalar.rs`, `mechanism_trace.rs`):
  summary counters, departures and arrivals, and the records of the TCP, AQM
  and mechanism planes.
-/
import Days.Transport.Roce

namespace Days

/-! ## §1. Summary and packet observations. -/

inductive ObservationMode where
  | summary
  | full
  deriving DecidableEq

inductive ArrivalDisposition where
  | admitted
  | dropped
  | delivered
  | feedback
  deriving DecidableEq

structure PacketDeparture where
  payload : PayloadId
  timeNs : Nat

structure PacketArrivalObservation where
  payload : PayloadId
  timeNs : Nat
  disposition : ArrivalDisposition

structure RunSummary where
  sourcedPackets : Nat
  sourcedBytes : Nat
  departedPackets : Nat
  departedBytes : Nat
  admittedPackets : Nat
  admittedBytes : Nat
  receivedPackets : Nat
  receivedBytes : Nat
  droppedPackets : Nat
  droppedBytes : Nat
  feedbackPackets : Nat
  feedbackBytes : Nat

def RunSummary.zero : RunSummary := ⟨0, 0, 0, 0, 0, 0, 0, 0, 0, 0, 0, 0⟩

/-! ## §2. The TCP and AQM planes. -/

inductive TcpTransitionInput where
  | newAck (acknowledgedBytes rttSampleNs flightSizeBytes acknowledgment : Nat)
  | duplicateAck (flightSizeBytes recoveryHighSequence : Nat)
  | timeout (flightSizeBytes : Nat)

structure TcpTransitionRecord where
  key : EventKey
  node : NodeId
  flow : FlowId
  mssBytes : Nat
  input : TcpTransitionInput
  before : TcpCongestionControl
  after : TcpCongestionControl

structure AqmTransitionRecord where
  key : EventKey
  node : NodeId
  queueId : Nat
  payload : PayloadId
  queuedBytesBefore : Nat
  packetSizeBytes : Nat
  ecnBefore : Bool
  ecnAfter : Bool
  policy : EcnRampPolicy
  action : EcnRampAction

/-! ## §3. The mechanism plane. -/

structure RateReplayConfig where
  pacingIntervalNs : Nat
  packetSizeBytes : Nat
  totalBytes : Nat
  rateNumeratorBitsPerSecond : Nat
  rateDenominator : Nat

structure RateReplayState where
  packetsEmitted : Nat
  bytesEmitted : Nat
  creditQuanta : Nat
  status : GeneratorStatus
  nextTimeNs : Nat

structure RateTransitionRecord where
  key : EventKey
  node : NodeId
  flow : FlowId
  payload : PayloadId
  stopTimeNs : Nat
  currentPacketSizeBytes : Nat
  config : RateReplayConfig
  before : RateReplayState
  after : RateReplayState

inductive PfcOccupancyAction where
  | admission
  | drain

inductive PfcControlAction where
  | pause
  | resume

structure PfcThresholdTransitionRecord where
  key : EventKey
  node : NodeId
  queueId : Nat
  controlledLink : LinkId
  priority : Nat
  xonBytes : Nat
  xoffBytes : Nat
  bufferCapacityBytes : Nat
  amountBytes : Nat
  action : PfcOccupancyAction
  beforeOccupancyBytes : Nat
  beforeAsserted : Bool
  afterOccupancyBytes : Nat
  afterAsserted : Bool
  emitted : Option PfcControlAction

structure PfcControlTransitionRecord where
  key : EventKey
  node : NodeId
  queueId : Nat
  controlledLink : LinkId
  controller : NodeId
  priority : Nat
  action : PfcControlAction
  beforeControllers : Finset NodeId
  afterControllers : Finset NodeId

structure SchedulerPacket where
  payload : PayloadId
  flow : FlowId
  sizeBytes : Nat

def schedulerPacket (p : PacketDescriptor) : SchedulerPacket := ⟨p.id, p.flow, p.sizeBytes⟩

structure DrrTransitionRecord where
  key : EventKey
  node : NodeId
  queueId : Nat
  quantaBytes : List Nat
  beforeDeficitsBytes : List Nat
  beforeCurrentClass : Nat
  scanSteps : Nat
  eligiblePackets : List SchedulerPacket
  selectedPayload : PayloadId
  afterDeficitsBytes : List Nat
  afterCurrentClass : Nat

structure WrrTransitionRecord where
  key : EventKey
  node : NodeId
  queueId : Nat
  weights : List Nat
  beforePacketsSent : List Nat
  beforeCurrentClass : Nat
  eligiblePackets : List SchedulerPacket
  selectedPayload : PayloadId
  afterPacketsSent : List Nat
  afterCurrentClass : Nat

inductive WfqTransitionKind where
  | enqueue
  | select
  | complete

structure WfqReplayState where
  virtualTime : Rat
  lastUpdatedNs : Nat
  finishTimes : List Rat
  activePackets : List Nat

def WfqReplayState.of (s : WfqSchedulerState) : WfqReplayState :=
  ⟨s.virtualTime, s.lastUpdatedNs, s.finishTimes, s.activePackets⟩

structure WfqQueuedPacket where
  packet : SchedulerPacket
  pfcPriority : Nat
  finish : Rat

structure WfqTransitionRecord where
  key : EventKey
  node : NodeId
  queueId : Nat
  kind : WfqTransitionKind
  rateBps : Nat
  weights : List Nat
  packet : SchedulerPacket
  virtualStart : Option Rat
  finish : Option Rat
  after : WfqReplayState
  queuedPackets : List WfqQueuedPacket
  pausedPriorities : List Nat
  pfcPriority : Nat

inductive SpTransitionKind where
  | enqueue
  | schedule
  | depart

structure SpTransitionRecord where
  key : EventKey
  node : NodeId
  queueId : Nat
  kind : SpTransitionKind
  classCount : Nat
  packet : SchedulerPacket
  classId : Nat
  priority : Nat
  departureTimeNs : Option Nat

structure DcqcnTransitionRecord where
  key : EventKey
  node : NodeId
  flow : FlowId
  kind : DcqcnTransitionKind
  boundNs : Nat
  advance : DcqcnAdvance
  frozen : Bool
  before : DcqcnController
  after : DcqcnController

inductive CollectiveActivationCause where
  | localCompletion
  | inboundArrival

inductive CollectiveStageKind where
  | tcp
  | compute
  | roce
  | notify

structure CollectiveProgressRecord where
  key : EventKey
  ordinal : Nat
  node : NodeId
  flow : FlowId
  cause : CollectiveActivationCause
  causeFlow : FlowId
  arrivalBytes : Nat
  collectiveId : Nat
  algorithm : Option CollectiveAlgorithm
  groupSize : Nat
  declaredTotalBytes : Nat
  rank : Nat
  phase : Option CollectivePhase
  step : Nat
  chunkOffsetBytes : Nat
  chunkBytes : Nat
  packetSizeBytes : Nat
  intervalNs : Nat
  stopTimeNs : Nat
  inboundPredecessorBytes : Nat
  beforeLocalComplete : Bool
  beforeLocalCompleted : Nat
  beforeInboundComplete : Bool
  beforeInboundBytes : Nat
  activated : Bool
  afterLocalComplete : Bool
  afterLocalCompleted : Nat
  afterInboundComplete : Bool
  afterInboundBytes : Nat
  afterPacketsEmitted : Nat
  afterBytesEmitted : Nat
  afterStatus : GeneratorStatus
  afterNextTimeNs : Nat
  stageKind : CollectiveStageKind
  durationNs : Nat
  segmentSequence : Nat
  segmentBytes : Nat
  ackNumber : Nat
  causeOriginNs : Nat
  causeDelayNs : Nat

inductive RoceSenderKind where
  | tick
  | ack
  | nack
  | timeout
  | resume

structure RoceEmission where
  psn : Nat
  bytes : Nat
  retransmission : Bool
  payload : PayloadId

structure RoceSenderRecord where
  key : EventKey
  node : NodeId
  flow : FlowId
  kind : RoceSenderKind
  classPaused : Bool
  windowBlocked : Bool
  dataClass : Nat
  pacer : RocePacer
  rtoNs : Nat
  windowBytes : Nat
  variableWindow : Bool
  maximumRateBps : Nat
  initialRateBps : Nat
  congestionControl : RoceCongestionControl
  rateBps : Option Nat
  inputAcknowledgment : Option Nat
  inputCeEcho : Option Bool
  emitted : Option RoceEmission
  before : Roce.SenderView
  after : Roce.SenderView

structure RoceReceiverRecord where
  key : EventKey
  node : NodeId
  flow : FlowId
  totalBytes : Nat
  ackEveryPackets : Nat
  nackIntervalNs : Nat
  duplicateAck : Bool
  ackSizeBytes : Nat
  packetPsn : Nat
  packetBytes : Nat
  packetSentTimeNs : Nat
  packetRetransmission : Bool
  packetCe : Bool
  action : Roce.ReceiverAction
  feedbackAcknowledgment : Option Nat
  feedbackPayload : Option PayloadId
  feedbackCeEcho : Option Bool
  before : Roce.ReceiverView
  after : Roce.ReceiverView

inductive MechanismTransitionRecord where
  | rate (record : RateTransitionRecord)
  | pfcThreshold (record : PfcThresholdTransitionRecord)
  | pfcControl (record : PfcControlTransitionRecord)
  | drr (record : DrrTransitionRecord)
  | wrr (record : WrrTransitionRecord)
  | dcqcn (record : DcqcnTransitionRecord)
  | collective (record : CollectiveProgressRecord)
  | roceSender (record : RoceSenderRecord)
  | roceReceiver (record : RoceReceiverRecord)
  | wfq (record : WfqTransitionRecord)
  | sp (record : SpTransitionRecord)

namespace MechanismTransitionRecord

def key : MechanismTransitionRecord → EventKey
  | rate r => r.key
  | pfcThreshold r => r.key
  | pfcControl r => r.key
  | drr r => r.key
  | wrr r => r.key
  | dcqcn r => r.key
  | collective r => r.key
  | roceSender r => r.key
  | roceReceiver r => r.key
  | wfq r => r.key
  | sp r => r.key

/-- The tag and ordinal that order the records of one event. -/
def ordinal : MechanismTransitionRecord → Nat × Nat
  | rate _ => (0, 0)
  | pfcThreshold _ => (1, 0)
  | pfcControl _ => (2, 0)
  | drr _ => (3, 0)
  | wrr _ => (4, 0)
  | dcqcn _ => (5, 0)
  | collective r => (6, r.ordinal)
  | roceSender r => (7, r.flow)
  | roceReceiver r => (7, r.flow)
  | wfq _ => (8, 0)
  | sp _ => (9, 0)

/-- `canonical_order_key` as a comparison. -/
def orderLe (a b : MechanismTransitionRecord) : Bool :=
  decide (a.key < b.key) || (decide (a.key = b.key) &&
    (decide (a.ordinal.1 < b.ordinal.1) ||
      (decide (a.ordinal.1 = b.ordinal.1) && decide (a.ordinal.2 ≤ b.ordinal.2))))

end MechanismTransitionRecord

structure DiagnosticPlanes where
  tcpTransitions : List TcpTransitionRecord
  aqmTransitions : List AqmTransitionRecord
  mechanismTransitions : List MechanismTransitionRecord

/-- What a backend returns. -/
structure RunResult where
  hostStates : List HostState
  switchStates : List SwitchState
  summary : RunSummary
  residentPackets : List PacketDescriptor
  observedPackets : List PacketDescriptor
  departures : List PacketDeparture
  arrivals : List PacketArrivalObservation
  diagnostics : Option DiagnosticPlanes
  pendingEvents : List Event

end Days
