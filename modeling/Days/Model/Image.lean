/-
  Days.Model.Image — the simulation image (`image.rs`): nodes and their states,
  flows, packets, links and declared channels.

  A per-class array `[T; 8]` is a function of the class, a `BTreeSet` is a
  finite set.  Collective identities keep the fields that progress records
  show; the policy fields only the validator reads are left out.
-/
import Mathlib.Data.Finset.Sort
import Days.Model.Scheduler
import Days.Model.Time
import Days.Transport.Tcp
import Days.Transport.Dcqcn

namespace Days

/-! ## §1. Packets. -/

structure PfcHeader where
  controlledLink : LinkId
  priority : Nat
  pause : Bool
  deriving DecidableEq

structure TcpDataHeader where
  sequence : Nat
  sentTimeNs : Nat
  retransmission : Bool
  deriving DecidableEq

structure TcpAckHeader where
  acknowledgment : Nat
  acknowledgedBytes : Nat
  echoedSentTimeNs : Nat
  deriving DecidableEq

structure RoceDataHeader where
  psn : Nat
  sentTimeNs : Nat
  retransmission : Bool
  deriving DecidableEq

structure RoceAckHeader where
  acknowledgment : Nat
  echoedSentTimeNs : Nat
  acknowledgedBytes : Nat
  ceEcho : Bool
  deriving DecidableEq

inductive PacketKind where
  | data
  | feedback
  | tcpData (header : TcpDataHeader)
  | tcpAck (header : TcpAckHeader)
  | pfc (header : PfcHeader)
  | dcqcnCnp (triggerPayload : PayloadId)
  | roceData (header : RoceDataHeader)
  | roceAck (header : RoceAckHeader)
  | roceNack (header : RoceAckHeader)
  | rocePacingTimer
  | stageNotify
  deriving DecidableEq

namespace PacketKind

def isData : PacketKind → Bool
  | data | tcpData _ | roceData _ => true
  | _ => false

def isFeedback : PacketKind → Bool
  | feedback | tcpAck _ | pfc _ | dcqcnCnp _ | roceAck _ | roceNack _ => true
  | _ => false

end PacketKind

structure PacketDescriptor where
  id : PayloadId
  flow : FlowId
  sizeBytes : Nat
  ecnMarked : Bool
  kind : PacketKind
  deriving DecidableEq

/-- Whether the codepoint of the packet is `Ce`. -/
def PacketDescriptor.congestionExperienced (p : PacketDescriptor) : Bool :=
  p.kind.isData && p.ecnMarked

/-! ## §2. Flows, links and channels. -/

structure FlowDescriptor where
  id : FlowId
  source : NodeId
  target : NodeId
  priority : Nat
  feedbackPriority : Nat
  route : List LinkId
  reverseRoute : List LinkId

/-- The class a packet of the flow travels in. -/
def FlowDescriptor.packetPriority (f : FlowDescriptor) : PacketKind → Nat
  | .dcqcnCnp _ | .roceAck _ | .roceNack _ => f.feedbackPriority
  | _ => f.priority

structure LinkDescriptor where
  id : LinkId
  source : NodeId
  target : NodeId
  rateBps : Nat
  propagationNs : Nat

namespace LinkDescriptor

def delayNs (l : LinkDescriptor) (bytes : Nat) : Except TimeError Nat :=
  linkArrivalTimeNs 0 bytes l.rateBps l.propagationNs

def arrivalTimeNs (l : LinkDescriptor) (startTimeNs bytes : Nat) : Except TimeError Nat :=
  linkArrivalTimeNs startTimeNs bytes l.rateBps l.propagationNs

end LinkDescriptor

structure RemoteChannel where
  source : NodeId
  target : NodeId
  link : LinkId
  eventKind : EventKind
  minDelayNs : Nat

/-! ## §3. Flow generators. -/

inductive GeneratorStatus where
  | scheduled
  | blocked
  | finished
  | stopped
  deriving DecidableEq

structure ScheduledEmission where
  status : GeneratorStatus
  departureTimeNs : Nat
  payload : PayloadId

structure GeneratorFeedbackState where
  arrivals : Nat
  outstandingBytes : Nat
  unacknowledgedBytes : Nat

inductive GeneratorTermination where
  | bytes (total : Nat)
  | durationNs (duration : Nat)

structure ConstantGenerator where
  firstDepartureNs : Nat
  intervalNs : Nat
  packetSizeBytes : Nat
  termination : GeneratorTermination

structure RateGenerator where
  firstPacingTimeNs : Nat
  pacingIntervalNs : Nat
  packetSizeBytes : Nat
  totalBytes : Nat
  rateNumeratorBitsPerSecond : Nat
  rateDenominator : Nat
  creditQuanta : Nat

structure DcqcnGenerator where
  rate : RateGenerator
  controller : DcqcnController
  cnpSizeBytes : Nat

structure RocePacer where
  firstPacingTimeNs : Nat
  pacingIntervalNs : Nat
  mtuBytes : Nat
  totalBytes : Nat
  creditQuanta : Nat

inductive RoceCongestionControl where
  | dcqcn
  | none
  deriving DecidableEq

structure RoceGenerator where
  pacer : RocePacer
  controller : DcqcnController
  pacingTimerPayload : PayloadId
  nextPsn : Nat
  sndUna : Nat
  rtoDeadlineNs : Nat
  rtoNs : Nat
  windowBytes : Nat
  pacerArmed : Bool
  variableWindow : Bool
  windowParked : Bool
  congestionControl : RoceCongestionControl

structure TcpTimerState where
  attempt : PayloadId
  sequence : Nat
  deadlineNs : Nat
  generation : Nat
  rtoNs : Nat

structure TcpGenerator where
  totalBytes : Nat
  mssBytes : Nat
  ackSizeBytes : Nat
  nextSequence : Nat
  highestAck : Nat
  bytesInFlight : Nat
  duplicateAcks : Nat
  recoveryHighSequence : Nat
  lastAttempt : PayloadId
  timerGeneration : Nat
  activeTimer : Option TcpTimerState
  srttNs : Nat
  rttVarNs : Nat
  rtoNs : Nat
  control : TcpCongestionControl

inductive FlowGeneratorKind where
  | constant (state : ConstantGenerator)
  | tcp (state : TcpGenerator)
  | rate (state : RateGenerator)
  | dcqcn (state : DcqcnGenerator)
  | roce (state : RoceGenerator)

structure FlowGeneratorState where
  flow : FlowId
  packetsEmitted : Nat
  bytesEmitted : Nat
  nextEmission : ScheduledEmission
  rngState : Nat
  feedback : GeneratorFeedbackState
  kind : FlowGeneratorKind

/-! ## §4. Collective and compute stages. -/

inductive CollectiveAlgorithm where
  | ringAllReduce
  | allGather
  | reduceScatter
  | allToAll
  | sendRecv

inductive CollectivePhase where
  | reduceScatter
  | allGather
  | allToAll
  | sendRecv

inductive StagePredecessors where
  | none
  | one (flow : FlowId)
  | join (first count : Nat)

namespace StagePredecessors

def count : StagePredecessors → Nat
  | none => 0
  | one _ => 1
  | join _ n => n

/-- `join_run`: the slice of the shared join table, empty when out of range. -/
def joinRun (joins : List FlowId) : StagePredecessors → List FlowId
  | join first n => if first + n ≤ joins.length then (joins.drop first).take n else []
  | _ => []

def toList (joins : List FlowId) : StagePredecessors → List FlowId
  | one flow => [flow]
  | p => p.joinRun joins

end StagePredecessors

structure StageDependencies where
  localPredecessors : StagePredecessors
  inbound : StagePredecessors
  inboundPredecessorBytes : Nat
  inboundBytesReceived : Nat
  localCompleted : Nat

namespace StageDependencies

def localComplete (d : StageDependencies) : Bool :=
  d.localCompleted == d.localPredecessors.count

def inboundComplete (d : StageDependencies) : Bool :=
  d.inboundBytesReceived == d.inboundPredecessorBytes

def prerequisitesComplete (d : StageDependencies) : Bool :=
  d.localComplete && d.inboundComplete

end StageDependencies

structure CollectiveStageIdentity where
  collectiveId : Nat
  algorithm : CollectiveAlgorithm
  groupSize : Nat
  declaredTotalBytes : Nat
  rank : Nat
  phase : CollectivePhase
  step : Nat
  chunkOffsetBytes : Nat
  chunkBytes : Nat

structure ComputeStage where
  computeId : Nat
  groupSize : Nat
  rank : Nat
  durationNs : Nat

inductive StageRole where
  | collective (identity : CollectiveStageIdentity)
  | compute (stage : ComputeStage)

structure CollectiveStage where
  role : StageRole
  dependencies : StageDependencies
  activated : Bool

/-! ## §5. Receivers. -/

structure TcpReceiveRange where
  start : Nat
  stop : Nat
  deriving DecidableEq

structure TcpReceiverState where
  flow : FlowId
  ackSizeBytes : Nat
  nextExpectedSequence : Nat
  outOfOrder : List TcpReceiveRange

structure DcqcnReceiverState where
  flow : FlowId
  cnpIntervalNs : Nat
  cnpSizeBytes : Nat
  lastCnpTimeNs : Option Nat

structure RoceNackMark where
  expectedPsn : Nat
  timeNs : Nat

structure RoceReceiverState where
  flow : FlowId
  totalBytes : Nat
  expectedPsn : Nat
  ackEveryPackets : Nat
  packetsSinceAck : Nat
  ackSizeBytes : Nat
  nackIntervalNs : Nat
  lastNack : Option RoceNackMark
  duplicateAck : Bool

/-! ## §6. Node states. -/

structure HostPfcState where
  pausedByController : Nat → Finset NodeId
  pauseParked : Nat → Finset Nat

def HostPfcState.isPaused (p : HostPfcState) (priority : Nat) : Bool :=
  decide (p.pausedByController priority ≠ ∅)

structure PfcIngressState where
  controlledLink : LinkId
  controlChannelIndex : Nat
  bufferCapacityBytes : Nat → Nat
  maxFrameBytes : Nat → Nat
  xoffThresholdBytes : Nat → Nat
  xonThresholdBytes : Nat → Nat
  occupancyBytes : Nat → Nat
  pauseAsserted : Nat → Bool

structure PfcQueueState where
  pausedByController : Nat → Finset NodeId
  ingresses : List PfcIngressState

def PfcQueueState.isPaused (p : PfcQueueState) (priority : Nat) : Bool :=
  decide (p.pausedByController priority ≠ ∅)

structure HostState where
  egressLink : LinkId
  queue : List PayloadId
  inService : Option PayloadId
  txReadyPending : Bool
  generators : List FlowGeneratorState
  stages : List (Option CollectiveStage)
  tcpReceivers : List TcpReceiverState
  dcqcnReceivers : List DcqcnReceiverState
  roceReceivers : Option (List RoceReceiverState)
  pfc : Option HostPfcState
  nextOriginSeq : Nat
  nextPayloadSeq : Nat
  sourcedPackets : Nat
  departedPackets : Nat
  receivedPackets : Nat

def HostState.stage (h : HostState) (position : Nat) : Option CollectiveStage :=
  (h.stages[position]?).join

structure SwitchQueueState where
  egressLink : Option LinkId
  scheduler : SchedulerKind
  queueCapacityPackets : Nat
  dropMark : DropMarkPolicy
  pfc : Option PfcQueueState
  queue : List PayloadId
  inService : Option PayloadId
  txReadyPending : Bool

structure SwitchState where
  queues : List SwitchQueueState
  nextOriginSeq : Nat
  arrivedPackets : Nat
  droppedPackets : Nat
  departedPackets : Nat

structure NodeDescriptor where
  id : NodeId
  kind : NodeKind
  stateSlot : Nat
  deriving DecidableEq

/-! ## §7. The image. -/

structure SimulationImage where
  stopTimeNs : Nat
  nodes : List NodeDescriptor
  hostStates : List HostState
  switchStates : List SwitchState
  flows : List FlowDescriptor
  initialPackets : List PacketDescriptor
  links : List LinkDescriptor
  channels : List RemoteChannel
  initialEvents : List Event
  seed : Nat
  stageJoins : List FlowId

end Days
