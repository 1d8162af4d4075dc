/-
  Days.Exec.Validate — the checks an image passes before it runs, as far as they
  concern its TCP senders and their segments, and the drop policies of its switch
  queues (`validate.rs`).

  A check is the condition under which the validator does not refuse the image.
-/
import Days.Exec.Scalar

namespace Days

/-! ## §1. Tables. -/

/-- `validate_packet_ids`: packet ids advance. -/
def validatePacketIds (image : SimulationImage) : Bool :=
  decide (List.IsChain (· < ·) (image.initialPackets.map (·.id)))

/-- `packet`: the descriptor of an id. -/
def SimulationImage.initialPacket (image : SimulationImage) (id : PayloadId) :
    Option PacketDescriptor :=
  image.initialPackets.find? (·.id == id)

/-- `staged_generators`: the generators of a host with their stages. -/
def HostState.stagedGenerators (h : HostState) :
    List (FlowGeneratorState × Option CollectiveStage) :=
  h.generators.zipIdx.map fun g => (g.1, h.stage g.2)

/-- Every generator of an image. -/
def SimulationImage.generators (image : SimulationImage) : List FlowGeneratorState :=
  image.hostStates.flatMap (·.generators)

/-- A flow has one generator. -/
def validateGeneratorOwners (image : SimulationImage) : Bool :=
  decide ((image.generators.map (·.flow)).Nodup)

/-- The bytes of some queued packets, summed in 64 bits. -/
def SimulationImage.queuedBytes (image : SimulationImage) : List PayloadId → Nat → Option Nat
  | [], total => some total
  | id :: rest, total => do
    let p ← image.initialPacket id
    let total ← checkedAdd 64 total p.sizeBytes
    image.queuedBytes rest total

/-- `validate_drop_mark_policy`. -/
def validateDropMarkPolicy (image : SimulationImage) (queue : SwitchQueueState) : Bool :=
  match image.queuedBytes queue.queue 0 with
  | none => false
  | some queuedBytes =>
    match queue.dropMark with
    | .tailDrop => true
    | .ecnRamp policy =>
      (ecnRampPolicyCheck policy).toBool && decide (queuedBytes ≤ policy.capacityBytes)

/-! ## §2. One sender. -/

/-- `validate_unreleased_tcp_stage`. -/
def validateUnreleasedTcpStage (g : FlowGeneratorState) (tcp : TcpGenerator) : Bool :=
  g.packetsEmitted == 0 && g.bytesEmitted == 0 && tcp.nextSequence == 0 && tcp.highestAck == 0 &&
    tcp.bytesInFlight == 0 && tcp.duplicateAcks == 0 && tcp.recoveryHighSequence == 0 &&
    tcp.lastAttempt == 0 && tcp.timerGeneration == 0 && tcp.activeTimer.isNone &&
    g.nextEmission.departureTimeNs == 0 && g.nextEmission.payload == 0

/-- `validate_blocked_tcp_timer`, as far as it looks at the sender. -/
def validateBlockedTcpTimer (tcp : TcpGenerator) : Bool :=
  tcp.bytesInFlight != 0 && tcp.activeTimer.any fun timer =>
    timer.sequence == tcp.highestAck && timer.generation == tcp.timerGeneration

/-- The packet of a scheduled emission. -/
def validateScheduledTcpPacket (image : SimulationImage) (g : FlowGeneratorState)
    (tcp : TcpGenerator) : Bool :=
  (image.initialPacket g.nextEmission.payload).any fun p =>
    match p.kind with
    | .tcpData header =>
      header.sequence == tcp.nextSequence && header.sentTimeNs == g.nextEmission.departureTimeNs &&
        !header.retransmission &&
        p.sizeBytes == min tcp.mssBytes (tcp.totalBytes - tcp.nextSequence)
    | _ => false

/-- What a sender's status asks of it. -/
def validateTcpStatus (image : SimulationImage) (g : FlowGeneratorState)
    (stage : Option CollectiveStage) (tcp : TcpGenerator) : Bool :=
  match g.nextEmission.status with
  | .scheduled =>
    tcp.nextSequence != tcp.totalBytes && tcp.activeTimer.isNone &&
      validateScheduledTcpPacket image g tcp
  | .finished =>
    tcp.nextSequence == tcp.totalBytes && tcp.highestAck == tcp.totalBytes &&
      tcp.bytesInFlight == 0 && tcp.activeTimer.isNone
  | .stopped => false
  | .blocked =>
    if stage.any fun stage => !stage.activated then validateUnreleasedTcpStage g tcp
    else validateBlockedTcpTimer tcp

/-- The checks of a generator with a TCP sender. -/
def validateTcpGenerator (image : SimulationImage) (g : FlowGeneratorState)
    (stage : Option CollectiveStage) (tcp : TcpGenerator) : Bool :=
  tcp.totalBytes != 0 && tcp.mssBytes != 0 && tcp.ackSizeBytes != 0 &&
    decide (tcp.nextSequence ≤ tcp.totalBytes) && g.bytesEmitted == tcp.nextSequence &&
    decide (tcp.highestAck ≤ tcp.nextSequence) &&
    tcp.bytesInFlight == tcp.nextSequence - tcp.highestAck &&
    g.feedback.outstandingBytes == tcp.bytesInFlight &&
    g.feedback.unacknowledgedBytes == tcp.bytesInFlight &&
    decide (tcp.control.phase = .fastRecovery → tcp.recoveryHighSequence ≤ tcp.nextSequence) &&
    validateTcpStatus image g stage tcp

/-- The checks of a generator: a compute stage has a constant timer. -/
def validateGenerator (image : SimulationImage)
    (staged : FlowGeneratorState × Option CollectiveStage) : Bool :=
  match staged.1.kind with
  | .tcp tcp =>
    (staged.2.all fun stage => match stage.role with
      | .compute _ => false
      | .collective _ => true) &&
      validateTcpGenerator image staged.1 staged.2 tcp
  | _ => true

def validateGenerators (image : SimulationImage) : Bool :=
  image.hostStates.all fun h => h.stagedGenerators.all (validateGenerator image)

/-! ## §3. The segments. -/

/-- Walk the segments of a flow from `expected` on; the end of the last one. -/
def walkSegments (nextSequence : Nat) : Nat → List (Nat × PacketDescriptor) → Option Nat
  | expected, [] => some expected
  | expected, (sequence, p) :: rest =>
    if sequence ≠ expected then none
    else
      match checkedAdd 64 sequence p.sizeBytes with
      | none => none
      | some stop => if stop > nextSequence then none else walkSegments nextSequence stop rest

/-- The segments of a flow that start in `[lo, hi)`. -/
def TcpSegmentLedger.range (ledger : TcpSegmentLedger) (flow : FlowId) (lo hi : Nat) :
    List (Nat × PacketDescriptor) :=
  ((ledger[flow]?).elim [] (·.toList)).filter fun segment =>
    decide (lo ≤ segment.1 ∧ segment.1 < hi)

/-- A TCP packet of the flow lies below the next byte, or is the scheduled one at it. -/
def validateInitialSegment (g : FlowGeneratorState) (tcp : TcpGenerator) (p : PacketDescriptor) :
    Bool :=
  match p.kind with
  | .tcpData header =>
    decide (header.sequence < tcp.nextSequence) ||
      decide (g.nextEmission.status = .scheduled) && p.id == g.nextEmission.payload &&
        header.sequence == tcp.nextSequence
  | _ => true

def validateGeneratorSegments (image : SimulationImage) (ledger : TcpSegmentLedger)
    (g : FlowGeneratorState) : Bool :=
  match g.kind with
  | .tcp tcp =>
    ((image.initialPackets.filter (·.flow == g.flow)).all (validateInitialSegment g tcp)) &&
      walkSegments tcp.nextSequence tcp.highestAck
        (ledger.range g.flow tcp.highestAck tcp.nextSequence) == some tcp.nextSequence
  | _ => true

/-- `validate_tcp_segment_ledger`. -/
def validateTcpSegmentLedger (image : SimulationImage) : Bool :=
  match TcpSegmentLedger.seedImage image with
  | .error _ => false
  | .ok ledger => image.generators.all (validateGeneratorSegments image ledger)

/-- What validation asks of TCP senders and their segments. -/
def validateTcp (image : SimulationImage) : Bool :=
  validatePacketIds image && validateGeneratorOwners image && validateGenerators image &&
    validateTcpSegmentLedger image

end Days
