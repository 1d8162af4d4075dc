/-
  Days.Transport.Roce — the RoCE sender window and receiver (`roce.rs`).
-/
import Days.Model.Image

namespace Days.Roce

/-! ## §1. The paced sender. -/

def packetSize (roce : RoceGenerator) (psn : Nat) : Nat :=
  min roce.pacer.mtuBytes (roce.pacer.totalBytes - psn)

def packetCost (sizeBytes : Nat) : Nat := sizeBytes * 8 * 1000000000

def windowBytes (roce : RoceGenerator) : Option Nat :=
  if roce.windowBytes = 0 then none
  else if !roce.variableWindow then some roce.windowBytes
  else
    let scaled :=
      roce.windowBytes * roce.controller.currentRateBps / max roce.controller.config.maximumRateBps 1
    some (max (min scaled u64Max) 1)

def windowBound (roce : RoceGenerator) : Bool :=
  (windowBytes roce).any fun window => decide (roce.nextPsn - roce.sndUna ≥ window)

/-- Whether the next tick covers the next packet. -/
def armedStatus (roce : RoceGenerator) : GeneratorStatus :=
  if roce.nextPsn ≥ roce.pacer.totalBytes ∨ windowBound roce then .blocked
  else
    let tick := roce.controller.currentRateBps * roce.pacer.pacingIntervalNs
    let covered := (checkedAdd 128 roce.pacer.creditQuanta tick).any fun credit =>
      decide (credit ≥ packetCost (packetSize roce roce.nextPsn))
    if covered then .scheduled else .blocked

inductive TickPark where
  | classPaused
  | windowBlocked
  deriving DecidableEq

def settledStatus (roce : RoceGenerator) (parkedStatus : GeneratorStatus) : GeneratorStatus :=
  if roce.sndUna ≥ roce.pacer.totalBytes then .finished
  else if roce.pacerArmed then armedStatus roce
  else parkedStatus

/-- The first pacing instant strictly after `nowNs` (or the very first one). -/
def restartTimeNs (roce : RoceGenerator) (nowNs : Nat) : Option Nat :=
  let first := roce.pacer.firstPacingTimeNs
  let interval := roce.pacer.pacingIntervalNs
  if nowNs < first then some first
  else
    (checkedAdd 64 ((nowNs - first) / interval) 1).bind fun ticks =>
      (checkedMul 64 ticks interval).bind fun elapsed => checkedAdd 64 elapsed first

/-! ## §2. The receiver. -/

inductive ReceiverAction where
  | ack
  | duplicateAck
  | nack
  | nackSuppressed
  | none
  deriving DecidableEq

def ReceiverAction.sendsFeedback : ReceiverAction → Bool
  | ack | duplicateAck | nack => true
  | nackSuppressed | none => false

/-- Whether a NACK for the current gap may be sent now. -/
def nackAdmitted (receiver : RoceReceiverState) (nowNs : Nat) : Bool :=
  match receiver.lastNack with
  | .none => true
  | some mark =>
    mark.expectedPsn != receiver.expectedPsn ||
      (checkedAdd 64 mark.timeNs receiver.nackIntervalNs).any fun earliest => decide (nowNs ≥ earliest)

/-- The receiver's reaction before the acknowledgment counter is reset. -/
def receiveAction (receiver : RoceReceiverState) (psn sizeBytes nowNs : Nat) :
    ReceiverAction × RoceReceiverState :=
  if psn = receiver.expectedPsn then
    let receiver :=
      { receiver with
        expectedPsn := receiver.expectedPsn + sizeBytes
        packetsSinceAck := receiver.packetsSinceAck + 1 }
    if receiver.packetsSinceAck ≥ receiver.ackEveryPackets ∨
        receiver.expectedPsn = receiver.totalBytes then (.ack, receiver)
    else (.none, receiver)
  else if psn < receiver.expectedPsn then
    if receiver.duplicateAck then (.duplicateAck, receiver) else (.none, receiver)
  else if nackAdmitted receiver nowNs then
    (.nack, { receiver with lastNack := some ⟨receiver.expectedPsn, nowNs⟩ })
  else (.nackSuppressed, receiver)

def receive (receiver : RoceReceiverState) (psn sizeBytes nowNs : Nat) :
    ReceiverAction × RoceReceiverState :=
  let (action, receiver) := receiveAction receiver psn sizeBytes nowNs
  if action.sendsFeedback then (action, { receiver with packetsSinceAck := 0 })
  else (action, receiver)

/-- `notification_point_sends_cnp`: at most one CNP per interval. -/
def notificationPointSendsCnp (np : DcqcnReceiverState) (nowNs : Nat)
    (congestionExperienced : Bool) : Bool × DcqcnReceiverState :=
  let intervalOpen :=
    match np.lastCnpTimeNs with
    | none => true
    | some last =>
      (checkedAdd 64 last np.cnpIntervalNs).any fun earliest => decide (nowNs ≥ earliest)
  if !congestionExperienced || !intervalOpen then (false, np)
  else (true, { np with lastCnpTimeNs := some nowNs })

/-! ## §3. Views recorded in traces. -/

inductive PacerState where
  | armed
  | parked
  | stopped
  deriving DecidableEq

structure SenderView where
  nextPsn : Nat
  sndUna : Nat
  bytesEmitted : Nat
  packetsEmitted : Nat
  creditQuanta : Nat
  rtoDeadlineNs : Option Nat
  pacer : PacerState
  nextTickNs : Option Nat
  status : GeneratorStatus

def SenderView.of (generator : FlowGeneratorState) (roce : RoceGenerator) : SenderView :=
  let pacer : PacerState :=
    if roce.pacerArmed then .armed
    else if generator.nextEmission.status = .stopped then .stopped
    else .parked
  { nextPsn := roce.nextPsn
    sndUna := roce.sndUna
    bytesEmitted := generator.bytesEmitted
    packetsEmitted := generator.packetsEmitted
    creditQuanta := roce.pacer.creditQuanta
    rtoDeadlineNs :=
      if roce.rtoNs ≠ 0 ∧ roce.sndUna < generator.bytesEmitted then some roce.rtoDeadlineNs
      else none
    pacer
    nextTickNs :=
      if pacer ≠ .parked then some generator.nextEmission.departureTimeNs else none
    status := generator.nextEmission.status }

structure ReceiverView where
  expectedPsn : Nat
  packetsSinceAck : Nat
  lastNackPsn : Option Nat
  lastNackTimeNs : Option Nat

def ReceiverView.of (receiver : RoceReceiverState) : ReceiverView where
  expectedPsn := receiver.expectedPsn
  packetsSinceAck := receiver.packetsSinceAck
  lastNackPsn := receiver.lastNack.map (·.expectedPsn)
  lastNackTimeNs := receiver.lastNack.map (·.timeNs)

end Days.Roce
