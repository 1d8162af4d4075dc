/-
  Days.Model.Scheduler — node kinds, queue disciplines and the dispatch table
  (`model.rs`), with the ECN marking ramp (`ecn_ramp.rs`, `splitmix.rs`).
-/
import Std.Data.ExtTreeMap
import Mathlib.Data.Rat.Defs
import Days.Model.Event

namespace Days

inductive NodeKind where
  | host
  | switch
  deriving DecidableEq

/-! ## §1. Queue disciplines. -/

/-- Weighted fair queueing; the source computes in exact rationals. -/
structure WfqSchedulerState where
  weights : List Nat
  virtualTime : Rat
  lastUpdatedNs : Nat
  finishTimes : List Rat
  activePackets : List Nat
  packetFinishTimes : Std.ExtTreeMap PayloadId Rat

structure DrrSchedulerState where
  quantaBytes : List Nat
  deficitsBytes : List Nat
  currentClass : Nat

def DrrSchedulerState.new (quantaBytes : List Nat) : DrrSchedulerState :=
  ⟨quantaBytes, List.replicate quantaBytes.length 0, 0⟩

structure WrrSchedulerState where
  weights : List Nat
  packetsSentInRound : List Nat
  currentClass : Nat

def WrrSchedulerState.new (weights : List Nat) : WrrSchedulerState :=
  ⟨weights, List.replicate weights.length 0, 0⟩

inductive SchedulerKind where
  | fifo
  | staticPriority (priorities : List Nat)
  | weightedFairQueue (state : WfqSchedulerState)
  | deficitRoundRobin (state : DrrSchedulerState)
  | weightedRoundRobin (state : WrrSchedulerState)

/-! ## §2. The ECN ramp. -/

structure EcnRampPolicy where
  capacityBytes : Nat
  kminBytes : Nat
  kmaxBytes : Nat
  pmaxNumerator : Nat
  pmaxDenominator : Nat

inductive DropMarkPolicy where
  | tailDrop
  | ecnRamp (policy : EcnRampPolicy)

inductive EcnRampAction where
  | enqueue
  | mark
  | drop
  deriving DecidableEq

/-- The SplitMix64 finaliser of `splitmix.rs`. -/
def mix (value : Nat) : Nat :=
  let value := (value + 0x9e3779b97f4a7c15) % 2 ^ 64
  let value := Nat.xor value (value / 2 ^ 30) * 0xbf58476d1ce4e5b9 % 2 ^ 64
  let value := Nat.xor value (value / 2 ^ 27) * 0x94d049bb133111eb % 2 ^ 64
  Nat.xor value (value / 2 ^ 31)

def ecnRampDomain : Nat := 0x45434e5f52414d50

def ecnQueueKey (seed node queue : Nat) : Nat :=
  mix (Nat.xor (mix (Nat.xor (mix (Nat.xor seed ecnRampDomain)) node)) queue)

def ecnDraw (key payload : Nat) : Nat := mix (Nat.xor key payload)

def ecnRampDecision (policy : EcnRampPolicy) (queuedBytes sizeBytes : Nat) (ecnCapable : Bool)
    (draw : Nat) : EcnRampAction :=
  match checkedAdd 64 queuedBytes sizeBytes with
  | none => .drop
  | some depth =>
    if depth > policy.capacityBytes then .drop
    else if !ecnCapable || depth < policy.kminBytes then .enqueue
    else if depth ≥ policy.kmaxBytes then .mark
    else
      let span := policy.pmaxDenominator * (policy.kmaxBytes - policy.kminBytes)
      let bound := policy.pmaxNumerator * (depth - policy.kminBytes)
      if draw * span / 2 ^ 64 < bound then .mark else .enqueue

def ecnRampSpan (policy : EcnRampPolicy) : Option Nat :=
  checkedMul 64 policy.pmaxDenominator (policy.kmaxBytes - policy.kminBytes)

def ecnRampPolicyCheck (policy : EcnRampPolicy) : Except String Unit :=
  if policy.capacityBytes = 0 then .error "needs a positive byte capacity"
  else if policy.kminBytes = 0 ∨ policy.kminBytes > policy.kmaxBytes ∨
      policy.kmaxBytes > policy.capacityBytes then
    .error "needs 1 <= kmin <= kmax <= capacity bytes"
  else if policy.pmaxNumerator = 0 ∨ policy.pmaxNumerator > policy.pmaxDenominator then
    .error "needs 0 < pmax <= 1"
  else if Nat.gcd policy.pmaxNumerator policy.pmaxDenominator ≠ 1 then
    .error "needs pmax in lowest terms"
  else if policy.kminBytes = policy.kmaxBytes ∧ policy.pmaxNumerator ≠ policy.pmaxDenominator then
    .error "step (kmin == kmax) needs pmax = 1"
  else if (ecnRampSpan policy).isNone then
    .error "span pmax_denominator * (kmax - kmin) exceeds u64"
  else .ok ()

/-! ## §3. Dispatch. -/

inductive TransitionHandler where
  | hostPacketArrival
  | hostTxReady
  | hostTxComplete
  | hostRemoteArrival
  | switchTxReady
  | switchTxComplete
  | switchRemoteArrival
  | hostRetransmissionTimeout
  | hostPacingTimer
  deriving DecidableEq

def resolveTransition : NodeKind → EventKind → Option TransitionHandler
  | .host, .packetArrival => some .hostPacketArrival
  | .host, .txReady => some .hostTxReady
  | .host, .txComplete => some .hostTxComplete
  | .host, .remoteArrival => some .hostRemoteArrival
  | .host, .retransmissionTimeout => some .hostRetransmissionTimeout
  | .host, .pacingTimer => some .hostPacingTimer
  | .switch, .txReady => some .switchTxReady
  | .switch, .txComplete => some .switchTxComplete
  | .switch, .remoteArrival => some .switchRemoteArrival
  | .switch, .packetArrival => none
  | .switch, .retransmissionTimeout => none
  | .switch, .pacingTimer => none

end Days
