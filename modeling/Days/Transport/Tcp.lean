/-
  Days.Transport.Tcp — the congestion controllers of a TCP sender (`tcp.rs`).

  `TcpReno` works in bytes, `TcpCubic` in segments scaled by
  `cubicWindowScale`.  Every saturating operation of the source is kept; the
  128-bit and arbitrary-precision intermediates are natural numbers.
-/
import Days.Base.Checked

namespace Days

/-! ## §1. Constants and state. -/

def cubicWindowScale : Nat := 1000000000
def cubicMaxSegments : Nat := 2000000
def cubicMaxWindowScaled : Nat := cubicMaxSegments * cubicWindowScale
def initialSsthreshBytes : Nat := 65535
def minRtoNs : Nat := 1000000000
def maxRtoNs : Nat := 60000000000
def rtoClockGranularityNs : Nat := 1000000

inductive TcpPhase where
  | slowStart
  | congestionAvoidance
  | fastRecovery
  deriving DecidableEq

structure TcpReno where
  mssBytes : Nat
  cwndBytes : Nat
  ssthreshBytes : Nat
  phase : TcpPhase
  duplicateAcks : Nat
  recoveryHighSequence : Nat
  caCredit : Nat

structure TcpCubic where
  mssBytes : Nat
  cwndScaled : Nat
  ssthreshScaled : Nat
  phase : TcpPhase
  duplicateAcks : Nat
  recoveryHighSequence : Nat
  wMaxScaled : Nat
  wLastMaxScaled : Nat
  epochStartNs : Nat
  srttNs : Nat
  kNs : Nat

inductive TcpCongestionControl where
  | reno (state : TcpReno)
  | cubic (state : TcpCubic)

/-- `value.clamp(low, high)`. -/
def clamp (value low high : Nat) : Nat := min (max value low) high

/-! ## §2. Fixed-point arithmetic. -/

def nonzeroMss (mssBytes : Nat) : Nat := if mssBytes = 0 then 1 else mssBytes

def bytesToScaledConst (bytes mssBytes : Nat) : Nat :=
  min (bytes * cubicWindowScale / nonzeroMss mssBytes) u64Max

def scaledToBytesConst (scaled mssBytes : Nat) : Nat :=
  min (scaled * nonzeroMss mssBytes / cubicWindowScale) u64Max

def bytesToScaled (bytes mssBytes : Nat) : Nat :=
  min (bytesToScaledConst bytes mssBytes) cubicMaxWindowScaled

def mulRatio (value numerator denominator : Nat) : Nat :=
  min (value * numerator / denominator) u64Max

def cube (value : Nat) : Nat := value * value * value

/-- The doubling loop of `floor_cube_root`; `u64` admits 64 doublings. -/
def cubeRootUpper (value : Nat) : Nat → Nat → Nat
  | 0, high => high
  | fuel + 1, high =>
    if cube high ≤ value ∧ high ≤ u64Max / 2 then cubeRootUpper value fuel (high * 2) else high

/-- The bisection loop of `floor_cube_root`. -/
def cubeRootBisect (value low high : Nat) : Nat :=
  if _h : low + 1 < high then
    let middle := low + (high - low) / 2
    if cube middle ≤ value then cubeRootBisect value middle high
    else cubeRootBisect value low middle
  else low
termination_by high - low
decreasing_by all_goals omega

def floorCubeRoot (value : Nat) : Nat :=
  if value = 0 then 0
  else
    let high := cubeRootUpper value 64 1
    if cube high ≤ value then u64Max else cubeRootBisect value 0 high

def cubicKNs (wMaxScaled : Nat) : Nat :=
  if wMaxScaled = 0 then 0
  else floorCubeRoot (wMaxScaled * 3 * 1000000000000000000 / 4)

def cubicWindowScaled (wMaxScaled kNs elapsedNs : Nat) : Nat :=
  let distance := if elapsedNs < kNs then kNs - elapsedNs else elapsedNs - kNs
  let magnitude := min (distance ^ 3 * 2 / 5000000000000000000) u64Max
  if elapsedNs < kNs then max (wMaxScaled - magnitude) cubicWindowScale
  else clamp (saturatingAdd 64 wMaxScaled magnitude) cubicWindowScale cubicMaxWindowScaled

def tcpFriendlyWindowScaled (wMaxScaled elapsedNs rttNs : Nat) : Nat :=
  let base := mulRatio wMaxScaled 7 10
  let growth := min (cubicWindowScale * 9 * elapsedNs / (17 * max rttNs 1)) u64Max
  clamp (saturatingAdd 64 base growth) cubicWindowScale cubicMaxWindowScaled

def cubicAckStep (cwndScaled targetScaled : Nat) : Nat :=
  if targetScaled ≥ cwndScaled then
    let increment :=
      min ((targetScaled - cwndScaled) * cubicWindowScale / max cwndScaled cubicWindowScale) u64Max
    saturatingAdd 64 cwndScaled increment
  else
    let decrement :=
      min ((cwndScaled - targetScaled) * cubicWindowScale / max cwndScaled cubicWindowScale) u64Max
    cwndScaled - decrement

/-! ## §3. Reno. -/

namespace TcpReno

/-- `TcpCongestionControl::reno`: a window of two segments below the legacy threshold. -/
def ofMss (mssBytes : Nat) : TcpReno where
  mssBytes := nonzeroMss mssBytes
  cwndBytes := saturatingMul 64 (nonzeroMss mssBytes) 2
  ssthreshBytes := initialSsthreshBytes
  phase := .slowStart
  duplicateAcks := 0
  recoveryHighSequence := 0
  caCredit := 0

def onRecoveryExit (s : TcpReno) : TcpReno :=
  { s with
    cwndBytes := max s.ssthreshBytes s.mssBytes
    phase := .congestionAvoidance
    duplicateAcks := 0
    recoveryHighSequence := 0
    caCredit := 0 }

/-- The congestion-avoidance loop: spend one window of credit per segment. -/
def spendCredit (mssBytes caCredit cwndBytes : Nat) : Nat × Nat :=
  if _h : caCredit ≥ max cwndBytes 1 then
    spendCredit mssBytes (caCredit - max cwndBytes 1) (saturatingAdd 64 cwndBytes mssBytes)
  else (caCredit, cwndBytes)
termination_by caCredit
decreasing_by omega

def onNewAck (s : TcpReno) (acknowledgedBytes acknowledgment : Nat) : TcpReno :=
  let s := { s with duplicateAcks := 0 }
  match s.phase with
  | .slowStart =>
    let s := { s with cwndBytes := saturatingAdd 64 s.cwndBytes (min s.mssBytes acknowledgedBytes) }
    if s.cwndBytes ≥ s.ssthreshBytes then
      { s with cwndBytes := s.ssthreshBytes, phase := .congestionAvoidance, caCredit := 0 }
    else s
  | .congestionAvoidance =>
    let (caCredit, cwndBytes) :=
      spendCredit s.mssBytes (saturatingAdd 64 s.caCredit acknowledgedBytes) s.cwndBytes
    { s with caCredit, cwndBytes }
  | .fastRecovery =>
    if s.recoveryHighSequence ≠ 0 ∧ acknowledgment ≥ s.recoveryHighSequence then s.onRecoveryExit
    else { s with cwndBytes := saturatingAdd 64 s.ssthreshBytes s.mssBytes }

def onFastRetransmit (s : TcpReno) (flightSizeBytes : Nat) : TcpReno :=
  let ssthreshBytes := max (flightSizeBytes / 2) (saturatingMul 64 s.mssBytes 2)
  { s with
    ssthreshBytes
    cwndBytes := saturatingAdd 64 ssthreshBytes (saturatingMul 64 s.mssBytes 3)
    phase := .fastRecovery
    caCredit := 0 }

def onMoreDuplicateAck (s : TcpReno) : TcpReno :=
  if s.phase = .fastRecovery then { s with cwndBytes := saturatingAdd 64 s.cwndBytes s.mssBytes }
  else s

def onTimeout (s : TcpReno) (flightSizeBytes : Nat) : TcpReno :=
  { s with
    ssthreshBytes := max (flightSizeBytes / 2) (saturatingMul 64 s.mssBytes 2)
    cwndBytes := s.mssBytes
    phase := .slowStart
    duplicateAcks := 0
    recoveryHighSequence := 0
    caCredit := 0 }

end TcpReno

/-! ## §4. CUBIC. -/

namespace TcpCubic

/-- `TcpCongestionControl::cubic`: a window of one segment. -/
def ofMss (mssBytes : Nat) : TcpCubic where
  mssBytes := nonzeroMss mssBytes
  cwndScaled := cubicWindowScale
  ssthreshScaled := bytesToScaledConst initialSsthreshBytes (nonzeroMss mssBytes)
  phase := .slowStart
  duplicateAcks := 0
  recoveryHighSequence := 0
  wMaxScaled := 0
  wLastMaxScaled := 0
  epochStartNs := u64Max
  srttNs := 0
  kNs := 0

def onRecoveryExit (s : TcpCubic) : TcpCubic :=
  { s with
    cwndScaled := clamp s.ssthreshScaled cubicWindowScale cubicMaxWindowScaled
    phase := .congestionAvoidance
    duplicateAcks := 0
    recoveryHighSequence := 0 }

def updateSrtt (s : TcpCubic) (sampleNs : Nat) : TcpCubic :=
  let sampleNs := max sampleNs 1
  if s.srttNs = 0 then { s with srttNs := sampleNs }
  else { s with srttNs := min ((s.srttNs * 7 + sampleNs) / 8) u64Max }

def ensureEpoch (s : TcpCubic) (nowNs : Nat) : TcpCubic :=
  if s.epochStartNs = u64Max then
    if s.wMaxScaled = 0 then
      { s with epochStartNs := nowNs, wMaxScaled := s.cwndScaled, kNs := 0 }
    else { s with epochStartNs := nowNs, kNs := cubicKNs s.wMaxScaled }
  else s

def updateCubicWindow (s : TcpCubic) (nowNs : Nat) : TcpCubic :=
  let s := s.ensureEpoch nowNs
  let elapsedNs := nowNs - s.epochStartNs
  let cubicNow := cubicWindowScaled s.wMaxScaled s.kNs elapsedNs
  let friendly := tcpFriendlyWindowScaled s.wMaxScaled elapsedNs (max s.srttNs 1)
  if cubicNow < friendly then { s with cwndScaled := min friendly cubicMaxWindowScaled }
  else
    let target :=
      cubicWindowScaled s.wMaxScaled s.kNs (saturatingAdd 64 elapsedNs (max s.srttNs 1))
    { s with
      cwndScaled := clamp (cubicAckStep s.cwndScaled target) cubicWindowScale cubicMaxWindowScaled }

def onNewAck (s : TcpCubic) (acknowledgedBytes nowNs rttSampleNs acknowledgment : Nat) :
    TcpCubic :=
  let s := { s with duplicateAcks := 0 }.updateSrtt rttSampleNs
  match s.phase with
  | .slowStart =>
    let acknowledgedSegments := (acknowledgedBytes + s.mssBytes - 1) / s.mssBytes
    let cwndScaled :=
      min (saturatingAdd 64 s.cwndScaled (saturatingMul 64 acknowledgedSegments cubicWindowScale))
        cubicMaxWindowScaled
    let s := { s with cwndScaled }
    if s.cwndScaled ≥ s.ssthreshScaled then
      let s := { s with phase := .congestionAvoidance, epochStartNs := nowNs }
      if s.wMaxScaled = 0 then { s with wMaxScaled := s.cwndScaled, kNs := 0 } else s
    else s
  | .congestionAvoidance => s.updateCubicWindow nowNs
  | .fastRecovery =>
    if s.recoveryHighSequence ≠ 0 ∧ acknowledgment ≥ s.recoveryHighSequence then s.onRecoveryExit
    else s

def onFastRetransmit (s : TcpCubic) (flightSizeBytes nowNs : Nat) : TcpCubic :=
  let previousMax := s.wLastMaxScaled
  let current := s.cwndScaled
  let wMaxScaled :=
    if previousMax > 0 ∧ current < previousMax then mulRatio current 17 20 else current
  let flightScaled := bytesToScaled flightSizeBytes s.mssBytes
  let reduced := max (mulRatio flightScaled 7 10) cubicWindowScale
  { s with
    wLastMaxScaled := current
    wMaxScaled
    ssthreshScaled := max reduced (2 * cubicWindowScale)
    cwndScaled := min reduced cubicMaxWindowScaled
    phase := .fastRecovery
    epochStartNs := nowNs
    kNs := cubicKNs wMaxScaled }

def onMoreDuplicateAck (s : TcpCubic) : TcpCubic :=
  if s.phase = .fastRecovery then
    { s with
      cwndScaled := min (saturatingAdd 64 s.cwndScaled cubicWindowScale) cubicMaxWindowScaled }
  else s

def onTimeout (s : TcpCubic) (flightSizeBytes : Nat) : TcpCubic :=
  let flightScaled := bytesToScaled flightSizeBytes s.mssBytes
  { s with
    ssthreshScaled := clamp (mulRatio flightScaled 7 10) (2 * cubicWindowScale) cubicMaxWindowScaled
    cwndScaled := cubicWindowScale
    wMaxScaled := 0
    wLastMaxScaled := 0
    epochStartNs := u64Max
    kNs := 0
    phase := .slowStart
    duplicateAcks := 0
    recoveryHighSequence := 0 }

end TcpCubic

/-! ## §5. The controller the sender calls. -/

namespace TcpCongestionControl

def phase : TcpCongestionControl → TcpPhase
  | reno s => s.phase
  | cubic s => s.phase

def cwndBytes : TcpCongestionControl → Nat
  | reno s => s.cwndBytes
  | cubic s => scaledToBytesConst s.cwndScaled s.mssBytes

def duplicateAcks : TcpCongestionControl → Nat
  | reno s => s.duplicateAcks
  | cubic s => s.duplicateAcks

def recoveryHighSequence : TcpCongestionControl → Nat
  | reno s => s.recoveryHighSequence
  | cubic s => s.recoveryHighSequence

def setRecoveryHighSequence (sequence : Nat) : TcpCongestionControl → TcpCongestionControl
  | reno s => reno { s with recoveryHighSequence := sequence }
  | cubic s => cubic { s with recoveryHighSequence := sequence }

def onNewAck (acknowledgedBytes nowNs rttSampleNs acknowledgment : Nat) :
    TcpCongestionControl → TcpCongestionControl
  | reno s => reno (s.onNewAck acknowledgedBytes acknowledgment)
  | cubic s => cubic (s.onNewAck acknowledgedBytes nowNs rttSampleNs acknowledgment)

def onFastRetransmit (flightSizeBytes nowNs : Nat) :
    TcpCongestionControl → TcpCongestionControl
  | reno s => reno (s.onFastRetransmit flightSizeBytes)
  | cubic s => cubic (s.onFastRetransmit flightSizeBytes nowNs)

def onMoreDuplicateAck : TcpCongestionControl → TcpCongestionControl
  | reno s => reno s.onMoreDuplicateAck
  | cubic s => cubic s.onMoreDuplicateAck

def countDuplicateAck : TcpCongestionControl → TcpCongestionControl
  | reno s => reno { s with duplicateAcks := saturatingAdd 64 s.duplicateAcks 1 }
  | cubic s => cubic { s with duplicateAcks := saturatingAdd 64 s.duplicateAcks 1 }

/-- `on_duplicate_ack`: the third duplicate starts a fast retransmit. -/
def onDuplicateAck (flightSizeBytes nowNs : Nat) (control : TcpCongestionControl) :
    Bool × TcpCongestionControl :=
  let control := control.countDuplicateAck
  if control.duplicateAcks = 3 then (true, control.onFastRetransmit flightSizeBytes nowNs)
  else if control.duplicateAcks > 3 then (false, control.onMoreDuplicateAck)
  else (false, control)

def onTimeout (flightSizeBytes : Nat) : TcpCongestionControl → TcpCongestionControl
  | reno s => reno (s.onTimeout flightSizeBytes)
  | cubic s => cubic (s.onTimeout flightSizeBytes)

end TcpCongestionControl

/-! ## §6. The retransmission timer. -/

/-- `update_rto_ns`: the new `(srtt, rtt_var, rto)` after one sample. -/
def updateRtoNs (srttNs rttVarNs sampleNs : Nat) : Nat × Nat × Nat :=
  let sampleNs := max sampleNs 1
  let (srttNs, rttVarNs) :=
    if srttNs = 0 then (sampleNs, sampleNs / 2)
    else
      let deviation := max srttNs sampleNs - min srttNs sampleNs
      (min ((srttNs * 7 + sampleNs) / 8) u64Max, min ((rttVarNs * 3 + deviation) / 4) u64Max)
  let rtoNs :=
    clamp (saturatingAdd 64 srttNs (max (saturatingMul 64 rttVarNs 4) rtoClockGranularityNs))
      minRtoNs maxRtoNs
  (srttNs, rttVarNs, rtoNs)

end Days
