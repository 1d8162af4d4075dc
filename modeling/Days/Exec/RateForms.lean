/-
  Days.Exec.RateForms — the validator's closed forms for a rate source
  (`validate.rs`): how many ticks it still runs, how many packets it still
  sends, how many payloads it still allocates.  They are computed in unbounded
  integers.
-/
import Days.Exec.HostPacing

namespace Days

def divideRoundingUp (numerator denominator : Nat) : Nat :=
  if numerator = 0 then 0 else (numerator + denominator - 1) / denominator

/-- `remaining_generator_packets` for a rate source. -/
def remainingRatePackets (g : FlowGeneratorState) (rate : RateGenerator) : Except String Nat :=
  let flow := g.flow
  let totalBytes := rate.totalBytes
  let bytesEmitted := g.bytesEmitted
  if g.bytesEmitted > rate.totalBytes then
    .error s!"flow FlowId({flow}) rate source emitted byte state exceeds total bytes {totalBytes}"
  else
    match checkedMul 128 g.packetsEmitted rate.packetSizeBytes with
    | none => .error s!"flow FlowId({flow}) rate source byte bookkeeping exceeds u128"
    | some bytes =>
      let expectedBytes := min bytes rate.totalBytes
      if g.bytesEmitted ≠ expectedBytes then
        .error s!"flow FlowId({flow}) rate source records {bytesEmitted} emitted bytes, expected {expectedBytes}"
      else
        .ok ((rate.totalBytes - g.bytesEmitted + rate.packetSizeBytes - 1) / rate.packetSizeBytes)

/-- The ticks until the credit covers a cost. -/
def creditTicks (cost credit tickCredit : Nat) : Nat :=
  if cost > credit then divideRoundingUp (cost - credit) tickCredit else 0

/-- `remaining_rate_pacing_ticks`. -/
def remainingRatePacingTicks (g : FlowGeneratorState) (rate : RateGenerator) : Nat :=
  let remainingBytes := rate.totalBytes - g.bytesEmitted
  let fullPackets := remainingBytes / rate.packetSizeBytes
  let partialBytes := remainingBytes % rate.packetSizeBytes
  let scale := rate.rateDenominator * 1000000000
  let tickCredit := rate.rateNumeratorBitsPerSecond * rate.pacingIntervalNs
  let fullPacketCost := rate.packetSizeBytes * 8 * scale
  let (credit, ticks) :=
    if fullPackets ≠ 0 then
      let requiredCredit := fullPackets * fullPacketCost
      let fullTicks := max fullPackets (creditTicks requiredCredit rate.creditQuanta tickCredit)
      (rate.creditQuanta + fullTicks * tickCredit - requiredCredit, fullTicks)
    else (rate.creditQuanta, 0)
  if partialBytes ≠ 0 then
    ticks + max (creditTicks (partialBytes * 8 * scale) credit tickCredit) 1
  else ticks

/-- `executable_rate_pacing_ticks`. -/
def executableRatePacingTicks (stopTimeNs : Nat) (g : FlowGeneratorState) (rate : RateGenerator) :
    Except String Nat :=
  if (g.nextEmission.status ≠ .scheduled ∧ g.nextEmission.status ≠ .blocked) ∨
      g.nextEmission.departureTimeNs > stopTimeNs then .ok 0
  else do
    let _ ← remainingRatePackets g rate
    let availableTicks := (stopTimeNs - g.nextEmission.departureTimeNs) / rate.pacingIntervalNs + 1
    return min (remainingRatePacingTicks g rate) availableTicks

/-- `rate_packets_within_ticks`. -/
def ratePacketsWithinTicks (g : FlowGeneratorState) (rate : RateGenerator) (ticks : Nat) :
    Except String Nat := do
  let flow := g.flow
  let remainingPackets ← remainingRatePackets g rate
  if ticks = 0 ∨ remainingPackets = 0 then return 0
  else
    let remainingBytes := rate.totalBytes - g.bytesEmitted
    let fullPackets := remainingBytes / rate.packetSizeBytes
    let partialPacket := remainingBytes % rate.packetSizeBytes ≠ 0
    let scale := rate.rateDenominator * 1000000000
    let tickCredit := rate.rateNumeratorBitsPerSecond * rate.pacingIntervalNs
    let fullPacketCost := rate.packetSizeBytes * 8 * scale
    let totalCredit := rate.creditQuanta + ticks * tickCredit
    let emittedFull := min (min fullPackets ticks) (totalCredit / fullPacketCost)
    let tooMany := s!"flow FlowId({flow}) executable rate packet count exceeds u64"
    if emittedFull ≥ 2 ^ 64 then throw tooMany
    else if partialPacket ∧ emittedFull = fullPackets ∧ remainingRatePacingTicks g rate ≤ ticks then
      match checkedAdd 64 emittedFull 1 with
      | some emitted => return emitted
      | none => throw tooMany
    else return emittedFull

/-- `executable_rate_packets`. -/
def executableRatePackets (stopTimeNs : Nat) (g : FlowGeneratorState) (rate : RateGenerator) :
    Except String Nat := do
  let ticks ← executableRatePacingTicks stopTimeNs g rate
  ratePacketsWithinTicks g rate ticks

/-- `rate_payload_allocations`: the packet of the last tick is not followed by another. -/
def ratePayloadAllocations (stopTimeNs : Nat) (g : FlowGeneratorState) (rate : RateGenerator) :
    Except String Nat := do
  let ticks ← executableRatePacingTicks stopTimeNs g rate
  if ticks = 0 then return 0 else ratePacketsWithinTicks g rate (ticks - 1)

/-- `latest_rate_pacing_time`. -/
def latestRatePacingTime (stopTimeNs : Nat) (g : FlowGeneratorState) (rate : RateGenerator) :
    Except String Nat :=
  let flow := g.flow
  let firstTime := g.nextEmission.departureTimeNs
  if firstTime > stopTimeNs then .ok 0
  else
    let ticksToFinish := remainingRatePacingTicks g rate
    let availableTicks := (stopTimeNs - firstTime) / rate.pacingIntervalNs + 1
    let executedTicks := min ticksToFinish availableTicks
    let computedAdditions :=
      if ticksToFinish > availableTicks then availableTicks else ticksToFinish - 1
    let latestEventTime := firstTime + rate.pacingIntervalNs * (executedTicks - 1)
    let tooLate := s!"flow FlowId({flow}) latest pacing time exceeds u64"
    if firstTime + rate.pacingIntervalNs * computedAdditions > u64Max then .error tooLate
    else if latestEventTime > u64Max then .error tooLate
    else .ok latestEventTime

/-! The bounds of a DCQCN source: the forms of a rate source at the fastest and at the slowest
rate of its configuration. -/

/-- `with_rate_numerator`. -/
def RateGenerator.withRateNumerator (rate : RateGenerator) (numerator : Nat) : RateGenerator :=
  { rate with rateNumeratorBitsPerSecond := numerator }

/-- `executable_dcqcn_packets`. -/
def executableDcqcnPackets (stopTimeNs : Nat) (g : FlowGeneratorState) (dcqcn : DcqcnGenerator) :
    Except String Nat :=
  executableRatePackets stopTimeNs g
    (dcqcn.rate.withRateNumerator dcqcn.controller.config.maximumRateBps)

/-- `executable_dcqcn_pacing_ticks`. -/
def executableDcqcnPacingTicks (stopTimeNs : Nat) (g : FlowGeneratorState) (dcqcn : DcqcnGenerator) :
    Except String Nat :=
  executableRatePacingTicks stopTimeNs g
    (dcqcn.rate.withRateNumerator dcqcn.controller.config.minimumRateBps)

/-- `latest_dcqcn_pacing_time`. -/
def latestDcqcnPacingTime (stopTimeNs : Nat) (g : FlowGeneratorState) (dcqcn : DcqcnGenerator) :
    Except String Nat :=
  latestRatePacingTime stopTimeNs g
    (dcqcn.rate.withRateNumerator dcqcn.controller.config.minimumRateBps)

end Days
