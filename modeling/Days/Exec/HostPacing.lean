/-
  Days.Exec.HostPacing — ticks of rate and DCQCN sources (`scalar.rs`).

  Both kinds earn credit per tick and send the packet that serves as the timer
  token once it is covered; they differ in where the rate comes from.
-/
import Days.Exec.HostTcp

namespace Days

/-! ## §1. Credit. -/

def pacingCreditScale (rateDenominator : Nat) : Option Nat :=
  checkedMul 128 rateDenominator 1000000000

def pacingTickCredit (rateBps pacingIntervalNs : Nat) : Option Nat :=
  checkedMul 128 rateBps pacingIntervalNs

def pacedPacketCost (sizeBytes scale : Nat) : Option Nat :=
  (checkedMul 128 sizeBytes 8).bind fun bits => checkedMul 128 bits scale

/-- A source after one tick. -/
structure Paced where
  entry : HostEntry
  generator : FlowGeneratorState
  creditQuanta : Nat
  emitted : Bool
  nextPacket : Option PacketDescriptor
  nextTimer : Option (PayloadId × Nat)

/-- Spend the credit of one tick on the packet of the timer. -/
def spendTick (c : Ctx) (p : PacketDescriptor) (credit cost : Nat) (entry : HostEntry)
    (g : FlowGeneratorState) :
    Except PlainError (Bool × Nat × HostEntry × FlowGeneratorState) :=
  if credit ≥ cost then do
    let emitted ← countUp c.node.id g.packetsEmitted
    let bytes ← okOr (checkedAdd 64 g.bytesEmitted p.sizeBytes) (.counterOverflow c.node.id)
    let entry ← entry.countSourcedPackets c 1
    return (true, credit - cost, entry, { g with packetsEmitted := emitted, bytesEmitted := bytes })
  else .ok (false, credit, entry, g)

/-- The token of the next tick: a new packet after an emission, else the same one. -/
def nextToken (c : Ctx) (p : PacketDescriptor) (packetSizeBytes remaining : Nat) (emitted : Bool)
    (entry : HostEntry) : Except PlainError (PacketDescriptor × HostEntry) :=
  if emitted then do
    let (payload, entry) ← entry.allocatePayload c
    return (⟨payload, p.flow, min packetSizeBytes remaining, false, .data⟩, entry)
  else .ok (p, entry)

/-- The tick after this one, before the stop time is applied. -/
def nextTick (c : Ctx) (flow : FlowId) (rate : RateGenerator) (g : FlowGeneratorState) :
    Except PlainError (Option Nat) :=
  if g.bytesEmitted ≥ rate.totalBytes then .ok none
  else do
    let next ← okOr (checkedAdd 64 c.now rate.pacingIntervalNs) (.generatorTimeOverflow flow)
    return some next

/-- The tick of a paced source with the given rate parameters. -/
def paceStep (c : Ctx) (p : PacketDescriptor) (rate : RateGenerator) (rateBps : Nat)
    (entry : HostEntry) (g : FlowGeneratorState) : Except PlainError Paced := do
  let scale ← okOr (pacingCreditScale rate.rateDenominator) (.counterOverflow c.node.id)
  let tickCredit ← okOr (pacingTickCredit rateBps rate.pacingIntervalNs)
    (.counterOverflow c.node.id)
  let cost ← okOr (pacedPacketCost p.sizeBytes scale) (.counterOverflow c.node.id)
  let credit ← okOr (checkedAdd 128 rate.creditQuanta tickCredit) (.counterOverflow c.node.id)
  let (emitted, credit, entry, g) ← spendTick c p credit cost entry g
  let candidate ← nextTick c p.flow rate g
  match candidate.filter (· ≤ c.image.stopTimeNs) with
  | some nextTime =>
    let (token, entry) ←
      nextToken c p rate.packetSizeBytes (rate.totalBytes - g.bytesEmitted) emitted entry
    let nextCost ← okOr (pacedPacketCost token.sizeBytes scale) (.counterOverflow c.node.id)
    let covered := (checkedAdd 128 credit tickCredit).any fun credit => decide (credit ≥ nextCost)
    let status : GeneratorStatus := if covered then .scheduled else .blocked
    return {
      entry
      generator := { g with nextEmission := ⟨status, nextTime, token.id⟩ }
      creditQuanta := credit
      emitted
      nextPacket := if emitted then some token else none
      nextTimer := some (token.id, nextTime) }
  | none =>
    let status : GeneratorStatus := if candidate.isSome then .stopped else .finished
    return {
      entry
      generator :=
        { g with
          nextEmission :=
            { g.nextEmission with
              status
              departureTimeNs := candidate.getD g.nextEmission.departureTimeNs } }
      creditQuanta := credit
      emitted
      nextPacket := none
      nextTimer := none }

/-- Whether the tick is the one its source waits for. -/
def FlowGeneratorState.awaitsTick (g : FlowGeneratorState) (c : Ctx) : Bool :=
  (decide (g.nextEmission.status = .scheduled) || decide (g.nextEmission.status = .blocked)) &&
    g.nextEmission.payload == c.event.payload && g.nextEmission.departureTimeNs == c.now

/-- Send the packet of a tick, or drop the token that no tick follows. -/
def spendToken (c : Ctx) (p : PacketDescriptor) (paced : Paced) : Prog Unit :=
  if paced.emitted then do
    setSourceTime c.event.payload c.now
    enqueueSourcePacket c.event.payload
    recordSourced p
  else Prog.when paced.nextTimer.isNone (markTerminal c.event.payload)

/-- The egress work after a tick. -/
def finishPacedTick (c : Ctx) (p : PacketDescriptor) (paced : Paced) : Prog Unit := do
  spendToken c p paced
  Prog.each paced.nextPacket fun next => insertPacket next none
  Prog.each paced.nextTimer fun (payload, timeNs) => emit c.node.id .pacingTimer payload timeNs
  Prog.when paced.emitted do
    let ready ← claimReady
    emitReady c ready c.event.payload

/-! ## §2. Rate sources. -/

def RateReplayState.of (g : FlowGeneratorState) (creditQuanta : Nat) : RateReplayState :=
  ⟨g.packetsEmitted, g.bytesEmitted, creditQuanta, g.nextEmission.status,
    g.nextEmission.departureTimeNs⟩

def rateRecord (c : Ctx) (p : PacketDescriptor) (rate : RateGenerator) (before : FlowGeneratorState)
    (paced : Paced) : MechanismTransitionRecord :=
  .rate {
    key := c.event.key
    node := c.node.id
    flow := p.flow
    payload := p.id
    stopTimeNs := c.image.stopTimeNs
    currentPacketSizeBytes := p.sizeBytes
    config :=
      ⟨rate.pacingIntervalNs, rate.packetSizeBytes, rate.totalBytes,
        rate.rateNumeratorBitsPerSecond, rate.rateDenominator⟩
    before := .of before rate.creditQuanta
    after := .of paced.generator paced.creditQuanta }

/-- The tick of a rate source; a stale tick changes nothing. -/
def hostRatePacingTimer (c : Ctx) (p : PacketDescriptor) : Prog Unit := do
  let entry ← getHost
  match entry.index.firstGenerator p.flow with
  | none => return ()
  | some position =>
    let generator ← okOr entry.state.generators[position]? (.unknownGenerator c.node.id p.flow)
    match generator.kind with
    | .rate rate =>
      Prog.when (generator.awaitsTick c) do
        let paced ← paceStep c p rate rate.rateNumeratorBitsPerSecond entry generator
        let after :=
          { paced.generator with kind := .rate { rate with creditQuanta := paced.creditQuanta } }
        setHost (paced.entry.setGenerator position after)
        Prog.when c.full (pushMechanism (rateRecord c p rate generator paced))
        finishPacedTick c p paced
    | _ => return ()

/-! ## §3. DCQCN sources. -/

/-- `dcqcn_materialize`: fire the clocks before the bound, unless frozen. -/
def dcqcnMaterialize (controller : DcqcnController) (frozen : Bool) (bound : Nat) :
    Option DcqcnAdvance × DcqcnController :=
  if frozen || decide (controller.dueNs ≥ bound) then (none, controller)
  else
    let (advance, controller) := controller.materialize bound
    (some advance, controller)

def DcqcnAdvance.add (a b : DcqcnAdvance) : DcqcnAdvance :=
  ⟨a.alphaTicks + b.alphaTicks, a.increaseFires + b.increaseFires, a.decreaseCuts + b.decreaseCuts⟩

/-- The controller at the end of a tick: settled once no further tick follows. -/
def settleTick (controller : DcqcnController) (advance : DcqcnAdvance) (bound : Nat)
    (ticking : Bool) : DcqcnAdvance × DcqcnController :=
  if ticking then (advance, controller)
  else
    let (settled, controller) := controller.settle bound
    (advance.add settled, controller)

/-- `host_dcqcn_pacing_timer`. -/
def hostDcqcnPacingTimer (c : Ctx) (p : PacketDescriptor) : Prog Unit := do
  let entry ← getHost
  let position ← okOr (entry.state.generators.findIdx? (·.flow == p.flow))
    (.unknownGenerator c.node.id p.flow)
  let generator ← okOr entry.state.generators[position]? (.unknownGenerator c.node.id p.flow)
  match generator.kind with
  | .dcqcn dcqcn =>
    Prog.when (generator.awaitsTick c) do
      let bound := saturatingAdd 64 c.now 1
      let (advance, controller) := dcqcnMaterialize dcqcn.controller false bound
      let paced ← paceStep c p dcqcn.rate controller.currentRateBps entry generator
      let ticking := paced.nextTimer.isSome
      let (advance, controller) :=
        settleTick controller (advance.getD DcqcnAdvance.none) bound ticking
      let rate :=
        { dcqcn.rate with
          creditQuanta := paced.creditQuanta
          rateNumeratorBitsPerSecond := controller.currentRateBps }
      let after :=
        { paced.generator with kind := .dcqcn { dcqcn with rate, controller } }
      setHost (paced.entry.setGenerator position after)
      Prog.when c.full
        (pushMechanism (.dcqcn ⟨c.event.key, c.node.id, p.flow, .tick, bound, advance, !ticking,
          dcqcn.controller, controller⟩))
      finishPacedTick c p paced
  | _ => return ()

/-! ## §4. DCQCN notification and reaction. -/

/-- The receiver half of `host_dcqcn_data_arrival`: a CNP when one is due. -/
def dcqcnDataArrival (c : Ctx) (p : PacketDescriptor) (entry : HostEntry) :
    Except PlainError (Option (PacketDescriptor × Bool) × HostEntry) := do
  let position ← okOr (entry.state.dcqcnReceivers.findIdx? (·.flow == p.flow))
    (.unknownGenerator c.node.id p.flow)
  let receiver ← okOr entry.state.dcqcnReceivers[position]? (.unknownGenerator c.node.id p.flow)
  let count ← countUp c.node.id entry.state.receivedPackets
  let (sends, receiver) := Roce.notificationPointSendsCnp receiver c.now p.congestionExperienced
  let entry :=
    { entry with
      state :=
        { entry.state with
          receivedPackets := count
          dcqcnReceivers := entry.state.dcqcnReceivers.set position receiver } }
  if sends then
    let (payload, entry) ← entry.allocatePayload c
    let entry ← entry.countSourcedPackets c 1
    let (ready, entry) := entry.claim
    return (some (⟨payload, p.flow, receiver.cnpSizeBytes, false, .dcqcnCnp p.id⟩, ready), entry)
  else return (none, entry)

/-- `host_dcqcn_data_arrival`. -/
def hostDcqcnDataArrival (c : Ctx) (p : PacketDescriptor) : Prog Unit := do
  let flow ← c.image.flow p.flow
  expectNode c flow.id flow.target
  let entry ← getHost
  let (cnp, entry) ← dcqcnDataArrival c p entry
  setHost entry
  recordArrival c p .delivered
  markTerminal c.event.payload
  Prog.each cnp fun (cnp, ready) => do
    sourcePacket c cnp
    emitReady c ready cnp.id

end Days
