/-
  Days.Exec.Stage — collective and compute stages of a host (`scalar.rs`).

  A stage starts when its local predecessors have completed and its inbound
  bytes have arrived; the causes of one event are collected first and answered
  in activation order.
-/
import Days.Exec.Queue

namespace Days

/-! ## §1. Causes of progress. -/

structure CompletionSignal where
  ackNumber : Nat
  originNs : Nat
  delayNs : Nat

structure PendingCollectiveProgress where
  flow : FlowId
  cause : CollectiveActivationCause
  causeFlow : FlowId
  arrivalBytes : Nat
  beforeLocalCompleted : Nat
  beforeInboundComplete : Bool
  beforeInboundBytes : Nat
  segmentSequence : Nat
  segmentBytes : Nat
  completion : CompletionSignal

/-- The causes of one event that no record has answered yet, in push order. -/
abbrev PendingCauses := List PendingCollectiveProgress

/-- `PendingCauses::take`: the first unanswered cause of a flow. -/
def PendingCauses.take (causes : PendingCauses) (flow : FlowId) :
    Option (PendingCollectiveProgress × PendingCauses) :=
  (causes.find? (·.flow == flow)).map fun cause => (cause, causes.eraseP (·.flow == flow))

/-! ## §2. Host entries. -/

namespace HostEntry

def generatorFor (e : HostEntry) (node : NodeId) (flow : FlowId) :
    Except PlainError (Nat × FlowGeneratorState) := do
  let position ← okOr (e.index.firstGenerator flow) (.unknownGenerator node flow)
  let generator ← okOr e.state.generators[position]? (.unknownGenerator node flow)
  return (position, generator)

def setGenerator (e : HostEntry) (position : Nat) (g : FlowGeneratorState) : HostEntry :=
  { e with state := { e.state with generators := e.state.generators.set position g } }

/-- Replace a stage record and refresh the releasable set. -/
def setStage (e : HostEntry) (position : Nat) (stage : CollectiveStage) : HostEntry where
  state := { e.state with stages := e.state.stages.set position (some stage) }
  index := e.index.refreshReleasable position (some stage)

/-- Take the next payload id of the host. -/
def allocatePayload (c : Ctx) (e : HostEntry) : Except PlainError (PayloadId × HostEntry) := do
  let payload ← allocatePayloadId c e.state.nextPayloadSeq
  let next ← okOr (checkedAdd 64 e.state.nextPayloadSeq 1) (.payloadSequenceOverflow c.node.id)
  return (payload, { e with state := { e.state with nextPayloadSeq := next } })

def countSourcedPackets (c : Ctx) (n : Nat) (e : HostEntry) : Except PlainError HostEntry := do
  let sourced ← okOr (checkedAdd 64 e.state.sourcedPackets n) (.counterOverflow c.node.id)
  return { e with state := { e.state with sourcedPackets := sourced } }

def idle (e : HostEntry) : Bool := e.state.inService.isNone && !e.state.txReadyPending

def setReadyPending (e : HostEntry) (ready : Bool) : HostEntry :=
  { e with state := { e.state with txReadyPending := ready } }

end HostEntry

/-! ## §3. Completion and arrival. -/

/-- Mark one more local predecessor of the stage at `position` complete. -/
def completeLocalSuccessor (completed : FlowId) (completion : CompletionSignal)
    (acc : HostEntry × PendingCauses) (position : Nat) : HostEntry × PendingCauses :=
  let (entry, causes) := acc
  match entry.state.generators[position]?, entry.state.stage position with
  | some successor, some stage =>
    let d := stage.dependencies
    if d.localComplete then acc
    else
      let cause : PendingCollectiveProgress :=
        { flow := successor.flow
          cause := .localCompletion
          causeFlow := completed
          arrivalBytes := 0
          beforeLocalCompleted := d.localCompleted
          beforeInboundComplete := d.inboundComplete
          beforeInboundBytes := d.inboundBytesReceived
          segmentSequence := 0
          segmentBytes := 0
          completion }
      (entry.setStage position
        { stage with dependencies := { d with localCompleted := d.localCompleted + 1 } },
        causes ++ [cause])
  | _, _ => acc

/-- `complete_local_successors`. -/
def completeLocalSuccessors (entry : HostEntry) (completed : FlowId)
    (completion : CompletionSignal) (causes : PendingCauses) : HostEntry × PendingCauses :=
  match entry.index.stageViews with
  | none => (entry, causes)
  | some views =>
    (views.localSuccessors completed).foldl (completeLocalSuccessor completed completion)
      (entry, causes)

/-- Credit an inbound arrival to the stages that wait for it. -/
def recordInboundSuccessors (node : NodeId) (inbound : FlowId) (sequence bytes advance : Nat) :
    List Nat → HostEntry → PendingCauses → Except PlainError (HostEntry × PendingCauses)
  | [], entry, causes => .ok (entry, causes)
  | position :: rest, entry, causes =>
    match entry.state.generators[position]?, entry.state.stage position with
    | some generator, some stage => do
      let d := stage.dependencies
      if d.inboundComplete then
        recordInboundSuccessors node inbound sequence bytes advance rest entry causes
      else
        let cause : PendingCollectiveProgress :=
          { flow := generator.flow
            cause := .inboundArrival
            causeFlow := inbound
            arrivalBytes := advance
            beforeLocalCompleted := d.localCompleted
            beforeInboundComplete := false
            beforeInboundBytes := d.inboundBytesReceived
            segmentSequence := sequence
            segmentBytes := bytes
            completion := ⟨0, 0, 0⟩ }
        let received ← okOr (checkedAdd 64 d.inboundBytesReceived advance) (.counterOverflow node)
        require (received ≤ d.inboundPredecessorBytes) (.counterOverflow node)
        let entry :=
          entry.setStage position
            { stage with dependencies := { d with inboundBytesReceived := received } }
        recordInboundSuccessors node inbound sequence bytes advance rest entry (causes ++ [cause])
    | _, _ => recordInboundSuccessors node inbound sequence bytes advance rest entry causes

/-- `record_inbound_progress` for an arriving segment. -/
def recordInboundProgress (node : NodeId) (entry : HostEntry) (inbound : FlowId)
    (sequence bytes advance : Nat) (causes : PendingCauses) :
    Except PlainError (HostEntry × PendingCauses) :=
  match entry.index.stageViews with
  | none => .ok (entry, causes)
  | some views =>
    recordInboundSuccessors node inbound sequence bytes advance (views.inboundSuccessors inbound)
      entry causes

/-! ## §4. Trace rows. -/

/-- `collective_progress_record`: the row of a cause, if the stage kind has one. -/
def collectiveProgressRecord (c : Ctx) (ordinal : Nat) (activated : Bool)
    (cause : PendingCollectiveProgress) (generator : FlowGeneratorState)
    (stage : Option CollectiveStage) : Option CollectiveProgressRecord :=
  stage.bind fun stage =>
    let d := stage.dependencies
    let record : CollectiveProgressRecord :=
      { key := c.event.key
        ordinal
        node := c.node.id
        flow := generator.flow
        cause := cause.cause
        causeFlow := cause.causeFlow
        arrivalBytes := cause.arrivalBytes
        collectiveId := 0
        algorithm := none
        groupSize := 0
        declaredTotalBytes := 0
        rank := 0
        phase := none
        step := 0
        chunkOffsetBytes := 0
        chunkBytes := 0
        packetSizeBytes := 0
        intervalNs := 0
        stopTimeNs := c.image.stopTimeNs
        inboundPredecessorBytes := d.inboundPredecessorBytes
        beforeLocalComplete := cause.beforeLocalCompleted == d.localPredecessors.count
        beforeLocalCompleted := cause.beforeLocalCompleted
        beforeInboundComplete := cause.beforeInboundComplete
        beforeInboundBytes := cause.beforeInboundBytes
        activated
        afterLocalComplete := d.localComplete
        afterLocalCompleted := d.localCompleted
        afterInboundComplete := d.inboundComplete
        afterInboundBytes := d.inboundBytesReceived
        afterPacketsEmitted := generator.packetsEmitted
        afterBytesEmitted := generator.bytesEmitted
        afterStatus := generator.nextEmission.status
        afterNextTimeNs := generator.nextEmission.departureTimeNs
        stageKind := .tcp
        durationNs := 0
        segmentSequence := cause.segmentSequence
        segmentBytes := cause.segmentBytes
        ackNumber := cause.completion.ackNumber
        causeOriginNs := cause.completion.originNs
        causeDelayNs := cause.completion.delayNs }
    let identified (identity : CollectiveStageIdentity) : CollectiveProgressRecord :=
      { record with
        collectiveId := identity.collectiveId
        algorithm := some identity.algorithm
        groupSize := identity.groupSize
        declaredTotalBytes := identity.declaredTotalBytes
        rank := identity.rank
        phase := some identity.phase
        step := identity.step
        chunkOffsetBytes := identity.chunkOffsetBytes
        chunkBytes := identity.chunkBytes }
    match generator.kind, stage.role with
    | .tcp tcp, .collective identity =>
      some { identified identity with packetSizeBytes := tcp.mssBytes }
    | .roce roce, .collective identity =>
      some { identified identity with
        packetSizeBytes := roce.pacer.mtuBytes
        intervalNs := roce.pacer.pacingIntervalNs
        stageKind := .roce }
    | .constant constant, .collective identity =>
      some { identified identity with
        packetSizeBytes := constant.packetSizeBytes
        intervalNs := constant.intervalNs
        stageKind := .notify
        durationNs := constant.intervalNs + constant.firstDepartureNs }
    | .constant _, .compute compute =>
      some { record with
        collectiveId := compute.computeId
        groupSize := compute.groupSize
        rank := compute.rank
        stageKind := .compute
        durationNs := compute.durationNs }
    | _, _ => none

/-- `push_stage_progress`. -/
def pushStageProgress (c : Ctx) (flow : FlowId) (cause : PendingCollectiveProgress)
    (ordinal : Nat) (activated : Bool) : Prog Unit := do
  Prog.when c.full do
    let entry ← getHost
    let (position, generator) ← entry.generatorFor c.node.id flow
    let record ← okOr
      (collectiveProgressRecord c ordinal activated cause generator (entry.state.stage position))
      (.unexpectedGeneratorEmission c.node.id flow c.event.payload)
    pushMechanism (.collective record)

end Days
