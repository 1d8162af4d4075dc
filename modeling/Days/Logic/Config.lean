/-
  Days.Logic.Config — the part of a node's state that no handler changes.

  A host keeps its flows, the sizes its sources and receivers use, its stage
  roles and its lookup tables.
-/
import Days.Exec.Scalar
import Days.Logic.Ledger

namespace Days

variable {position : Nat}

/-! ## §1. Hosts. -/

/-- What a source is configured with. -/
inductive GeneratorConfig where
  | constant (state : ConstantGenerator)
  | tcp (totalBytes mssBytes ackSizeBytes : Nat)
  | rate (packetSizeBytes totalBytes : Nat)
  | dcqcn (packetSizeBytes totalBytes cnpSizeBytes : Nat)
  | roce (mtuBytes totalBytes pacingIntervalNs : Nat) (token : PayloadId)

def FlowGeneratorKind.config : FlowGeneratorKind → GeneratorConfig
  | constant state => .constant state
  | tcp state => .tcp state.totalBytes state.mssBytes state.ackSizeBytes
  | rate state => .rate state.packetSizeBytes state.totalBytes
  | dcqcn state => .dcqcn state.rate.packetSizeBytes state.rate.totalBytes state.cnpSizeBytes
  | roce state =>
    .roce state.pacer.mtuBytes state.pacer.totalBytes state.pacer.pacingIntervalNs
      state.pacingTimerPayload

def FlowGeneratorState.config (g : FlowGeneratorState) : FlowId × GeneratorConfig :=
  (g.flow, g.kind.config)

structure HostConfig where
  egressLink : LinkId
  generators : List (FlowId × GeneratorConfig)
  roles : List (Option StageRole)
  tcpReceivers : List (FlowId × Nat)
  dcqcnReceivers : List (FlowId × Nat)
  roceReceivers : Option (List (FlowId × Nat × Nat))
  generatorsByFlow : List (FlowId × Nat)
  receiversByFlow : List (FlowId × Nat)

def TcpReceiverState.config (r : TcpReceiverState) : FlowId × Nat := (r.flow, r.ackSizeBytes)

def DcqcnReceiverState.config (r : DcqcnReceiverState) : FlowId × Nat := (r.flow, r.cnpSizeBytes)

def RoceReceiverState.config (r : RoceReceiverState) : FlowId × Nat × Nat :=
  (r.flow, r.totalBytes, r.ackSizeBytes)

def HostEntry.config (e : HostEntry) : HostConfig where
  egressLink := e.state.egressLink
  generators := e.state.generators.map (·.config)
  roles := e.state.stages.map (Option.map (·.role))
  tcpReceivers := e.state.tcpReceivers.map (·.config)
  dcqcnReceivers := e.state.dcqcnReceivers.map (·.config)
  roceReceivers := e.state.roceReceivers.map (List.map (·.config))
  generatorsByFlow := e.index.generatorsByFlow
  receiversByFlow := e.index.receiversByFlow

/-- The flow table of a host names the position of each of its flows. -/
theorem mem_byFlow {flows : List FlowId} {flow : FlowId} (h : (flow, position) ∈ byFlow flows) :
    flows[position]? = some flow := by
  unfold byFlow at h
  rw [List.mem_insertionSort] at h
  exact List.mk_mem_zipIdx_iff_getElem?.1 h

/-! ## §2. Steps that leave the egress alone. -/

/-- The entry keeps its configuration and its egress: queue, service slot,
`TxReady` flag, pauses and the origin counter. -/
structure Framed (e e' : HostEntry) : Prop where
  config : e'.config = e.config
  queue : e'.state.queue = e.state.queue
  inService : e'.state.inService = e.state.inService
  ready : e'.state.txReadyPending = e.state.txReadyPending
  paused : e'.state.pfc.map (·.pausedByController) = e.state.pfc.map (·.pausedByController)
  originSeq : e'.state.nextOriginSeq = e.state.nextOriginSeq
  payloadSeq : e.state.nextPayloadSeq ≤ e'.state.nextPayloadSeq

/-- Replacing an element by one of the same image under `f` keeps the image. -/
theorem map_set_eq {α β : Type} {f : α → β} {xs : List α} {x x' : α} (hx : xs[position]? = some x)
    (hf : f x' = f x) : (xs.set position x').map f = xs.map f := by
  obtain ⟨hlt, rfl⟩ := List.getElem?_eq_some_iff.1 hx
  rw [List.map_set, hf, ← List.map_set, List.set_getElem_self]

theorem HostState.stage_eq_some {h : HostState} {stage : CollectiveStage}
    (hs : h.stage position = some stage) : h.stages[position]? = some (some stage) := by
  exact Option.join_eq_some_iff.1 hs

theorem HostEntry.setStage_framed {e : HostEntry} {stage stage' : CollectiveStage}
    (hs : e.state.stage position = some stage) (hrole : stage'.role = stage.role) :
    Framed e (e.setStage position stage') where
  config := by
    simp only [config, setStage, HostStageIndex.refreshReleasable]
    rw [map_set_eq (HostState.stage_eq_some hs)]
    simp [hrole]
  queue := rfl
  inService := rfl
  ready := rfl
  paused := rfl
  originSeq := rfl
  payloadSeq := le_rfl

end Days
