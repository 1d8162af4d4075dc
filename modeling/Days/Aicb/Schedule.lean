/-
  Days.Aicb.Schedule — the schedule of an AICB trace (`workload/aicb/parse.rs`,
  `groups.rs`, `schedule.rs`).

  A trace's records become the chain that every rank of a pipeline stage runs:
  delays, blocking collectives, forks of data collectives, and the transfers of
  the pipeline.  Stretches of delays are fused into segments, each ending at a
  cross-host point of the chain.
-/
import Mathlib.Data.List.Dedup
import Mathlib.Data.List.Sort
import Mathlib.Algebra.Ring.Nat

namespace Days.Aicb

/-! ## §1. Traces. -/

/-- `AicbError`; a panic of the source is the error with its text. -/
structure AicbError where
  line : Option Nat
  message : String
  deriving DecidableEq, Repr

def AicbError.at (line : Nat) (message : String) : AicbError := ⟨some line, message⟩

def AicbError.new (message : String) : AicbError := ⟨none, message⟩

inductive Algorithm where
  | allReduce
  | allGather
  | reduceScatter
  | allToAll
  deriving DecidableEq, Repr

inductive GroupKind where
  | tp
  | dp
  | ep
  | dpEp
  deriving DecidableEq, Repr

inductive Column where
  | forward
  | inputGradient
  | weightGradient
  deriving DecidableEq, Repr

def Algorithm.debug : Algorithm → String
  | allReduce => "AllReduce"
  | allGather => "AllGather"
  | reduceScatter => "ReduceScatter"
  | allToAll => "AllToAll"

def GroupKind.debug : GroupKind → String
  | tp => "Tp"
  | dp => "Dp"
  | ep => "Ep"
  | dpEp => "DpEp"

def Column.debug : Column → String
  | forward => "Forward"
  | inputGradient => "InputGradient"
  | weightGradient => "WeightGradient"

structure Comm where
  algorithm : Algorithm
  group : GroupKind
  deriving DecidableEq, Repr

structure ColumnEntry where
  computeNs : Nat
  comm : Option Comm
  sizeBytes : Nat
  deriving DecidableEq, Repr

structure Record where
  name : String
  line : Nat
  forward : ColumnEntry
  inputGradient : ColumnEntry
  weightGradient : ColumnEntry
  processTimeNs : Nat
  deriving DecidableEq, Repr

def Record.column (record : Record) : Column → ColumnEntry
  | .forward => record.forward
  | .inputGradient => record.inputGradient
  | .weightGradient => record.weightGradient

structure Header where
  tp : Nat
  ep : Nat
  pp : Nat
  ga : Nat
  allGpus : Nat
  ppCommBytes : Nat
  deriving DecidableEq, Repr

inductive Fidelity where
  | simai
  | megatron
  deriving DecidableEq, Repr

/-- `GroupFamily`; `NO_GROUP` is `none`. -/
structure GroupFamily where
  size : Nat
  ranks : List Nat
  groupOf : List (Option Nat)
  deriving DecidableEq, Repr

/-- The ranks of group `index`. -/
def chunk (size : Nat) (ranks : List Nat) (index : Nat) : List Nat :=
  (ranks.drop (index * size)).take size

namespace GroupFamily

def new (world size : Nat) (ranks : List Nat) : GroupFamily where
  size
  ranks
  groupOf :=
    (List.range (if size = 0 then 0 else ranks.length / size)).foldl
      (fun table index => (chunk size ranks index).foldl (fun table rank => table.set rank (some index))
        table)
      (List.replicate world none)

def len (family : GroupFamily) : Nat :=
  if family.size = 0 then 0 else family.ranks.length / family.size

def group (family : GroupFamily) (index : Nat) : List Nat := chunk family.size family.ranks index

def groups (family : GroupFamily) : List (List Nat) := (List.range family.len).map family.group

end GroupFamily

structure Groups where
  fidelity : Fidelity
  world : Nat
  gpusPerServer : Nat
  stages : Nat
  tp : GroupFamily
  dp : GroupFamily
  ep : GroupFamily
  dpEp : GroupFamily
  deriving DecidableEq, Repr

namespace Groups

def family (groups : Groups) : GroupKind → GroupFamily
  | .tp => groups.tp
  | .dp => groups.dp
  | .ep => groups.ep
  | .dpEp => groups.dpEp

def serverOf (groups : Groups) (rank : Nat) : Nat := rank / groups.gpusPerServer

def stageRanks (groups : Groups) : Nat := groups.world / groups.stages

end Groups

/-- Pipeline stages that carry traffic. -/
def Header.stages (header : Header) : Fidelity → Nat
  | .simai => 1
  | .megatron => header.pp

abbrev OpId := Nat

structure MatrixRef where
  matrix : Nat
  transpose : Bool
  bytesPerCopy : Nat
  deriving DecidableEq, Repr

structure CollectiveOp where
  record : Nat
  column : Column
  algorithm : Algorithm
  group : GroupKind
  totalBytes : Nat
  messageBytes : Nat
  groupSize : Nat
  servers : Nat
  channels : Nat
  steps : Nat
  matrix : Option MatrixRef
  deriving DecidableEq, Repr

/-- `single_server`. -/
def CollectiveOp.singleServer (op : CollectiveOp) : Bool := op.servers == 1

/-- What two blocks agree on. -/
def Record.content (record : Record) : String × ColumnEntry × ColumnEntry × ColumnEntry × Nat :=
  (record.name, record.forward, record.inputGradient, record.weightGradient, record.processTimeNs)

/-- `PipelineTransfer`: forward from stage `boundary` to the next, or back. -/
structure PipelineTransfer where
  boundary : Nat
  block : Nat
  backward : Bool
  deriving DecidableEq, Repr

inductive ChainItem where
  | delay (ns : Nat)
  | collective (op : OpId)
  | fork (op : OpId)
  | receive (transfer : PipelineTransfer)
  | send (transfer : PipelineTransfer)
  deriving DecidableEq, Repr

inductive SegmentEnd where
  | collective (op : OpId)
  | fork (op : OpId)
  | receive (transfer : PipelineTransfer)
  | send (transfer : PipelineTransfer)
  deriving DecidableEq, Repr

structure Segment where
  delayNs : Nat
  singleServerOps : List OpId
  ending : SegmentEnd
  deriving DecidableEq, Repr

structure StageChain where
  items : List ChainItem
  segments : List Segment
  deriving DecidableEq, Repr

/-- `block_of`, with whether the record is its block's first or last. -/
def blockOf (blocks : List (Nat × Nat)) (index : Nat) : Option (Nat × Bool × Bool) := do
  let block ← blocks.findIdx? fun block => block.1 ≤ index ∧ index < block.1 + block.2
  let (first, length) ← blocks[block]?
  some (block, index == first, index == first + length - 1)

/-- `transfers`: at the boundary below or above a stage; without a stage, every send. -/
def transferItems (stage : Option Nat) (stages : Nat) (backward : Bool) (block : Nat) (receive : Bool) :
    List ChainItem :=
  match stage with
  | some s =>
    let boundary : Option Nat :=
      if backward = receive then (if s + 1 < stages then some s else none)
      else (if s = 0 then none else some (s - 1))
    boundary.toList.map fun boundary =>
      if receive then .receive ⟨boundary, block, backward⟩ else .send ⟨boundary, block, backward⟩
  | none =>
    if receive then []
    else (List.range (stages - 1)).map fun boundary => .send ⟨boundary, block, backward⟩

/-- Whether a collective fuses into a segment. -/
def fuses (ops : List CollectiveOp) (op : OpId) : Bool := (ops[op]?).any CollectiveOp.singleServer

/-- What a cross-host point ends; `none` for a delay or a collective inside servers. -/
def ChainItem.point (ops : List CollectiveOp) : ChainItem → Option SegmentEnd
  | .delay _ => none
  | .collective op => if fuses ops op then none else some (.collective op)
  | .fork op => some (.fork op)
  | .receive transfer => some (.receive transfer)
  | .send transfer => some (.send transfer)

/-- `segment`: a point takes the delays since the previous one; no segment is made without any. -/
def segment (ops : List CollectiveOp) : Nat → List OpId → List ChainItem → Except AicbError (List Segment)
  | _, _, [] => .ok []
  | delay, singles, item :: rest =>
    match item.point ops with
    | some ending => do
      let segments ← segment ops 0 [] rest
      return if 0 < delay ∨ singles ≠ [] then ⟨delay, singles, ending⟩ :: segments else segments
    | none =>
      match item with
      | .delay ns =>
        if delay + ns < 2 ^ 64 then segment ops (delay + ns) singles rest
        else .error (.new "a fused delay overflows u64")
      | .collective op => segment ops delay (singles ++ [op]) rest
      | _ => segment ops delay singles rest

inductive DataQueueOrder where
  | lifo
  | fifo
  | fifoFallback
  deriving DecidableEq, Repr

structure DataQueue where
  issued : List OpId
  issueOffsetsNs : List (Option Nat)
  headLowerBoundNs : Nat
  kind : DataQueueOrder
  order : List OpId
  deriving DecidableEq, Repr

inductive StartItem where
  | collective (op : OpId)
  | pipeline (transfer : PipelineTransfer)
  deriving DecidableEq, Repr

/-- The items of `start_order`: each fork takes the next data collective of the queue; with whether
    no message of the model stream follows a fork. -/
def startItems (ops : List CollectiveOp) : Bool → List OpId → List ChainItem →
    Except AicbError (List StartItem × Bool)
  | _, _, [] => .ok ([], true)
  | forked, queue, item :: rest =>
    match item with
    | .collective op =>
      if fuses ops op then startItems ops forked queue rest
      else do
        let (order, exact_) ← startItems ops forked queue rest
        return (.collective op :: order, !forked && exact_)
    | .send transfer => do
      let (order, exact_) ← startItems ops forked queue rest
      return (.pipeline transfer :: order, !forked && exact_)
    | .fork _ =>
      match queue with
      | [] => .error (.new "every fork has a data op")
      | next :: queue => do
        let (order, exact_) ← startItems ops true queue rest
        return (.collective next :: order, exact_)
    | .delay _ | .receive _ => startItems ops forked queue rest

/-- `start_order`: the items, and whether the ordinals are exact. -/
def startOrder (ops : List CollectiveOp) (queue : DataQueue) (chain : List ChainItem) :
    Except AicbError (List StartItem × Bool) := do
  let (order, exact_) ← startItems ops false queue.order chain
  return (order, exact_ && queue.kind != .fifoFallback)

structure Plan where
  fidelity : Fidelity
  ops : List CollectiveOp
  stages : List StageChain
  dataQueue : DataQueue
  startOrder : List StartItem
  ecmpOrdinalsExact : Bool
  pipelineBytes : Nat
  deriving DecidableEq, Repr

end Days.Aicb
