/-
  Days.Aicb.Lower — a planned schedule as the operations of a workload
  (`workload/aicb/lower.rs`).

  Each segment becomes a compute operation over its stage's ranks, each
  collective one operation per group instance, each pipeline transfer one
  send/recv per pair of ranks.  Data collectives follow their forks and the
  data collective before them.
-/
import Days.Aicb.Schedule
import Days.Compile.Collective

namespace Days.Aicb

/-! ## §1. Workloads. -/

/-- The workload's `Algorithm`. -/
inductive IrAlgorithm where
  | allGather
  | reduceScatter
  | allReduce
  | allToAll
  | sendRecv
  deriving DecidableEq, Repr

structure Collective where
  algorithm : IrAlgorithm
  bytes : Nat
  transport : Nat
  channels : Option (List (List Nat))
  uniformFloor : Bool
  seeded : Option SeededAllToAll
  issueOrdinal : Option Nat
  deriving DecidableEq, Repr

inductive OperationKind where
  | compute (durationNs : Nat)
  | collective (collective : Collective)
  deriving DecidableEq, Repr

structure Operation where
  group : Nat
  after : List Nat
  stream : Nat
  kind : OperationKind
  deriving DecidableEq, Repr

structure Workload where
  groups : List (List Nat)
  transports : List String
  operations : List Operation
  deriving DecidableEq, Repr

namespace ServerLocality

end ServerLocality

/-- The servers of a ring: distinct, in order. -/
def serversOf (ranks : List Nat) (serverOf : Nat → Nat) : List Nat :=
  ((ranks.map serverOf).insertionSort (· ≤ ·)).dedup

/-- `simai_ring_channels`: one ring per local slot, each rotated by its slot. -/
def simaiRingChannels (ranks : List Nat) (serverOf : Nat → Nat) : Option (List (List Nat)) := do
  let n := ranks.length
  guard (n ≠ 0)
  let nodes := (serversOf ranks serverOf).length
  guard (n % nodes = 0)
  let nlocal := n / nodes
  let sorted := ranks.insertionSort (· ≤ ·)
  let first := sorted.take nlocal
  guard (nodes ≤ 1 ∨ ranks.getD 0 0 ≤ ranks.getD nlocal 0)
  let delta := if 1 < nodes then ranks.getD nlocal 0 - ranks.getD 0 0 else 0
  (List.range nlocal).mapM fun k => do
    let order := (List.range nodes).flatMap fun i =>
      (List.range nlocal).map fun j => first.getD ((k + j) % nlocal) 0 + i * delta
    guard (order.all (· < 2 ^ 64))
    guard (order.insertionSort (· ≤ ·) = sorted)
    return order

/-! ## §2. The builder. -/

/-- `Builder` with the maps of `lower_plan`: the operations of each transfer, and the compute
    operation that ends at each fork, by collective and stage. -/
structure Builder where
  hostGroups : List (List Nat)
  operations : List Operation
  transfers : List (PipelineTransfer × List Nat)
  forks : List ((OpId × Nat) × Nat)
  deriving DecidableEq, Repr

namespace Builder

def empty : Builder := ⟨[], [], [], []⟩

/-- `push_hosts`: the group of equal hosts, or a new one; the operation's index. -/
def pushHosts (builder : Builder) (hosts after : List Nat) (stream : Nat) (kind : OperationKind) :
    Builder × Nat :=
  let known := builder.hostGroups.contains hosts
  ({ builder with
      hostGroups := if known then builder.hostGroups else builder.hostGroups ++ [hosts]
      operations := builder.operations ++
        [⟨builder.hostGroups.idxOf hosts, after, stream, kind⟩] },
    builder.operations.length)

/-- Several operations with their hosts and kinds. -/
def pushEach (builder : Builder) (after : List Nat) (stream : Nat) :
    List (List Nat × OperationKind) → Builder × List Nat
  | [] => (builder, [])
  | (hosts, kind) :: rest =>
    let (builder, operation) := builder.pushHosts hosts after stream kind
    let (builder, operations) := pushEach builder after stream rest
    (builder, operation :: operations)

/-- `operations[operation].after = vec![compute]`. -/
def setAfter (builder : Builder) (operations : List Nat) (compute : Nat) : Builder :=
  { builder with
    operations := operations.foldl (fun all operation => all.modify operation fun op =>
      { op with after := [compute] }) builder.operations }

end Builder

/-- The ranks of a transfer, sender first. -/
def transferPairs (groups : Groups) (transfer : PipelineTransfer) : List (List Nat) :=
  (List.range' (transfer.boundary * groups.stageRanks) groups.stageRanks).map fun rank =>
    if transfer.backward then [rank + groups.stageRanks, rank] else [rank, rank + groups.stageRanks]

/-- Positions in the start order; the last one counts, as the map keeps it. -/
def ordinalOf (order : List StartItem) (item : StartItem) : Option Nat :=
  ((order.zipIdx.filter fun entry => entry.1 = item).getLast?).map (·.2)

/-- `Builder::transfer`: the operations of a transfer, created when it is first met. -/
def Builder.transfer (builder : Builder) (plan : Plan) (groups : Groups) (transfer : PipelineTransfer) :
    Except AicbError (Builder × List Nat) :=
  match builder.transfers.lookup transfer with
  | some operations => .ok (builder, operations)
  | none =>
    match ordinalOf plan.startOrder (.pipeline transfer) with
    | none => .error (.new "a pipeline transfer is not in the start order")
    | some ordinal =>
      let kind : OperationKind :=
        .collective ⟨.sendRecv, plan.pipelineBytes, 0, none, false, none, some ordinal⟩
      let (builder, operations) :=
        builder.pushEach [] 0 ((transferPairs groups transfer).map fun hosts => (hosts, kind))
      .ok ({ builder with transfers := (transfer, operations) :: builder.transfers }, operations)

/-! ## §3. The stages. -/

def PipelineTransfer.debug (transfer : PipelineTransfer) : String :=
  s!"PipelineTransfer \x7b boundary: {transfer.boundary}, block: {transfer.block}, " ++
    s!"backward: {transfer.backward} \x7d"

def SegmentEnd.debug : SegmentEnd → String
  | .collective op => s!"Collective({op})"
  | .fork op => s!"Fork({op})"
  | .receive transfer => s!"Receive({transfer.debug})"
  | .send transfer => s!"Send({transfer.debug})"

/-- The ranks of a stage. -/
def stageHosts (groups : Groups) (stage : Nat) : List Nat :=
  List.range' (stage * groups.stageRanks) groups.stageRanks

end Days.Aicb
