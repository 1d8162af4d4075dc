/-
  Days.Compile.Collective — a scenario's collectives: what is accepted, and how a
  ring's messages are laid out (`scenario/compile.rs`).

  Left out: everything of a collective that no stage of it depends on (priority,
  transport, pacing).  Nothing rests on how a seeded all-to-all draws its matrix.
-/
import Mathlib.Data.List.Sort
import Mathlib.Algebra.Ring.Nat
import Days.Exec.SeededMatrix

namespace Days.Compile

/-! ## §1. Keys. -/

inductive CompileError where
  | unsupported (message : String)
  | invalid (message : String)
  deriving DecidableEq, Repr

inductive CollectiveAlgorithm where
  | ringAllReduce
  | allGather
  | reduceScatter
  | allToAll
  | sendRecv
  deriving DecidableEq, Repr

inductive CollectivePhase where
  | reduceScatter
  | allGather
  | allToAll
  | sendRecv
  deriving DecidableEq, Repr

/-- `CollectiveChunkPolicy`. -/
inductive ChunkPolicy where
  | equalRemainderLast
  | uniformFloor
  | seeded
  deriving DecidableEq, Repr

/-- The algorithm as the messages print it. -/
def CollectiveAlgorithm.name : CollectiveAlgorithm → String
  | ringAllReduce => "RingAllReduce"
  | allGather => "AllGather"
  | reduceScatter => "ReduceScatter"
  | allToAll => "AllToAll"
  | sendRecv => "SendRecv"

/-- `is_ring_algorithm`. -/
def CollectiveAlgorithm.isRing : CollectiveAlgorithm → Bool
  | ringAllReduce | allGather | reduceScatter => true
  | _ => false

/-- How the matrix of a seeded all-to-all is drawn, the bytes by source and target; none if a
    product overflows. -/
class SeededMatrix where
  bytes : SeededAllToAll → Nat → Option (Nat → Nat → Nat)

/-- The matrix the seed draws. -/
instance drawnMatrix : SeededMatrix where
  bytes seeded flows := (seeded.bytes flows).map fun bytes source target => bytes.getD (source * flows + target) 0

/-- `CollectiveKey`. -/
structure CollectiveKey where
  issueOrdinal : Option Nat
  algorithm : CollectiveAlgorithm
  flowCount : Nat
  sources : List Nat
  sinks : List Nat
  totalBytes : Nat
  name : Option String
  after : List String
  channels : List (List Nat)
  seeded : Option SeededAllToAll
  chunk : ChunkPolicy

/-- `ComputeKey`. -/
structure ComputeKey where
  name : String
  hosts : List Nat
  durationNs : Nat
  after : List String

/-! ## §2. What is accepted. -/

/-- The participants of a collective as `collective_key` checks them. -/
def checkParticipants (algorithm : CollectiveAlgorithm) (flowCount : Nat) (sources sinks : List Nat)
    (hasChannels : Bool) : Except CompileError Unit := do
  if flowCount = 0 ∨ algorithm = .ringAllReduce ∧ flowCount < 2 ∨
      algorithm = .sendRecv ∧ flowCount ≠ 2 then
    throw (.invalid (match algorithm with
      | .ringAllReduce => "RingAllReduce flow_count must be at least 2"
      | .sendRecv => "SendRecv flow_count must be 2: sources = [sender, receiver]"
      | other => s!"{other.name} flow_count must be at least 1"))
  if algorithm.isRing = false then
    if sinks ≠ [] then
      throw (.invalid s!"{algorithm.name} takes `sources` only: no `sinks`")
    if algorithm = .sendRecv ∧ sources.length ≠ 2 then
      throw (.invalid "SendRecv requires sources = [sender, receiver]")
    if sources ≠ [] ∧ sources.length ≠ flowCount then
      throw (.invalid s!"collective sources must contain flow_count={flowCount} entries")
  else if hasChannels then
    if sources.length ≠ flowCount ∨ sinks ≠ [] then
      throw (.invalid s!"ring channels take flow_count={flowCount} `sources` and no `sinks`")
  else if sources.isEmpty ≠ sinks.isEmpty then
    throw (.invalid
      "collective sources and sinks must either both be provided or both be omitted")
  if algorithm.isRing ∧ hasChannels = false ∧ sources ≠ [] then
    if sources.length ≠ flowCount ∨ sinks.length ≠ flowCount then
      throw (.invalid
        s!"collective sources and sinks must each contain flow_count={flowCount} entries")
    -- Every rank sends to the next source.
    match (List.range sources.length).find? fun rank =>
        sinks[rank]? != sources[(rank + 1) % sources.length]? with
    | some rank =>
      let sink := sinks.getD rank 0
      let next := sources.getD ((rank + 1) % sources.length) 0
      throw (.invalid
        s!"collective ring-next mismatch at rank {rank}: sink {sink} must equal next source {next}")
    | none => pure ()

/-- A collective's bytes as `collective_key` checks them, for the given transport. -/
def checkBytes (algorithm : CollectiveAlgorithm) (flowCount totalBytes : Nat) (transport : String) :
    Except CompileError Unit := do
  if algorithm = .ringAllReduce ∧ totalBytes < flowCount then
    throw (.invalid
      s!"RingAllReduce byte size {totalBytes} must be at least flow_count {flowCount}")
  if totalBytes < flowCount ∨ algorithm = .sendRecv ∧ totalBytes = 0 then
    throw (.invalid
      s!"{transport} collective byte size {totalBytes} must be at least flow_count {flowCount}")

/-- The chunk policy of `shape_collective`. -/
def chunkPolicy (algorithm : CollectiveAlgorithm) : Option String → Except CompileError ChunkPolicy
  | none => .ok (if algorithm = .allToAll then .uniformFloor else .equalRemainderLast)
  | some policy =>
    if policy = "EqualRemainderLast" ∧ algorithm.isRing then .ok .equalRemainderLast
    else if policy = "UniformFloor" ∧ algorithm ≠ .sendRecv then .ok .uniformFloor
    else .error (.unsupported (s!"unsupported {algorithm.name} chunk policy `{policy}`; rings take " ++
      "EqualRemainderLast or UniformFloor, an all-to-all UniformFloor"))

/-- The ring channels of `shape_collective`: each orders exactly the sources; ranks are positions
    in `sources`. -/
def ringChannels (algorithm : CollectiveAlgorithm) (sources sinks : List Nat) (chunk : ChunkPolicy) :
    Option (List (List Nat)) → Except CompileError (List (List Nat))
  | none => .ok []
  | some channels => do
    if algorithm.isRing = false then
      throw (.invalid s!"{algorithm.name} has no ring channels")
    if sinks ≠ [] ∨ sources = [] then
      throw (.invalid "ring channels take `sources` (the ranks in order) and no `sinks`")
    if channels = [] then
      throw (.invalid "`channels` lists no ring")
    if channels.any fun ring => ring.insertionSort (· ≤ ·) != sources.insertionSort (· ≤ ·) then
      throw (.invalid "every ring channel must order exactly the collective's sources")
    let rings := channels.map fun ring => ring.map sources.idxOf
    if rings.length > 1 ∧ chunk ≠ .uniformFloor then
      throw (.invalid "a collective of several ring channels requires chunk = \"UniformFloor\"")
    return rings

/-- The seeded sizes of `shape_collective`. -/
def checkSeeded (algorithm : CollectiveAlgorithm) (flowCount totalBytes : Nat) :
    Option SeededAllToAll → Except CompileError Unit
  | none => .ok ()
  | some seeded => do
    if algorithm ≠ .allToAll then
      throw (.invalid "`[collective.alltoall]` sizes apply to an AllToAll only")
    if seeded.experts = 0 ∨ seeded.experts % flowCount ≠ 0 then
      throw (.invalid (s!"all-to-all experts {seeded.experts} must be a positive multiple of the " ++
        s!"{flowCount} ranks"))
    if seeded.routedBytesPerSource ≠ some totalBytes then
      throw (.invalid (s!"a seeded all-to-all's size {totalBytes} must equal tokens x topk x " ++
        "bytes_per_copy"))

/-- The bytes of one message, as `shape_collective` checks that there are some. -/
def messageBytes (key : CollectiveKey) : Nat :=
  match key.algorithm with
  | .sendRecv => key.totalBytes
  | algorithm =>
    if key.chunk = .seeded then 1
    else if algorithm = .allToAll then key.totalBytes / key.flowCount
    else if key.chunk = .uniformFloor then
      key.totalBytes / key.flowCount / max key.channels.length 1
    else key.totalBytes / key.flowCount

/-- A collective as the scenario declares it. -/
structure SourceCollective where
  issueOrdinal : Option Nat
  algorithm : CollectiveAlgorithm
  transport : String
  flowCount : Nat
  sources : List Nat
  sinks : List Nat
  totalBytes : Nat
  name : Option String
  after : List String
  channels : Option (List (List Nat))
  chunk : Option String
  alltoall : Option SeededAllToAll

/-- Every message of a key carries a byte. -/
def checkMessages (key : CollectiveKey) : Except CompileError Unit :=
  if messageBytes key = 0 ∧ key.flowCount > 1 then
    let channelCount := max key.channels.length 1
    .error (.invalid (s!"{key.algorithm.name} of {key.totalBytes} bytes over {key.flowCount} ranks and " ++
      s!"{channelCount} channels sends empty messages; every message must carry a byte"))
  else .ok ()

/-- The key of a declared collective with its chunk policy and its channels. -/
def SourceCollective.key (source : SourceCollective) (chunk : ChunkPolicy)
    (channels : List (List Nat)) : CollectiveKey :=
  { source with channels, seeded := source.alltoall,
                chunk := if source.alltoall.isSome then .seeded else chunk }

/-- `validate_collective`: `collective_key`, then `shape_collective`. -/
def validateCollective (source : SourceCollective) : Except CompileError CollectiveKey := do
  checkParticipants source.algorithm source.flowCount source.sources source.sinks
    source.channels.isSome
  checkBytes source.algorithm source.flowCount source.totalBytes source.transport
  let chunk ← chunkPolicy source.algorithm source.chunk
  let channels ← ringChannels source.algorithm source.sources source.sinks chunk source.channels
  checkSeeded source.algorithm source.flowCount source.totalBytes source.alltoall
  checkMessages (source.key chunk channels)
  return source.key chunk channels

/-- Omitted participants are all hosts, in order. -/
def fillParticipants (hosts : List Nat) (key : CollectiveKey) : Except CompileError CollectiveKey :=
  if key.sources = [] then
    if hosts.length = key.flowCount then
      .ok { key with
        sources := hosts
        sinks := if key.algorithm.isRing then hosts.rotate 1 else key.sinks }
    else .error (.invalid (s!"collective flow_count {key.flowCount} must match the {hosts.length} " ++
      "configured hosts when sources/sinks are omitted"))
  else .ok key

/-- Participants are configured hosts, each once. -/
def checkHosts (hosts : List Nat) (key : CollectiveKey) : Except CompileError Unit :=
  match (key.sources ++ key.sinks).find? fun participant => !hosts.contains participant with
  | some participant =>
    .error (.invalid
      s!"collective participant {participant} must be a configured host attachment")
  | none =>
    if key.sources.Nodup then .ok ()
    else .error (.invalid "collective ring participants must be unique")

/-- The normalization in `canonical_flows`. -/
def normalizeCollective (hosts : List Nat) (key : CollectiveKey) : Except CompileError CollectiveKey := do
  let key ← fillParticipants hosts key
  checkHosts hosts key
  return key

/-! ## §3. Chunks. -/

/-- `collective_chunk_bounds`. -/
def collectiveChunkBounds (total groupSize owner : Nat) : Nat × Nat :=
  let base := total / groupSize
  let offset := owner * base
  (offset, if owner + 1 = groupSize then total - offset else base)

/-- `owner_offset`. -/
def ownerOffset : CollectiveAlgorithm → CollectivePhase → Nat
  | .ringAllReduce, .allGather => 2
  | _, _ => 1

/-- `ring_phases`. -/
def ringPhases : CollectiveAlgorithm → List CollectivePhase
  | .ringAllReduce => [.reduceScatter, .allGather]
  | .reduceScatter => [.reduceScatter]
  | _ => [.allGather]

/-! ## §4. Layouts. -/

/-- `CollectiveLayout`. -/
structure CollectiveLayout where
  rings : List (List Nat)
  positions : List (List Nat)
  pairBytes : Nat → Nat → Nat

/-- The positions of the ranks in one ring, as the loop fills them in. -/
def fillPositions (n : Nat) (order : List Nat) : List Nat :=
  order.zipIdx.foldl (fun positions entry => positions.set entry.1 entry.2) (List.replicate n 0)

variable [SeededMatrix]

namespace CollectiveLayout

/-- `CollectiveLayout::of`, for sizes that do not overflow. -/
def of (key : CollectiveKey) : CollectiveLayout where
  rings := if key.algorithm.isRing then key.channels else []
  positions := if key.algorithm.isRing then key.channels.map (fillPositions key.flowCount) else []
  pairBytes := fun source target =>
    match key.algorithm with
    | .allToAll =>
      match key.seeded with
      | some seeded =>
        match SeededMatrix.bytes seeded key.flowCount with
        | some bytes => bytes source target
        | none => 0
      | none => if source = target then 0 else key.totalBytes / key.flowCount
    | _ => 0

/-- The overflow `CollectiveLayout::of` refuses. -/
def check (key : CollectiveKey) : Except CompileError Unit :=
  match key.algorithm, key.seeded with
  | .allToAll, some seeded =>
    if (SeededMatrix.bytes seeded key.flowCount).isSome then .ok ()
    else .error (.invalid "seeded all-to-all sizes overflow u64")
  | _, _ => .ok ()

omit [SeededMatrix]

/-- `channels`. -/
def channels (layout : CollectiveLayout) : Nat := max layout.rings.length 1

/-- `position`. -/
def position (layout : CollectiveLayout) (channel rank : Nat) : Nat :=
  match layout.positions[channel]? with
  | none => rank
  | some positions => positions.getD rank 0

/-- `rank_at`. -/
def rankAt (layout : CollectiveLayout) (channel position : Nat) : Nat :=
  match layout.rings[channel]? with
  | none => position
  | some order => order.getD position 0

/-- `previous`. -/
def previous (layout : CollectiveLayout) (channel rank n : Nat) : Nat :=
  layout.rankAt channel ((layout.position channel rank + n - 1) % n)

/-- `next`. -/
def next (layout : CollectiveLayout) (channel rank n : Nat) : Nat :=
  layout.rankAt channel ((layout.position channel rank + 1) % n)

end CollectiveLayout

/-- `collective_stage_owner`: the rank whose chunk the stage sends. -/
def collectiveStageOwner (key : CollectiveKey) (phase : CollectivePhase) (channel rank step : Nat) :
    Nat :=
  let layout := CollectiveLayout.of key
  let owner := (layout.position channel rank + key.flowCount - step +
    ownerOffset key.algorithm phase) % key.flowCount
  layout.rankAt channel owner

/-- `ring_chunk`: the offset and the bytes of a ring stage's chunk. -/
def ringChunk (key : CollectiveKey) (phase : CollectivePhase) (channel rank step : Nat) : Nat × Nat :=
  let owner := collectiveStageOwner key phase channel rank step
  match key.chunk with
  | .uniformFloor =>
    let channels := (CollectiveLayout.of key).channels
    let bytes := key.totalBytes / key.flowCount / channels
    ((owner * channels + channel) * bytes, bytes)
  | _ => collectiveChunkBounds key.totalBytes key.flowCount owner

end Days.Compile
