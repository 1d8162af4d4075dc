/-
  Days.Compile.Stages — stage groups and their expansion into stages
  (`scenario/compile.rs`).

  A scenario's collectives and compute groups may follow named groups.  The
  names are resolved and checked for cycles; then every collective expands to
  its messages and every compute group to its timers, each with the keys of the
  stages it waits for.  `none` stands for a walk or a recursion that never ends.
-/
import Days.Compile.Collective

namespace Days.Compile

/-! ## §1. Stage groups. -/

inductive StageGroup where
  | collective (key : CollectiveKey)
  | compute (key : ComputeKey)

namespace StageGroup

/-- `afters_of`. -/
def after : StageGroup → List String
  | collective key => key.after
  | compute key => key.after

def hosts : StageGroup → List Nat
  | collective key => key.sources
  | compute key => key.hosts

end StageGroup

/-- `collective_has_stages`. -/
def collectiveHasStages (key : CollectiveKey) : Bool := key.flowCount > 1

/-- The named groups: collectives with a name, then computes. -/
def namedGroups (collectives : List CollectiveKey) (computes : List ComputeKey) :
    List (String × StageGroup) :=
  (collectives.filterMap fun key => key.name.map fun name => (name, .collective key)) ++
    computes.map fun key => (key.name, .compute key)

/-- The group of a name. -/
def groupOf (groups : List (String × StageGroup)) (name : String) : Option StageGroup :=
  groups.lookup name

/-- The groups by name; a name is used once. -/
def collectGroups : List (String × StageGroup) → List (String × StageGroup) →
    Except CompileError (List (String × StageGroup))
  | groups, [] => .ok groups
  | groups, (name, group) :: rest =>
    if (groupOf groups name).isSome then
      .error (.invalid s!"stage group name `{name}` is used more than once")
    else collectGroups (groups ++ [(name, group)]) rest

/-- A group that follows others, as `resolve_stage_groups` checks it. -/
structure Dependent where
  kind : String
  label : String
  hosts : List Nat
  starts : List Nat
  after : List String
  isCollective : Bool

def CollectiveKey.dependent (key : CollectiveKey) : Dependent where
  kind := "collective"
  label := key.name.getD "<unnamed>"
  hosts := key.sources
  -- A Send/Recv starts at its sender alone.
  starts := if key.algorithm = .sendRecv then key.sources.take 1 else key.sources
  after := key.after
  isCollective := true

def ComputeKey.dependent (key : ComputeKey) : Dependent where
  kind := "compute"
  label := key.name
  hosts := key.hosts
  starts := key.hosts
  after := key.after
  isCollective := false

/-- One listed group: its hosts, and whether it is a compute group. -/
def checkListed (groups : List (String × StageGroup)) (d : Dependent) (earlier : List String)
    (name : String) : Except CompileError (List Nat × Bool) := do
  if earlier.contains name then
    throw (.invalid s!"{d.kind} `{d.label}` names stage group `{name}` more than once")
  let (hosts, isCompute) ← match groupOf groups name with
    | none => throw (.invalid s!"{d.kind} `{d.label}` depends on unknown stage group `{name}`")
    | some (.compute key) => pure (key.hosts, true)
    | some (.collective key) =>
      if collectiveHasStages key then pure (key.sources, false)
      else throw (.invalid
        s!"{d.kind} `{d.label}` depends on collective `{name}`, which has no stages")
  if hosts = d.hosts ∨ d.starts.any hosts.contains then return (hosts, isCompute)
  else if d.isCollective then
    throw (.invalid (s!"collective `{d.label}` names stage group `{name}`, which runs on none of the " ++
      "hosts it starts at"))
  else
    throw (.invalid
      s!"compute `{d.label}` names stage group `{name}`, which runs on none of its hosts")

/-- The listed groups in order. -/
def checkAllListed (groups : List (String × StageGroup)) (d : Dependent) :
    List String → List String → Except CompileError (List (List Nat × Bool))
  | _, [] => .ok []
  | earlier, name :: rest => do
    let listed ← checkListed groups d earlier name
    let others ← checkAllListed groups d (earlier ++ [name]) rest
    return listed :: others

/-- Every `after` names known groups, each once, that match the dependent's hosts; a collective
    follows at least one compute group. -/
def checkDependent (groups : List (String × StageGroup)) (d : Dependent) :
    Except CompileError Unit := do
  let listed ← checkAllListed groups d [] d.after
  -- An equal host list covers every start.
  if listed ≠ [] ∧ listed.all fun other => other.1 ≠ d.hosts then
    match d.starts.zipIdx.find? fun start => !listed.any fun other => other.1.contains start.1 with
    | some (host, rank) =>
      throw (.invalid (s!"{d.kind} `{d.label}` rank {rank} (host {host}) starts after no operation its " ++
        "`after` lists"))
    | none => pure ()
  if d.isCollective ∧ d.after ≠ [] ∧ listed.all fun other => !other.2 then
    let first := d.after.headD ""
    throw (.unsupported (s!"unsupported collective `{d.label}` dependency on collective `{first}` alone; " ++
      "a collective follows at least one compute group"))

def checkDependents (groups : List (String × StageGroup)) : List Dependent → Except CompileError Unit
  | [] => .ok ()
  | d :: rest => do
    checkDependent groups d
    checkDependents groups rest

/-! ## §2. Cycles. -/

def afterOf (groups : List (String × StageGroup)) (name : String) : List String :=
  match groupOf groups name with
  | some group => group.after
  | none => []

def cycleError (name : String) : CompileError :=
  .invalid s!"stage group dependencies form a cycle through `{name}`"

/-- With at most one `after` each, a cycle is a revisited name on one chain. -/
def walkChain (groups : List (String × StageGroup)) :
    Nat → List String → String → Option (Except CompileError Unit)
  | 0, _, _ => none
  | fuel + 1, seen, current =>
    if current ∈ seen then some (.error (cycleError current))
    else
      match afterOf groups current with
      | next :: _ => walkChain groups fuel (current :: seen) next
      | [] => some (.ok ())

def walkChains (groups : List (String × StageGroup)) (fuel : Nat) :
    List String → Option (Except CompileError Unit)
  | [] => some (.ok ())
  | start :: rest =>
    match walkChain groups fuel [] start with
    | some (.ok ()) => walkChains groups fuel rest
    | other => other

/-- The marks of the depth-first walk. -/
inductive Mark where
  | unvisited
  | onPath
  | finished
  deriving DecidableEq

/-- The `while` loop: the stack holds the path, each name with its next `after`. -/
def walkStack (groups : List (String × StageGroup)) :
    Nat → (String → Mark) → List (String × Nat) → Option (Except CompileError (String → Mark))
  | 0, _, _ => none
  | _ + 1, marks, [] => some (.ok marks)
  | fuel + 1, marks, (current, cursor) :: stack =>
    match (afterOf groups current)[cursor]? with
    | some next =>
      match marks next with
      | .onPath => some (.error (cycleError next))
      | .unvisited =>
        walkStack groups fuel (Function.update marks next .onPath)
          ((next, 0) :: (current, cursor + 1) :: stack)
      | .finished => walkStack groups fuel marks ((current, cursor + 1) :: stack)
    | none => walkStack groups fuel (Function.update marks current .finished) stack

def walkStarts (groups : List (String × StageGroup)) (fuel : Nat) :
    (String → Mark) → List String → Option (Except CompileError Unit)
  | _, [] => some (.ok ())
  | marks, start :: rest =>
    if marks start ≠ .unvisited then walkStarts groups fuel marks rest
    else
      match walkStack groups fuel (Function.update marks start .onPath) [(start, 0)] with
      | some (.ok marks) => walkStarts groups fuel marks rest
      | some (.error e) => some (.error e)
      | none => none

/-- The cycle check, in name order. -/
def checkCycles (groups : List (String × StageGroup)) (fuel : Nat) : Option (Except CompileError Unit) :=
  let names := (groups.map (·.1)).insertionSort (· ≤ ·)
  if groups.all fun entry => entry.2.after.length ≤ 1 then walkChains groups fuel names
  else walkStarts groups fuel (fun _ => .unvisited) names

/-- `resolve_stage_groups`. -/
def resolveStageGroups (collectives : List CollectiveKey) (computes : List ComputeKey) (fuel : Nat) :
    Option (Except CompileError (List (String × StageGroup))) :=
  match collectGroups [] (namedGroups collectives computes) with
  | .error e => some (.error e)
  | .ok groups =>
    match checkDependents groups
        (collectives.map CollectiveKey.dependent ++ computes.map ComputeKey.dependent) with
    | .error e => some (.error e)
    | .ok () =>
      match checkCycles groups fuel with
      | none => none
      | some (.error e) => some (.error e)
      | some (.ok ()) => some (.ok groups)

/-! ## §3. Keys of stages. -/

/-- `CollectiveStagePosition`. -/
structure StagePosition where
  phase : CollectivePhase
  channel : Nat
  rank : Nat
  step : Nat
  deriving DecidableEq, Repr

/-- The stage variants of `FlowKey`. -/
inductive StageKey where
  | collectiveStage (collective duplicateOrdinal : Nat) (stage : StagePosition)
  | computeStage (compute rank : Nat)
  deriving DecidableEq, Repr

/-- What a stage waits for: its host's own stages, and deliveries with their bytes. -/
structure Predecessors where
  localKeys : List StageKey
  inbound : List StageKey
  bytes : Nat
  deriving DecidableEq, Repr

/-- `PredecessorKeys::insert`. -/
def insertKey (keys : List StageKey) (key : StageKey) (dedup : Bool) : List StageKey × Bool :=
  if dedup && keys.contains key then (keys, false) else (keys ++ [key], true)

namespace Predecessors

def none : Predecessors := ⟨[], [], 0⟩

def insertLocal (p : Predecessors) (key : StageKey) (dedup : Bool) : Predecessors :=
  { p with localKeys := (insertKey p.localKeys key dedup).1 }

/-- A delivery adds its bytes once. -/
def insertInbound (p : Predecessors) (key : StageKey) (dedup : Bool) (bytes : Nat) :
    Except CompileError Predecessors :=
  if (insertKey p.inbound key dedup).2 then
    if p.bytes + bytes < 2 ^ 64 then
      .ok { p with inbound := (insertKey p.inbound key dedup).1, bytes := p.bytes + bytes }
    else .error (.invalid "inbound join bytes exceed u64")
  else .ok p

end Predecessors

/-- `StagePlan`. -/
structure StagePlan where
  groups : List (String × StageGroup)
  collectiveOrdinal : CollectiveKey → Nat
  computeOrdinal : ComputeKey → Nat

/-! ## §4. Completions. -/

variable [SeededMatrix]

/-- `AfterRanks::rank`: the rank at `host` of a listed group, given the dependent's hosts and its
    rank there. -/
def afterRank (hosts theirs : List Nat) (rank host : Nat) : Option Nat :=
  if theirs = hosts then some rank
  else if host ∈ theirs then some (theirs.idxOf host) else Option.none

/-- Keys are inserted one after another. -/
def insertLocals (dedup : Bool) (p : Predecessors) : List StageKey → Predecessors
  | [] => p
  | key :: rest => insertLocals dedup (p.insertLocal key dedup) rest

def insertInbounds (dedup : Bool) (p : Predecessors) :
    List (StageKey × Nat) → Except CompileError Predecessors
  | [] => .ok p
  | (key, bytes) :: rest => do
    let p ← p.insertInbound key dedup bytes
    insertInbounds dedup p rest

/-- The own last sends of a rank. -/
def completionLocals (key : CollectiveKey) (rank : Nat) : List StagePosition :=
  let n := key.flowCount
  let layout := CollectiveLayout.of key
  match key.algorithm with
  | .allToAll =>
    ((List.range' 1 (n - 1)).filter fun step => layout.pairBytes rank ((rank + step) % n) != 0).map
      fun step => ⟨.allToAll, 0, rank, step⟩
  | .sendRecv => if rank = 0 then [⟨.sendRecv, 0, 0, 1⟩] else []
  | algorithm =>
    (List.range layout.channels).map fun channel =>
      ⟨(ringPhases algorithm).getLastD .allGather, channel, rank, n - 1⟩

/-- The last messages delivered to a rank, with their bytes. -/
def completionInbound (key : CollectiveKey) (rank : Nat) : List (StagePosition × Nat) :=
  let n := key.flowCount
  let layout := CollectiveLayout.of key
  match key.algorithm with
  | .allToAll =>
    ((List.range' 1 (n - 1)).filter fun step => layout.pairBytes ((rank + n - step) % n) rank != 0).map
      fun step => (⟨.allToAll, 0, (rank + n - step) % n, step⟩,
        layout.pairBytes ((rank + n - step) % n) rank)
  | .sendRecv => if rank = 0 then [] else [(⟨.sendRecv, 0, 0, 1⟩, key.totalBytes)]
  | algorithm =>
    (List.range layout.channels).map fun channel =>
      let phase := (ringPhases algorithm).getLastD .allGather
      let previous := layout.previous channel rank n
      (⟨phase, channel, previous, n - 1⟩, (ringChunk key phase channel previous (n - 1)).2)

/-- `collective_completion`: an all-to-all rank that sends nothing also takes the release of the
    all-to-all there. -/
def collectiveCompletion (plan : StagePlan) (key : CollectiveKey) (rank : Nat) (dedup : Bool)
    (release : Predecessors → Option (Except CompileError Predecessors)) (p : Predecessors) :
    Option (Except CompileError Predecessors) :=
  let stageKey (position : StagePosition) : StageKey :=
    .collectiveStage (plan.collectiveOrdinal key) 0 position
  let locals := completionLocals key rank
  match insertInbounds dedup (insertLocals dedup p (locals.map stageKey))
      ((completionInbound key rank).map fun entry => (stageKey entry.1, entry.2)) with
  | .error e => some (.error e)
  | .ok p => if key.algorithm = .allToAll ∧ locals = [] then release p else some (.ok p)

/-- `follow_groups`: what a stage at `host` waits for from the groups that `names` lists there,
    without those in `skip`. -/
def followGroups (plan : StagePlan) (direct : List String) : Nat → List Nat → List String → Nat → Nat →
    List String → Bool → Predecessors → Option (Except CompileError Predecessors)
  | 0, _, _, _, _, _, _, _ => none
  | _ + 1, _, [], _, _, _, _, p => some (.ok p)
  | fuel + 1, hosts, name :: names, rank, host, skip, dedup, p =>
    let followed : Option (Except CompileError Predecessors) :=
      if skip.contains name then some (.ok p)
      else
        match groupOf plan.groups name with
        | none => none
        | some group =>
          match afterRank hosts group.hosts rank host with
          | none => some (.ok p)
          | some theirs =>
            match group with
            | .compute key =>
              some (.ok (p.insertLocal (.computeStage (plan.computeOrdinal key) theirs) dedup))
            | .collective key =>
              collectiveCompletion plan key theirs dedup
                (followGroups plan direct fuel key.sources key.after theirs
                  (key.sources.getD theirs 0) direct true) p
    match followed with
    | some (.ok p) => followGroups plan direct fuel hosts names rank host skip dedup p
    | other => other

/-- `entry_predecessors`. -/
def entryPredecessors (plan : StagePlan) (fuel : Nat) (hosts : List Nat) (after : List String)
    (rank host : Nat) : Option (Except CompileError Predecessors) :=
  followGroups plan after fuel hosts after rank host [] false .none

/-! ## §5. Expansion. -/

/-- One expanded stage: the stage part of `FlowInput`. -/
structure StageInput where
  key : StageKey
  source : Nat
  target : Nat
  chunkOffsetBytes : Nat
  chunkBytes : Nat
  predecessors : Predecessors
  deriving DecidableEq, Repr

/-- The stages of a group, one by one. -/
def expandEach {α : Type} (stage : α → Option (Except CompileError StageInput)) :
    List α → Option (Except CompileError (List StageInput))
  | [] => some (.ok [])
  | a :: rest =>
    match stage a with
    | some (.ok input) =>
      match expandEach stage rest with
      | some (.ok inputs) => some (.ok (input :: inputs))
      | other => other
    | some (.error e) => some (.error e)
    | none => none

/-- The positions of a collective's stages, in the order of the expansion. -/
def stagePositions (key : CollectiveKey) : List StagePosition :=
  let n := key.flowCount
  let layout := CollectiveLayout.of key
  match key.algorithm with
  | .allToAll =>
    (List.range n).flatMap fun rank =>
      ((List.range' 1 (n - 1)).filter fun step => layout.pairBytes rank ((rank + step) % n) != 0).map
        fun step => ⟨.allToAll, 0, rank, step⟩
  | .sendRecv => [⟨.sendRecv, 0, 0, 1⟩]
  | algorithm =>
    (ringPhases algorithm).flatMap fun phase =>
      (List.range layout.channels).flatMap fun channel =>
        (List.range n).flatMap fun rank =>
          (List.range' 1 (n - 1)).map fun step => ⟨phase, channel, rank, step⟩

/-- The rank a stage sends to. -/
def stageTarget (key : CollectiveKey) (position : StagePosition) : Nat :=
  let n := key.flowCount
  match key.algorithm with
  | .allToAll => (position.rank + position.step) % n
  | .sendRecv => 1
  | _ => (CollectiveLayout.of key).next position.channel position.rank n

/-- The chunk of a stage. -/
def stageChunk (key : CollectiveKey) (position : StagePosition) : Nat × Nat :=
  match key.algorithm with
  | .allToAll =>
    (0, (CollectiveLayout.of key).pairBytes position.rank ((position.rank + position.step) %
      key.flowCount))
  | .sendRecv => (0, key.totalBytes)
  | _ => ringChunk key position.phase position.channel position.rank position.step

/-- The ring recurrence: the stages of the rank itself and of the rank before it that a stage
    waits for, unless it is a root. -/
def ringPredecessors (key : CollectiveKey) (position : StagePosition) :
    Option (StagePosition × StagePosition) :=
  let n := key.flowCount
  let previous := (CollectiveLayout.of key).previous position.channel position.rank n
  if key.algorithm.isRing = false then none
  else if position.step > 1 then
    some ({ position with step := position.step - 1 },
      { position with rank := previous, step := position.step - 1 })
  else if key.algorithm = .ringAllReduce ∧ position.phase = .allGather then
    some ({ position with phase := .reduceScatter, step := n - 1 },
      { position with phase := .reduceScatter, rank := previous, step := n - 1 })
  else none

/-- One stage of `expand_collective`. -/
def collectiveStage (plan : StagePlan) (fuel : Nat) (key : CollectiveKey)
    (collective duplicateOrdinal : Nat) (position : StagePosition) :
    Option (Except CompileError StageInput) :=
  let stageKey (position : StagePosition) : StageKey :=
    .collectiveStage collective duplicateOrdinal position
  let source := key.sources.getD position.rank 0
  let chunk := stageChunk key position
  let input (predecessors : Predecessors) : StageInput :=
    { key := stageKey position
      source
      target := key.sources.getD (stageTarget key position) 0
      chunkOffsetBytes := chunk.1
      chunkBytes := chunk.2
      predecessors }
  match ringPredecessors key position with
  | some (own, previous) => some (.ok (input ⟨[stageKey own], [stageKey previous], chunk.2⟩))
  | none =>
    match entryPredecessors plan fuel key.sources key.after position.rank source with
    | some (.ok predecessors) => some (.ok (input predecessors))
    | some (.error e) => some (.error e)
    | none => none

/-- An all-to-all computes the entry of every rank, also of one that sends nothing. -/
def checkEntries (plan : StagePlan) (fuel : Nat) (key : CollectiveKey) :
    List Nat → Option (Except CompileError Unit)
  | [] => some (.ok ())
  | rank :: rest =>
    match entryPredecessors plan fuel key.sources key.after rank (key.sources.getD rank 0) with
    | some (.ok _) => checkEntries plan fuel key rest
    | some (.error e) => some (.error e)
    | none => none

/-- `expand_collective`. -/
def expandCollective (plan : StagePlan) (fuel : Nat) (key : CollectiveKey)
    (collective duplicateOrdinal : Nat) : Option (Except CompileError (List StageInput)) :=
  if collectiveHasStages key = false ∨ key.totalBytes = 0 then some (.ok [])
  else
    match checkEntries plan fuel key
        (if key.algorithm = .allToAll then List.range key.flowCount else []) with
    | some (.ok ()) =>
      expandEach (collectiveStage plan fuel key collective duplicateOrdinal) (stagePositions key)
    | some (.error e) => some (.error e)
    | none => none

/-- One stage of `expand_compute`. -/
def computeStage (plan : StagePlan) (fuel : Nat) (key : ComputeKey) (compute rank : Nat) :
    Option (Except CompileError StageInput) :=
  let host := key.hosts.getD rank 0
  match entryPredecessors plan fuel key.hosts key.after rank host with
  | some (.ok predecessors) =>
    some (.ok ⟨.computeStage compute rank, host, host, 0, 0, predecessors⟩)
  | some (.error e) => some (.error e)
  | none => none

/-- `expand_compute`. -/
def expandCompute (plan : StagePlan) (fuel : Nat) (key : ComputeKey) (compute : Nat) :
    Option (Except CompileError (List StageInput)) :=
  expandEach (computeStage plan fuel key compute) (List.range key.hosts.length)

/-! ## §6. All stages of a scenario. -/

section Compile

variable [LinearOrder CollectiveKey] [LinearOrder ComputeKey]

/-- The sorted distinct keys; a stage key names its collective by its place here. -/
def collectiveTable (collectives : List CollectiveKey) : List CollectiveKey :=
  (collectives.insertionSort (· ≤ ·)).dedup

def planOf (groups : List (String × StageGroup)) (collectives : List CollectiveKey)
    (computes : List ComputeKey) : StagePlan where
  groups
  collectiveOrdinal := (collectiveTable collectives).idxOf
  computeOrdinal := computes.idxOf

/-- The collectives in order, each with the number of equal ones before it. -/
def expandCollectives (plan : StagePlan) (fuel : Nat) :
    List CollectiveKey → List CollectiveKey → Option (Except CompileError (List StageInput))
  | _, [] => some (.ok [])
  | earlier, key :: rest =>
    match expandCollective plan fuel key (plan.collectiveOrdinal key) (earlier.count key) with
    | some (.ok stages) =>
      match expandCollectives plan fuel (key :: earlier) rest with
      | some (.ok others) => some (.ok (stages ++ others))
      | other => other
    | other => other

/-- The compute groups in order, each with its index. -/
def expandComputes (plan : StagePlan) (fuel : Nat) :
    Nat → List ComputeKey → Option (Except CompileError (List StageInput))
  | _, [] => some (.ok [])
  | id, key :: rest =>
    match expandCompute plan fuel key id with
    | some (.ok stages) =>
      match expandComputes plan fuel (id + 1) rest with
      | some (.ok others) => some (.ok (stages ++ others))
      | other => other
    | other => other

def checkLayouts : List CollectiveKey → Except CompileError Unit
  | [] => .ok ()
  | key :: rest => do
    CollectiveLayout.check key
    checkLayouts rest

/-- The stage part of `canonical_flows`, for normalized collectives and sorted computes. -/
def canonicalStages (collectives : List CollectiveKey) (computes : List ComputeKey) (fuel : Nat) :
    Option (Except CompileError (List StageInput)) :=
  match resolveStageGroups collectives computes fuel with
  | none => none
  | some (.error e) => some (.error e)
  | some (.ok groups) =>
    match checkLayouts (collectiveTable collectives) with
    | .error e => some (.error e)
    | .ok () =>
      let plan := planOf groups collectives computes
      match expandCollectives plan fuel [] collectives with
      | some (.ok stages) =>
        match expandComputes plan fuel 0 computes with
        | some (.ok others) => some (.ok (stages ++ others))
        | other => other
      | other => other

end Compile

end Days.Compile
