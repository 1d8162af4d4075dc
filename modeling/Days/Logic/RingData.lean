/-
  Days.Logic.RingData — ring collectives move the right data.

  Every chunk of a channel travels around its ring, hop after hop: the `h`-th hop
  of the chunk owned by position `c` leaves position `c + h`.  A hop waits for the
  one before it, so in any order of the stages that respects their predecessors a
  chunk has made some number of hops, and this number alone says what every rank
  holds of it.
-/
import Mathlib.Data.List.Induction
import Mathlib.Data.Multiset.Range
import Days.Lib.Probing
import Days.Logic.RingLayout

namespace Days.Compile

open List Multiset

variable {key : CollectiveKey} {α : Type} {l : List α}

variable {input : StageInput}

variable {pos : StagePosition}

variable [SeededMatrix]

/-! ## §1. What the stages do to the data. -/

/-- Whose contributions a rank holds of a chunk: by channel, rank and the chunk's owner. -/
abbrev Holding := Nat → Nat → Nat → Multiset Nat

/-- Before an all-gather every rank holds its own chunk; before a reduction every rank holds its
    own contribution to every chunk. -/
def initialHolding (key : CollectiveKey) : Holding := fun _ rank owner =>
  match key.algorithm with
  | .allGather => if rank = owner then {owner} else 0
  | _ => {rank}

def StagePosition.owner (key : CollectiveKey) (pos : StagePosition) : Nat :=
  collectiveStageOwner key pos.phase pos.channel pos.rank pos.step

/-- A stage sends what its rank holds of the chunk: a reduction adds it to what the target holds,
    a gather replaces it. -/
def deliver (key : CollectiveKey) (holding : Holding) (pos : StagePosition) : Holding :=
  let sent := holding pos.channel pos.rank (pos.owner key)
  fun channel rank owner =>
    if channel = pos.channel ∧ rank = stageTarget key pos ∧ owner = pos.owner key then
      match pos.phase with
      | .reduceScatter => holding channel rank owner + sent
      | _ => sent
    else holding channel rank owner

/-- The position of a collective's stage. -/
def StageInput.position? (stage : StageInput) : Option StagePosition :=
  match stage.key with
  | .collectiveStage _ _ pos => some pos
  | .computeStage _ _ => none

/-- The data after the stages have run in order. -/
def runStages (key : CollectiveKey) (order : List StageInput) : Holding :=
  (order.filterMap StageInput.position?).foldl (deliver key) (initialHolding key)

/-- The order respects the predecessors of every stage, as far as they are among the stages. -/
def RespectsPredecessors (stages order : List StageInput) : Prop :=
  ∀ before stage later, order = before ++ stage :: later →
    ∀ k ∈ stage.predecessors.localKeys ++ stage.predecessors.inbound,
      ∀ other ∈ stages, other.key = k → other ∈ before

/-- The ring position that owns the chunk of a stage. -/
def StagePosition.chunk (key : CollectiveKey) (pos : StagePosition) : Nat :=
  ((CollectiveLayout.of key).position pos.channel pos.rank + key.flowCount - pos.step +
    ownerOffset key.algorithm pos.phase) % key.flowCount

/-- The contributions of `k` ring positions from `c` on. -/
def contributions (key : CollectiveKey) (channel c k : Nat) : Multiset Nat :=
  (Multiset.range k).map fun i => (CollectiveLayout.of key).rankAt channel ((c + i) % key.flowCount)

/-- The state in which a stage must send its chunk: reduced over the ring positions from the
    chunk's owner to the sender, or complete. -/
def required (key : CollectiveKey) (pos : StagePosition) : Multiset Nat :=
  match key.algorithm, pos.phase with
  | .ringAllReduce, .allGather => Multiset.range key.flowCount
  | _, .reduceScatter => contributions key pos.channel (pos.chunk key) pos.step
  | _, _ => {pos.owner key}

/-- The chunk of an owner and a channel under `UniformFloor`, as `ring_chunk` computes it. -/
def uniformChunk (total n channels owner channel : Nat) : Nat × Nat :=
  let bytes := total / n / channels
  ((owner * channels + channel) * bytes, bytes)

/-- The chunk that an owner has on a channel. -/
def ownerChunk (key : CollectiveKey) (channel owner : Nat) : Nat × Nat :=
  match key.chunk with
  | .uniformFloor =>
    uniformChunk key.totalBytes key.flowCount (CollectiveLayout.of key).channels owner channel
  | _ => collectiveChunkBounds key.totalBytes key.flowCount owner

/-! ## §2. Hops. -/

/-- How many hops a chunk has made before the stage. -/
def StagePosition.hop (key : CollectiveKey) (pos : StagePosition) : Nat :=
  if key.algorithm = .ringAllReduce ∧ pos.phase = .allGather then
    key.flowCount - 1 + (pos.step - 1)
  else pos.step - 1

/-- The stages of a ring, without their order. -/
structure RingStage (key : CollectiveKey) (pos : StagePosition) : Prop where
  phase : pos.phase ∈ ringPhases key.algorithm
  channel : pos.channel < (CollectiveLayout.of key).channels
  rank : pos.rank < key.flowCount
  begun : 0 < pos.step
  step : pos.step < key.flowCount

/-- Of a ring, every channel of every phase has a stage for each rank and step. -/
theorem stagePositions_ring (hring : key.algorithm.isRing = true) :
    stagePositions key = (ringPhases key.algorithm).flatMap fun phase =>
      (List.range (CollectiveLayout.of key).channels).flatMap fun channel =>
        (List.range key.flowCount).flatMap fun rank =>
          (List.range' 1 (key.flowCount - 1)).map fun step => ⟨phase, channel, rank, step⟩ := by
  unfold stagePositions
  cases halg : key.algorithm <;> simp_all [CollectiveAlgorithm.isRing]

theorem mem_stagePositions (hring : key.algorithm.isRing = true) :
    pos ∈ stagePositions key ↔ RingStage key pos := by
  rw [stagePositions_ring hring]
  simp only [List.mem_flatMap, List.mem_range, List.mem_map, List.mem_range'_1]
  constructor
  · rintro ⟨phase, hphase, channel, hchannel, rank, hrank, step, hstep, rfl⟩
    exact ⟨hphase, hchannel, hrank, hstep.1, by dsimp only; omega⟩
  · intro h
    have := h.begun
    have := h.step
    exact ⟨pos.phase, h.phase, pos.channel, h.channel, pos.rank, h.rank, pos.step, by omega, rfl⟩

section Ring

variable {key : CollectiveKey} (hring : key.algorithm.isRing = true) (hrings : RingOk key)

theorem StagePosition.owner_eq (pos : StagePosition) :
    pos.owner key = (CollectiveLayout.of key).rankAt pos.channel (pos.chunk key) := rfl

theorem RingStage.count_pos (h : RingStage key pos) : 0 < key.flowCount := by
  have := h.rank
  omega

theorem RingStage.chunk_lt (h : RingStage key pos) : pos.chunk key < key.flowCount :=
  Nat.mod_lt _ h.count_pos

omit [SeededMatrix] in
/-- Cancel a summand on the ring. -/
theorem eq_of_add_mod {n a b h : Nat} (ha : a < n) (hb : b < n) (heq : (a + h) % n = (b + h) % n) :
    a = b :=
  Lib.eq_of_add_mod_eq (a := h) ha hb (by rwa [Nat.add_comm h a, Nat.add_comm h b])

omit [SeededMatrix] in
theorem hop_cases (key : CollectiveKey) (pos : StagePosition) :
    (key.algorithm = .ringAllReduce ∧ pos.phase = .allGather ∧
        pos.hop key = key.flowCount - 1 + (pos.step - 1) ∧ ownerOffset key.algorithm pos.phase = 2) ∨
      (pos.hop key = pos.step - 1 ∧ ownerOffset key.algorithm pos.phase = 1 ∧
        ¬ (key.algorithm = .ringAllReduce ∧ pos.phase = .allGather)) := by
  by_cases hcase : key.algorithm = .ringAllReduce ∧ pos.phase = .allGather
  · refine .inl ⟨hcase.1, hcase.2, if_pos hcase, ?_⟩
    rw [hcase.1, hcase.2]
    rfl
  · refine .inr ⟨if_neg hcase, ?_, hcase⟩
    unfold ownerOffset
    split
    · next halg hph => exact absurd ⟨halg, hph⟩ hcase
    · rfl

include hrings in
/-- The stage's rank lies as many positions after the owner as the chunk has made hops. -/
theorem RingStage.position_eq (h : RingStage key pos) :
    (pos.chunk key + pos.hop key) % key.flowCount =
      (CollectiveLayout.of key).position pos.channel pos.rank := by
  have hlt := position_lt hrings pos.channel h.rank
  have hpos := h.begun
  have hstep := h.step
  unfold StagePosition.chunk
  rw [Nat.mod_add_mod]
  generalize (CollectiveLayout.of key).position pos.channel pos.rank = place at hlt
  rcases hop_cases key pos with ⟨-, -, hhop, hoff⟩ | ⟨hhop, hoff, -⟩
  · rw [hhop, hoff, show place + key.flowCount - pos.step + 2 + (key.flowCount - 1 + (pos.step - 1)) =
        place + key.flowCount + key.flowCount by omega,
      Nat.add_mod_right, Nat.add_mod_right, Nat.mod_eq_of_lt hlt]
  · rw [hhop, hoff, show place + key.flowCount - pos.step + 1 + (pos.step - 1) =
        place + key.flowCount by omega, Nat.add_mod_right, Nat.mod_eq_of_lt hlt]

include hrings in
theorem RingStage.rank_eq (h : RingStage key pos) :
    pos.rank = (CollectiveLayout.of key).rankAt pos.channel
      ((pos.chunk key + pos.hop key) % key.flowCount) := by
  rw [h.position_eq hrings, rankAt_position hrings pos.channel h.rank]

include hring in
theorem stageTarget_of_ring :
    stageTarget key pos = (CollectiveLayout.of key).next pos.channel pos.rank key.flowCount := by
  unfold stageTarget
  cases halg : key.algorithm <;> simp_all [CollectiveAlgorithm.isRing]

include hring hrings in
/-- The stage sends to the next position. -/
theorem RingStage.target_eq (h : RingStage key pos) :
    stageTarget key pos = (CollectiveLayout.of key).rankAt pos.channel
      ((pos.chunk key + (pos.hop key + 1)) % key.flowCount) := by
  rw [stageTarget_of_ring hring, CollectiveLayout.next, ← h.position_eq hrings, Nat.mod_add_mod]
  rfl

include hrings in
/-- Channel, chunk and hop determine the stage. -/
theorem RingStage.ext {a b : StagePosition} (ha : RingStage key a) (hb : RingStage key b)
    (hchannel : a.channel = b.channel) (hchunk : a.chunk key = b.chunk key)
    (hhop : a.hop key = b.hop key) : a = b := by
  have hrank : a.rank = b.rank := by
    rw [ha.rank_eq hrings, hb.rank_eq hrings, hchannel, hchunk, hhop]
  have hphases : a.phase = b.phase ∧ a.step = b.step := by
    have hapos := ha.begun
    have hbpos := hb.begun
    have hastep := ha.step
    have hbstep := hb.step
    have haphase := ha.phase
    have hbphase := hb.phase
    rcases hop_cases key a with ⟨halg, hpa, hha, -⟩ | ⟨hha, -, hna⟩ <;>
      rcases hop_cases key b with ⟨halg', hpb, hhb, -⟩ | ⟨hhb, -, hnb⟩
    · exact ⟨hpa.trans hpb.symm, by omega⟩
    · omega
    · omega
    · refine ⟨?_, by omega⟩
      revert haphase hbphase hna hnb
      cases key.algorithm <;> cases a.phase <;> cases b.phase <;> simp [ringPhases]
  cases a
  cases b
  simp_all

include hring hrings in
/-- The inbound predecessor is the hop before. -/
theorem RingStage.previous {own prev : StagePosition} (h : RingStage key pos)
    (hpred : ringPredecessors key pos = some (own, prev)) :
    RingStage key prev ∧ prev.channel = pos.channel ∧ prev.chunk key = pos.chunk key ∧
      prev.hop key + 1 = pos.hop key := by
  have hn := h.count_pos
  have hpos := h.begun
  have hstep := h.step
  unfold ringPredecessors at hpred
  simp only [hring, Bool.true_eq_false, if_false] at hpred
  have hlt := rankAt_lt hrings pos.channel (Nat.mod_lt
    ((CollectiveLayout.of key).position pos.channel pos.rank + key.flowCount - 1) hn)
  have hposition := position_rankAt hrings pos.channel (Nat.mod_lt
    ((CollectiveLayout.of key).position pos.channel pos.rank + key.flowCount - 1) hn)
  unfold CollectiveLayout.previous at hpred
  generalize (CollectiveLayout.of key).rankAt pos.channel _ = rank at hpred hlt hposition
  -- The hop before leaves the position before, so it is a hop of the same chunk.
  have hchunk {prev : StagePosition} (hprev : RingStage key prev)
      (hchannel : prev.channel = pos.channel)
      (hrank : prev.rank = rank) (hhop : prev.hop key + 1 = pos.hop key) :
      prev.chunk key = pos.chunk key := by
    have heq := hprev.position_eq hrings
    rw [hchannel, hrank, hposition, ← h.position_eq hrings, ← hhop] at heq
    refine eq_of_add_mod (h := prev.hop key + 1) hprev.chunk_lt h.chunk_lt ?_
    have hback : ((pos.chunk key + (prev.hop key + 1)) % key.flowCount + key.flowCount - 1 + 1) %
        key.flowCount = (pos.chunk key + (prev.hop key + 1)) % key.flowCount := by
      rw [Nat.sub_add_cancel (by omega), Nat.add_mod_right, Nat.mod_mod]
    calc (prev.chunk key + (prev.hop key + 1)) % key.flowCount
        = ((prev.chunk key + prev.hop key) % key.flowCount + 1) % key.flowCount := by
          rw [Nat.mod_add_mod]
          rfl
      _ = _ := by rw [heq, Nat.mod_add_mod, hback]
  split at hpred
  · next hmore =>
    cases hpred
    have hprev : RingStage key { pos with rank, step := pos.step - 1 } :=
      ⟨h.phase, h.channel, hlt, by simp only; omega, by simp only; omega⟩
    have hhop : StagePosition.hop key { pos with rank, step := pos.step - 1 } + 1 = pos.hop key := by
      simp only [StagePosition.hop]
      split <;> omega
    exact ⟨hprev, rfl, hchunk hprev rfl rfl hhop, hhop⟩
  · next hone =>
    split at hpred
    · next hsecond =>
      cases hpred
      have hprev : RingStage key
          { pos with phase := .reduceScatter, rank, step := key.flowCount - 1 } := by
        refine ⟨?_, h.channel, hlt, by simp only; omega, by simp only; omega⟩
        rw [hsecond.1]
        simp [ringPhases]
      have hhop : StagePosition.hop key
          { pos with phase := .reduceScatter, rank, step := key.flowCount - 1 } + 1 = pos.hop key := by
        simp only [StagePosition.hop, hsecond, reduceCtorEq, and_false, if_false, and_self, if_true]
        omega
      exact ⟨hprev, rfl, hchunk hprev rfl rfl hhop, hhop⟩
    · cases hpred

include hring in
/-- A stage that follows no other stage of its ring is its chunk's first hop. -/
theorem RingStage.root (h : RingStage key pos) (hroot : ringPredecessors key pos = none) :
    pos.hop key = 0 := by
  have hpos := h.begun
  unfold ringPredecessors at hroot
  simp only [hring, Bool.true_eq_false, if_false] at hroot
  split at hroot
  · cases hroot
  · split at hroot
    · cases hroot
    · next hone hsecond =>
      rw [StagePosition.hop, if_neg hsecond]
      omega

/-! ## §3. What is held after some hops. -/

/-- What the rank `t` positions after the owner holds of a chunk that has made `m` hops. -/
def content (key : CollectiveKey) (channel c m t : Nat) : Multiset Nat :=
  match key.algorithm with
  | .allGather => if t ≤ m then {(CollectiveLayout.of key).rankAt channel c} else 0
  | _ =>
    if key.flowCount + t ≤ m then contributions key channel c key.flowCount
    else if t ≤ m then contributions key channel c (t + 1)
    else {(CollectiveLayout.of key).rankAt channel ((c + t) % key.flowCount)}

theorem contributions_succ (channel c k : Nat) :
    contributions key channel c (k + 1) =
      {(CollectiveLayout.of key).rankAt channel ((c + k) % key.flowCount)} +
        contributions key channel c k := by
  rw [contributions, Multiset.range_succ, Multiset.map_cons]
  rfl

include hrings in
theorem rankAt_add_inj (channel c : Nat) {i j : Nat} (hi : i < key.flowCount) (hj : j < key.flowCount)
    (heq : (CollectiveLayout.of key).rankAt channel ((c + i) % key.flowCount) =
      (CollectiveLayout.of key).rankAt channel ((c + j) % key.flowCount)) : i = j := by
  have hn : 0 < key.flowCount := by omega
  have hpositions := congrArg ((CollectiveLayout.of key).position channel) heq
  rw [position_rankAt hrings _ (Nat.mod_lt _ hn), position_rankAt hrings _ (Nat.mod_lt _ hn)]
    at hpositions
  exact Lib.eq_of_add_mod_eq hi hj hpositions

include hrings in
/-- All positions of the ring are all ranks. -/
theorem contributions_all (channel : Nat) {c : Nat} (hc : c < key.flowCount) :
    contributions key channel c key.flowCount = Multiset.range key.flowCount := by
  refine (Multiset.Nodup.ext ?_ (nodup_range _)).2 fun r => ?_
  · refine (nodup_range _).map_on fun i hi j hj heq => ?_
    exact rankAt_add_inj hrings channel c (Multiset.mem_range.1 hi) (Multiset.mem_range.1 hj) heq
  · rw [contributions, Multiset.mem_map, Multiset.mem_range]
    constructor
    · rintro ⟨i, hi, rfl⟩
      exact rankAt_lt hrings _ (Nat.mod_lt _ (by omega))
    · intro hr
      obtain ⟨p, hp, rfl⟩ := exists_position hrings channel hr
      obtain ⟨i, hi, rfl⟩ := Lib.exists_add_mod_eq hc hp
      exact ⟨i, Multiset.mem_range.2 hi, rfl⟩

/-- Every chunk of every channel has made its first hops, as many as `made` says. -/
structure Travelled (key : CollectiveKey) (done : List StagePosition) (holding : Holding)
    (made : Nat → Nat → Nat) : Prop where
  hops : ∀ pos, RingStage key pos → (pos ∈ done ↔ pos.hop key < made pos.channel (pos.chunk key))
  holds : ∀ channel, ∀ c < key.flowCount, ∀ t < key.flowCount,
    holding channel ((CollectiveLayout.of key).rankAt channel ((c + t) % key.flowCount))
      ((CollectiveLayout.of key).rankAt channel c) = content key channel c (made channel c) t

include hring hrings in
theorem travelled_nil : Travelled key [] (initialHolding key) fun _ _ => 0 := by
  refine ⟨fun pos _ => by simp, fun channel c hc t ht => ?_⟩
  have hn : 0 < key.flowCount := by omega
  unfold initialHolding content
  by_cases hzero : t = 0
  · subst hzero
    cases halg : key.algorithm <;>
      simp [hn.ne', contributions, Nat.mod_eq_of_lt hc, CollectiveAlgorithm.isRing, halg] at hring ⊢
  · have hne : (CollectiveLayout.of key).rankAt channel ((c + t) % key.flowCount) ≠
        (CollectiveLayout.of key).rankAt channel c := by
      intro heq
      refine hzero (rankAt_add_inj hrings channel c ht hn ?_)
      rw [heq, Nat.add_zero, Nat.mod_eq_of_lt hc]
    cases halg : key.algorithm <;> simp [hne, hzero]

variable {done : List StagePosition} {holding : Holding} {made : Nat → Nat → Nat}

include hring hrings in
/-- The next stage of a chunk is its next hop. -/
theorem Travelled.next_hop (h : Travelled key done holding made) (hpos : RingStage key pos)
    (hnew : pos ∉ done)
    (hpred : ∀ own prev, ringPredecessors key pos = some (own, prev) → prev ∈ done) :
    pos.hop key = made pos.channel (pos.chunk key) := by
  have hge : ¬ pos.hop key < made pos.channel (pos.chunk key) := fun hlt => hnew ((h.hops pos hpos).2 hlt)
  cases hcase : ringPredecessors key pos with
  | none =>
    have hzero := hpos.root hring hcase
    omega
  | some preds =>
    obtain ⟨own, prev⟩ := preds
    obtain ⟨hprev, hchannel, hchunk, hhop⟩ := hpos.previous hring hrings hcase
    have hlt := (h.hops prev hprev).1 (hpred own prev hcase)
    rw [hchannel, hchunk] at hlt
    omega

include hring in
/-- A hop of a reduction comes before all hops of a gather. -/
theorem RingStage.hop_cases (hpos : RingStage key pos) :
    (pos.phase = .reduceScatter ∧ key.algorithm ≠ .allGather ∧ pos.hop key + 1 < key.flowCount ∧
        pos.hop key + 1 = pos.step) ∨
      (pos.phase = .allGather ∧ key.algorithm = .ringAllReduce ∧ key.flowCount ≤ pos.hop key + 1 ∧
        pos.hop key + 2 < 2 * key.flowCount) ∨
      (pos.phase = .allGather ∧ key.algorithm = .allGather ∧ pos.hop key + 1 < key.flowCount) := by
  have hbegun := hpos.begun
  have hstep := hpos.step
  have hphase := hpos.phase
  rcases Compile.hop_cases key pos with ⟨halg, hgather, hhop, -⟩ | ⟨hhop, -, hnot⟩
  · exact .inr (.inl ⟨hgather, halg, by omega, by omega⟩)
  · revert hring hphase hnot
    cases key.algorithm <;> cases pos.phase <;> simp [ringPhases, CollectiveAlgorithm.isRing] <;> omega

include hring hrings in
/-- What the sender holds is what it must send. -/
theorem content_hop (hpos : RingStage key pos) :
    content key pos.channel (pos.chunk key) (pos.hop key) (pos.hop key % key.flowCount) =
      required key pos := by
  have hc := hpos.chunk_lt
  have hall := contributions_all hrings pos.channel hc
  rcases hpos.hop_cases hring with ⟨hphase, halg, hlt, hstep⟩ | ⟨hphase, halg, hge, hlt⟩ |
    ⟨hphase, halg, hlt⟩
  · have hmod : pos.hop key % key.flowCount = pos.hop key := Nat.mod_eq_of_lt (by omega)
    rw [hmod, required, hphase, content]
    cases hcase : key.algorithm <;> simp_all [CollectiveAlgorithm.isRing] <;> omega
  · rw [required, hphase, halg, content, halg]
    dsimp only
    by_cases hfull : key.flowCount ≤ pos.hop key
    · have hmod : pos.hop key % key.flowCount = pos.hop key - key.flowCount := by
        rw [Nat.mod_eq_sub_mod hfull, Nat.mod_eq_of_lt (by omega)]
      rw [if_pos (by omega), hall]
    · have hmod : pos.hop key % key.flowCount = pos.hop key := Nat.mod_eq_of_lt (by omega)
      rw [if_neg (by omega), if_pos (by omega), hmod,
        show pos.hop key + 1 = key.flowCount by omega, hall]
  · have hmod : pos.hop key % key.flowCount = pos.hop key := Nat.mod_eq_of_lt (by omega)
    rw [hmod, required, hphase, content, halg]
    simp [StagePosition.owner_eq]

/-- A hop changes only what its target holds. -/
theorem content_stable (pos : StagePosition) {t : Nat}
    (ht : t < key.flowCount) (hne : t ≠ (pos.hop key + 1) % key.flowCount) :
    content key pos.channel (pos.chunk key) (pos.hop key + 1) t =
      content key pos.channel (pos.chunk key) (pos.hop key) t := by
  have hfirst : t ≠ pos.hop key + 1 := by
    rintro rfl
    exact hne (Nat.mod_eq_of_lt ht).symm
  have hsecond : key.flowCount + t ≠ pos.hop key + 1 := by
    intro heq
    exact hne (by rw [← heq, Nat.add_mod_left, Nat.mod_eq_of_lt ht])
  have hle : t ≤ pos.hop key + 1 ↔ t ≤ pos.hop key := by omega
  have hle' : key.flowCount + t ≤ pos.hop key + 1 ↔ key.flowCount + t ≤ pos.hop key := by omega
  unfold content
  simp only [hle, hle']

include hring hrings in
/-- What the target holds after a hop. -/
theorem content_target (hpos : RingStage key pos) :
    content key pos.channel (pos.chunk key) (pos.hop key + 1) ((pos.hop key + 1) % key.flowCount) =
      match pos.phase with
      | .reduceScatter => content key pos.channel (pos.chunk key) (pos.hop key)
          ((pos.hop key + 1) % key.flowCount) + required key pos
      | _ => required key pos := by
  have hc := hpos.chunk_lt
  have hall := contributions_all hrings pos.channel hc
  rcases hpos.hop_cases hring with ⟨hphase, halg, hlt, hstep⟩ | ⟨hphase, halg, hge, hlt⟩ |
    ⟨hphase, halg, hlt⟩
  · have hmod : (pos.hop key + 1) % key.flowCount = pos.hop key + 1 := Nat.mod_eq_of_lt hlt
    have hrequired : required key pos = contributions key pos.channel (pos.chunk key) (pos.hop key + 1) := by
      rw [hstep, required, hphase]
      cases key.algorithm <;> rfl
    rw [hphase, hmod, hrequired]
    dsimp only
    unfold content
    split
    · next hgather => exact absurd hgather halg
    · rw [if_neg (by omega), if_pos (by omega), if_neg (by omega), if_neg (by omega),
        contributions_succ]
  · have hmod : (pos.hop key + 1) % key.flowCount = pos.hop key + 1 - key.flowCount := by
      rw [Nat.mod_eq_sub_mod hge, Nat.mod_eq_of_lt (by omega)]
    rw [hphase, required, hphase, halg, content, halg]
    dsimp only
    rw [if_pos (by omega), hall]
  · have hmod : (pos.hop key + 1) % key.flowCount = pos.hop key + 1 := Nat.mod_eq_of_lt hlt
    rw [hphase, hmod, required, hphase, halg, content, halg]
    simp [StagePosition.owner_eq]

include hring hrings in
/-- One stage: the sender holds what it must send, and its chunk has made one more hop. -/
theorem Travelled.step (h : Travelled key done holding made) (hpos : RingStage key pos)
    (hnew : pos ∉ done)
    (hpred : ∀ own prev, ringPredecessors key pos = some (own, prev) → prev ∈ done) :
    holding pos.channel pos.rank (pos.owner key) = required key pos ∧
      Travelled key (pos :: done) (deliver key holding pos) fun channel c =>
        if channel = pos.channel ∧ c = pos.chunk key then made channel c + 1 else made channel c := by
  have hn := hpos.count_pos
  have hc := hpos.chunk_lt
  have hhop := h.next_hop hring hrings hpos hnew hpred
  have hsent : holding pos.channel pos.rank (pos.owner key) = required key pos := by
    have hholds := h.holds pos.channel _ hc (pos.hop key % key.flowCount) (Nat.mod_lt _ hn)
    rw [Nat.add_mod_mod, ← hpos.rank_eq hrings, ← hhop, content_hop hring hrings hpos] at hholds
    exact hholds
  have hrankInj {channel a b : Nat} (ha : a < key.flowCount) (hb : b < key.flowCount)
      (heq : (CollectiveLayout.of key).rankAt channel a = (CollectiveLayout.of key).rankAt channel b) :
      a = b := by
    have hpositions := congrArg ((CollectiveLayout.of key).position channel) heq
    rwa [position_rankAt hrings _ ha, position_rankAt hrings _ hb] at hpositions
  refine ⟨hsent, fun other hother => ?_, fun channel c hclt t ht => ?_⟩
  · rw [List.mem_cons, h.hops other hother]
    split
    · next hsame =>
      rw [hsame.1, hsame.2, ← hhop]
      constructor
      · rintro (rfl | hlt)
        · omega
        · omega
      · intro hlt
        rcases Nat.lt_succ_iff_lt_or_eq.1 hlt with hlt | heq
        · exact .inr hlt
        · exact .inl (hother.ext hrings hpos hsame.1 hsame.2 heq)
    · next hdiff =>
      refine or_iff_right ?_
      rintro rfl
      exact hdiff ⟨rfl, rfl⟩
  · have hholds := h.holds channel c hclt t ht
    unfold deliver
    rw [hsent, hpos.target_eq hring hrings, StagePosition.owner_eq]
    by_cases hsame : channel = pos.channel ∧ c = pos.chunk key
    · obtain ⟨rfl, rfl⟩ := hsame
      rw [← hhop] at hholds
      rw [if_pos (⟨rfl, rfl⟩ : pos.channel = pos.channel ∧ pos.chunk key = pos.chunk key), ← hhop]
      by_cases htarget : t = (pos.hop key + 1) % key.flowCount
      · rw [htarget] at hholds ⊢
        rw [Nat.add_mod_mod] at hholds ⊢
        rw [if_pos ⟨rfl, rfl, rfl⟩, content_target hring hrings hpos, hholds]
      · rw [if_neg, hholds, content_stable pos ht htarget]
        rintro ⟨-, heq, -⟩
        have hposition := hrankInj (Nat.mod_lt _ hn) (Nat.mod_lt _ hn) heq
        rw [← Nat.add_mod_mod _ (pos.hop key + 1)] at hposition
        exact htarget (Lib.eq_of_add_mod_eq ht (Nat.mod_lt _ hn) hposition)
    · rw [if_neg hsame, if_neg, hholds]
      rintro ⟨rfl, -, heq⟩
      exact hsame ⟨rfl, hrankInj hclt hc heq⟩

end Ring

/-! ## §4. Every order of the stages. -/

omit [SeededMatrix] in
theorem expandEach_ok {stage : α → Option (Except CompileError StageInput)}
    {inputs : List StageInput} (h : expandEach stage l = some (.ok inputs)) :
    Forall₂ (fun a input => stage a = some (.ok input)) l inputs := by
  induction l generalizing inputs with
  | nil =>
    cases h
    exact .nil
  | cons a rest ih =>
    unfold expandEach at h
    split at h
    · next input hinput =>
      split at h
      · next others hothers =>
        cases h
        exact .cons hinput (ih hothers)
      · next hother => exact absurd h (hother inputs)
    · cases h
    · cases h

omit [SeededMatrix] in
/-- Every expanded stage comes from one of the list. -/
theorem expandEach_mem {stage : α → Option (Except CompileError StageInput)}
    {inputs : List StageInput} (h : expandEach stage l = some (.ok inputs))
    (hinput : input ∈ inputs) : ∃ a ∈ l, stage a = some (.ok input) := by
  have hall := expandEach_ok h
  clear h
  induction hall with
  | nil => cases hinput
  | cons hstage _ ih =>
    rcases mem_cons.1 hinput with rfl | hinput
    · exact ⟨_, mem_cons_self, hstage⟩
    · obtain ⟨a, hmem, ha⟩ := ih hinput
      exact ⟨a, mem_cons_of_mem _ hmem, ha⟩

/-- What one stage of a collective is. -/
theorem collectiveStage_ok {plan : StagePlan} {fuel : Nat} {collective duplicate : Nat}
    (h : collectiveStage plan fuel key collective duplicate pos = some (.ok input)) :
    input.key = .collectiveStage collective duplicate pos ∧
      input.source = key.sources.getD pos.rank 0 ∧
      input.target = key.sources.getD (stageTarget key pos) 0 ∧
      (input.chunkOffsetBytes, input.chunkBytes) = stageChunk key pos ∧
      match ringPredecessors key pos with
      | some (own, prev) => input.predecessors =
          ⟨[.collectiveStage collective duplicate own], [.collectiveStage collective duplicate prev],
            (stageChunk key pos).2⟩
      | none => entryPredecessors plan fuel key.sources key.after pos.rank input.source =
          some (.ok input.predecessors) := by
  unfold collectiveStage at h
  cases hpred : ringPredecessors key pos with
  | some pair =>
    simp only [hpred] at h
    cases h
    exact ⟨rfl, rfl, rfl, rfl, rfl⟩
  | none =>
    simp only [hpred] at h
    split at h
    · next hentry =>
      cases h
      exact ⟨rfl, rfl, rfl, rfl, hentry⟩
    · cases h
    · cases h

omit [SeededMatrix] in
/-- Lists that name their index are disjoint for different indices. -/
theorem nodup_flatMap_of_field {β : Type} {f : α → List β} (g : β → α)
    (hl : l.Nodup) (hf : ∀ a ∈ l, (f a).Nodup) (hg : ∀ a ∈ l, ∀ b ∈ f a, g b = a) :
    (l.flatMap f).Nodup := by
  refine nodup_flatMap.2 ⟨hf, hl.imp_of_mem fun {a b} ha hb hne x hxa hxb => ?_⟩
  exact hne ((hg a ha x hxa).symm.trans (hg b hb x hxb))

theorem stagePositions_nodup (hring : key.algorithm.isRing = true) :
    (stagePositions key).Nodup := by
  have hphases : (ringPhases key.algorithm).Nodup := by
    cases key.algorithm <;> decide
  rw [stagePositions_ring hring]
  refine nodup_flatMap_of_field StagePosition.phase hphases (fun phase _ => ?_) fun a _ b hb => ?_
  · refine nodup_flatMap_of_field StagePosition.channel List.nodup_range (fun channel _ => ?_)
      fun a _ b hb => ?_
    · refine nodup_flatMap_of_field StagePosition.rank List.nodup_range (fun rank _ => ?_)
        fun a _ b hb => ?_
      · exact List.Nodup.map (fun a b heq => (StagePosition.mk.inj heq).2.2.2) List.nodup_range'
      · obtain ⟨_, -, rfl⟩ := List.mem_map.1 hb
        rfl
    · simp only [List.mem_flatMap, List.mem_map] at hb
      obtain ⟨_, -, _, -, rfl⟩ := hb
      rfl
  · simp only [List.mem_flatMap, List.mem_map] at hb
    obtain ⟨_, -, _, -, _, -, rfl⟩ := hb
    rfl

/-- The stages of an expanded ring. -/
structure RingStages (key : CollectiveKey) (collective duplicate : Nat) (stages : List StageInput) :
    Prop where
  keys : stages.map (·.key) = (stagePositions key).map (.collectiveStage collective duplicate)
  ends : ∀ input ∈ stages, ∀ pos, input.key = .collectiveStage collective duplicate pos →
    input.source = key.sources.getD pos.rank 0 ∧
      input.target = key.sources.getD (stageTarget key pos) 0
  stage : ∀ input ∈ stages, ∀ pos, input.key = .collectiveStage collective duplicate pos →
    (input.chunkOffsetBytes, input.chunkBytes) = stageChunk key pos ∧
    ∀ own prev, ringPredecessors key pos = some (own, prev) → input.predecessors =
      ⟨[.collectiveStage collective duplicate own], [.collectiveStage collective duplicate prev],
        (stageChunk key pos).2⟩

theorem ringStages_of_expand {plan : StagePlan} {fuel : Nat}
    {collective duplicate : Nat} {stages : List StageInput} (hring : key.algorithm.isRing = true)
    (hcount : 2 ≤ key.flowCount) (hbytes : key.totalBytes ≠ 0)
    (h : expandCollective plan fuel key collective duplicate = some (.ok stages)) :
    RingStages key collective duplicate stages := by
  have halg : key.algorithm ≠ .allToAll := by
    rintro heq
    simp [heq, CollectiveAlgorithm.isRing] at hring
  have hstages : collectiveHasStages key = true := by
    simp only [collectiveHasStages, decide_eq_true_eq]
    omega
  simp only [expandCollective, hstages, hbytes, halg, Bool.true_eq_false, or_self, if_false,
    checkEntries] at h
  refine ⟨?_, fun input hinput pos hkey => ?_, fun input hinput pos hkey => ?_⟩
  · have hall := expandEach_ok h
    clear h
    generalize stagePositions key = positions at hall
    induction hall with
    | nil => rfl
    | cons hstage _ ih => rw [List.map_cons, List.map_cons, (collectiveStage_ok hstage).1, ih]
  · obtain ⟨other, -, hstage⟩ := expandEach_mem h hinput
    obtain ⟨hkey', hsource, htarget, -⟩ := collectiveStage_ok hstage
    obtain rfl : other = pos := by simpa using hkey'.symm.trans hkey
    exact ⟨hsource, htarget⟩
  · obtain ⟨other, -, hstage⟩ := expandEach_mem h hinput
    obtain ⟨hkey', -, -, hchunk, hpreds⟩ := collectiveStage_ok hstage
    obtain rfl : other = pos := by simpa using hkey'.symm.trans hkey
    refine ⟨hchunk, fun own prev hpred => ?_⟩
    rw [hpred] at hpreds
    exact hpreds

namespace RingStages

variable {key : CollectiveKey} {collective duplicate : Nat} {stages : List StageInput}

section

variable (h : RingStages key collective duplicate stages)

include h

theorem positions : stages.filterMap StageInput.position? = stagePositions key := by
  have hfilter : stages.filterMap StageInput.position? =
      (stages.map (·.key)).filterMap fun k => match k with
        | .collectiveStage _ _ pos => some pos
        | .computeStage _ _ => none := by
    rw [List.filterMap_map]
    rfl
  rw [hfilter, h.keys, List.filterMap_map]
  exact List.filterMap_some

theorem exists_position (hinput : input ∈ stages) :
    ∃ pos ∈ stagePositions key, input.key = .collectiveStage collective duplicate pos := by
  have hmem : input.key ∈ stages.map (·.key) := mem_map_of_mem hinput
  rw [h.keys] at hmem
  obtain ⟨pos, hpos, hkey⟩ := mem_map.1 hmem
  exact ⟨pos, hpos, hkey.symm⟩

theorem exists_stage (hpos : pos ∈ stagePositions key) :
    ∃ input ∈ stages, input.key = .collectiveStage collective duplicate pos := by
  have hmem := mem_map_of_mem (f := StageKey.collectiveStage collective duplicate) hpos
  rw [← h.keys] at hmem
  exact mem_map.1 hmem

/-- Every prefix of an order that respects the predecessors leaves every chunk some hops on its
    way, and the next stage sends what it must. -/
theorem travelled
    (hring : key.algorithm.isRing = true) (hrings : RingOk key) {order : List StageInput}
    (hperm : order.Perm stages) (hrespects : RespectsPredecessors stages order)
    (before : List StageInput) :
    ∀ later, order = before ++ later →
      ∃ made, Travelled key (before.filterMap StageInput.position?) (runStages key before) made ∧
        ∀ stage rest pos, later = stage :: rest →
          stage.key = .collectiveStage collective duplicate pos →
          runStages key before pos.channel pos.rank (pos.owner key) = required key pos := by
  have hnodup : (order.filterMap StageInput.position?).Nodup := by
    rw [(hperm.filterMap _).nodup_iff, h.positions]
    exact stagePositions_nodup hring
  -- One more stage after a prefix.
  have hnext {before : List StageInput} {made : Nat → Nat → Nat} {stage : StageInput}
      {rest : List StageInput} {pos : StagePosition} (hsplit : order = before ++ stage :: rest)
      (hkey : stage.key = .collectiveStage collective duplicate pos)
      (htravelled : Travelled key (before.filterMap StageInput.position?) (runStages key before) made) :
      runStages key before pos.channel pos.rank (pos.owner key) = required key pos ∧
        ∃ made', Travelled key (pos :: before.filterMap StageInput.position?)
          (deliver key (runStages key before) pos) made' := by
    have hstage : stage ∈ stages := hperm.mem_iff.1 (by rw [hsplit]; simp)
    have hposition : stage.position? = some pos := by rw [StageInput.position?, hkey]
    have hringpos : RingStage key pos := by
      obtain ⟨other, hother, hkey'⟩ := h.exists_position hstage
      obtain rfl : pos = other := by simpa using hkey.symm.trans hkey'
      exact (mem_stagePositions hring).1 hother
    have hnew : pos ∉ before.filterMap StageInput.position? := by
      rw [hsplit, filterMap_append, filterMap_cons_some hposition] at hnodup
      have hapart := (nodup_append.1 hnodup).2.2
      exact fun hmem => hapart pos hmem pos mem_cons_self rfl
    obtain ⟨hsent, htravelled'⟩ := htravelled.step hring hrings hringpos hnew fun own prev hpred => by
      obtain ⟨hprev, -⟩ := hringpos.previous hring hrings hpred
      obtain ⟨other, hother, hotherkey⟩ := h.exists_stage ((mem_stagePositions hring).2 hprev)
      have hpreds := (h.stage stage hstage pos hkey).2 own prev hpred
      have hin := hrespects before stage rest hsplit _ (by rw [hpreds]; simp) other hother hotherkey
      exact mem_filterMap.2 ⟨other, hin, by rw [StageInput.position?, hotherkey]⟩
    exact ⟨hsent, _, htravelled'⟩
  induction before using reverseRecOn with
  | nil =>
    intro later hsplit
    have hstart : Travelled key (([] : List StageInput).filterMap StageInput.position?)
        (runStages key []) fun _ _ => 0 := travelled_nil hring hrings
    refine ⟨_, hstart, fun stage rest pos hlater hkey => ?_⟩
    exact (hnext (by rw [hsplit, hlater]) hkey hstart).1
  | append_singleton before stage ih =>
    intro later hsplit
    rw [append_assoc, singleton_append] at hsplit
    obtain ⟨made, htravelled, -⟩ := ih _ hsplit
    have hstage : stage ∈ stages := hperm.mem_iff.1 (by rw [hsplit]; simp)
    obtain ⟨pos, -, hkey⟩ := h.exists_position hstage
    have hposition : stage.position? = some pos := by rw [StageInput.position?, hkey]
    obtain ⟨-, made', htravelled'⟩ := hnext hsplit hkey htravelled
    have hrun : runStages key (before ++ [stage]) = deliver key (runStages key before) pos := by
      unfold runStages
      rw [filterMap_append, filterMap_cons_some hposition, foldl_append]
      rfl
    have htravelled'' : Travelled key ((before ++ [stage]).filterMap StageInput.position?)
        (runStages key (before ++ [stage])) made' := by
      rw [hrun, filterMap_append, filterMap_cons_some hposition]
      refine ⟨fun other hother => ?_, htravelled'.holds⟩
      rw [← htravelled'.hops other hother]
      simp [or_comm]
    refine ⟨made', htravelled'', fun stage' rest pos' hlater hkey' => ?_⟩
    exact (hnext (by rw [hsplit, hlater, append_assoc, singleton_append]) hkey'
      htravelled'').1

/-- When all stages have run, every chunk has made all its hops. -/
theorem hops_made
    (hring : key.algorithm.isRing = true) (hrings : RingOk key) (hcount : 2 ≤ key.flowCount)
    {order : List StageInput} (hperm : order.Perm stages) {made : Nat → Nat → Nat}
    (htravelled : Travelled key (order.filterMap StageInput.position?) (runStages key order) made)
    {channel c : Nat} (hchannel : channel < (CollectiveLayout.of key).channels)
    (hc : c < key.flowCount) :
    (if key.algorithm = .ringAllReduce then 2 * key.flowCount - 2 else key.flowCount - 1) ≤
      made channel c := by
  set phase := (ringPhases key.algorithm).getLastD .allGather with hphase
  -- The last hop of the chunk.
  have hlast : phase ∈ ringPhases key.algorithm := by
    rw [hphase]
    cases key.algorithm <;> decide
  obtain ⟨hop, hhop⟩ : ∃ hop, hop = (if key.algorithm = .ringAllReduce then 2 * key.flowCount - 3
      else key.flowCount - 2) := ⟨_, rfl⟩
  let pos : StagePosition := ⟨phase, channel,
    (CollectiveLayout.of key).rankAt channel ((c + hop) % key.flowCount), key.flowCount - 1⟩
  have hn : 0 < key.flowCount := by omega
  have hpos : RingStage key pos :=
    ⟨hlast, hchannel, rankAt_lt hrings _ (Nat.mod_lt _ hn), by dsimp only [pos]; omega,
      by dsimp only [pos]; omega⟩
  have hposhop : pos.hop key = hop := by
    rw [hhop]
    unfold StagePosition.hop
    simp only [pos, hphase]
    cases halg : key.algorithm <;> simp [ringPhases] <;> omega
  have hchunk : pos.chunk key = c := by
    refine eq_of_add_mod (h := hop) hpos.chunk_lt hc ?_
    rw [← hposhop, hpos.position_eq hrings, hposhop]
    exact position_rankAt hrings _ (Nat.mod_lt _ hn)
  have hmem : pos ∈ order.filterMap StageInput.position? := by
    rw [(hperm.filterMap _).mem_iff, h.positions]
    exact (mem_stagePositions hring).2 hpos
  have hlt := (htravelled.hops pos hpos).1 hmem
  rw [hposhop, hchunk, hhop] at hlt
  have hchannel' : pos.channel = channel := rfl
  rw [hchannel'] at hlt
  by_cases halg : key.algorithm = .ringAllReduce
  · rw [if_pos halg] at hlt ⊢
    omega
  · rw [if_neg halg] at hlt ⊢
    omega

end

end RingStages

/-- The inbound predecessor of a ring stage carries the chunk that the stage forwards. -/
theorem ringChunk_previous (hring : key.algorithm.isRing = true)
    (hrings : RingOk key) {own prev : StagePosition} (hpos : RingStage key pos)
    (hpred : ringPredecessors key pos = some (own, prev)) :
    stageChunk key prev = stageChunk key pos := by
  obtain ⟨-, hchannel, hchunk, -⟩ := hpos.previous hring hrings hpred
  have howner : prev.owner key = pos.owner key := by
    rw [StagePosition.owner_eq, StagePosition.owner_eq, hchannel, hchunk]
  have hring' (other : StagePosition) : stageChunk key other =
      ringChunk key other.phase other.channel other.rank other.step := by
    unfold stageChunk
    cases halg : key.algorithm <;> simp_all [CollectiveAlgorithm.isRing]
  rw [hring', hring']
  unfold ringChunk
  unfold StagePosition.owner at howner
  rw [howner, hchannel]

/-- The chunk of a stage is its owner's. -/
theorem stageChunk_of_owner (hring : key.algorithm.isRing = true) (pos : StagePosition) :
    stageChunk key pos = ownerChunk key pos.channel (pos.owner key) := by
  have hstage : stageChunk key pos = ringChunk key pos.phase pos.channel pos.rank pos.step := by
    unfold stageChunk
    cases halg : key.algorithm <;> simp_all [CollectiveAlgorithm.isRing]
  rw [hstage]
  unfold ringChunk StagePosition.owner ownerChunk uniformChunk
  cases key.chunk <;> rfl

/-- Ring collectives move the right data.  In any order of an accepted ring collective's stages that
    respects their predecessors, every stage sends a chunk that its rank holds in the required
    state; at the end every chunk is complete where the algorithm promises it; the inbound
    predecessor of a stage carries exactly the chunk the stage forwards; and a stage goes from the
    host of its rank to the host of the next rank of the ring with the bytes of the chunk's owner. -/
theorem ring_collective_moves_chunks {plan : StagePlan} {fuel : Nat} {hosts : List Nat}
    {key : CollectiveKey} {collective duplicate : Nat} {stages order : List StageInput}
    (haccepted : Accepted hosts key) (hring : key.algorithm.isRing = true)
    (hcount : 2 ≤ key.flowCount)
    (hexpand : expandCollective plan fuel key collective duplicate = some (.ok stages))
    (hperm : order.Perm stages) (hrespects : RespectsPredecessors stages order) :
    (∀ before stage later pos, order = before ++ stage :: later →
      stage.key = .collectiveStage collective duplicate pos →
      runStages key before pos.channel pos.rank (pos.owner key) = required key pos) ∧
    (∀ channel < (CollectiveLayout.of key).channels,
      match key.algorithm with
      | .ringAllReduce => ∀ rank < key.flowCount, ∀ owner < key.flowCount,
          runStages key order channel rank owner = Multiset.range key.flowCount
      | .allGather => ∀ rank < key.flowCount, ∀ owner < key.flowCount,
          runStages key order channel rank owner = {owner}
      | _ => ∀ p < key.flowCount,
          runStages key order channel ((CollectiveLayout.of key).rankAt channel p)
            ((CollectiveLayout.of key).rankAt channel ((p + 1) % key.flowCount)) =
            Multiset.range key.flowCount) ∧
    (∀ stage ∈ stages, ∀ pos own prev, stage.key = .collectiveStage collective duplicate pos →
      ringPredecessors key pos = some (own, prev) →
      stage.predecessors.inbound = [.collectiveStage collective duplicate prev] ∧
      ∃ other ∈ stages, other.key = .collectiveStage collective duplicate prev ∧
        other.chunkOffsetBytes = stage.chunkOffsetBytes ∧ other.chunkBytes = stage.chunkBytes) ∧
    ∀ stage ∈ stages, ∃ pos, stage.key = .collectiveStage collective duplicate pos ∧
      key.sources[pos.rank]? = some stage.source ∧
      key.sources[(CollectiveLayout.of key).rankAt pos.channel
        (((CollectiveLayout.of key).position pos.channel pos.rank + 1) % key.flowCount)]? =
          some stage.target ∧
      (stage.chunkOffsetBytes, stage.chunkBytes) = ownerChunk key pos.channel (pos.owner key) := by
  have hok := haccepted.ok
  have hrings := hok.rings
  have hbytes : key.totalBytes ≠ 0 := by
    have := hok.bytes
    omega
  have hstages := ringStages_of_expand hring hcount hbytes hexpand
  refine ⟨fun before stage later pos hsplit hkey => ?_, fun channel hchannel => ?_,
    fun stage hstage pos own prev hkey hpred => ?_, fun stage hstage => ?_⟩
  · obtain ⟨-, -, hsent⟩ := hstages.travelled hring hrings hperm hrespects before _ hsplit
    exact hsent stage later pos rfl hkey
  · obtain ⟨made, htravelled, -⟩ :=
      hstages.travelled hring hrings hperm hrespects order [] (by simp)
    have hmade (c : Nat) (hc : c < key.flowCount) :=
      hstages.hops_made hring hrings hcount hperm htravelled hchannel hc
    -- Every pair of ranks is some chunk and the rank some positions after its owner.
    have hholds (rank owner : Nat) (hrank : rank < key.flowCount) (howner : owner < key.flowCount) :
        ∃ c < key.flowCount, ∃ t < key.flowCount,
          (CollectiveLayout.of key).rankAt channel c = owner ∧
          runStages key order channel rank owner = content key channel c (made channel c) t := by
      obtain ⟨c, hc, rfl⟩ := exists_position hrings channel howner
      obtain ⟨p, hp, rfl⟩ := exists_position hrings channel hrank
      obtain ⟨t, ht, rfl⟩ := Lib.exists_add_mod_eq hc hp
      exact ⟨c, hc, t, ht, rfl, htravelled.holds channel c hc t ht⟩
    cases halg : key.algorithm with
    | ringAllReduce =>
      intro rank hrank owner howner
      obtain ⟨c, hc, t, ht, -, heq⟩ := hholds rank owner hrank howner
      have hmade := hmade c hc
      rw [halg, if_pos rfl] at hmade
      have hall := contributions_all hrings channel hc
      rw [heq, content, halg]
      dsimp only
      split
      · exact hall
      · next hnot =>
        rw [if_pos (by omega), show t + 1 = key.flowCount by omega, hall]
    | allGather =>
      intro rank hrank owner howner
      obtain ⟨c, hc, t, ht, hc', heq⟩ := hholds rank owner hrank howner
      have hmade := hmade c hc
      rw [halg, if_neg (by simp)] at hmade
      rw [heq, content, halg]
      rw [if_pos (by omega), hc']
    | reduceScatter =>
      intro p hp
      have hn : 0 < key.flowCount := by omega
      have hc : (p + 1) % key.flowCount < key.flowCount := Nat.mod_lt _ hn
      have hmade := hmade _ hc
      rw [halg, if_neg (by simp)] at hmade
      have hholds := htravelled.holds channel _ hc (key.flowCount - 1) (by omega)
      rw [Nat.mod_add_mod, show p + 1 + (key.flowCount - 1) = p + key.flowCount by omega,
        Nat.add_mod_right, Nat.mod_eq_of_lt hp] at hholds
      have hall := contributions_all hrings channel hc
      rw [hholds, content, halg]
      dsimp only
      split
      · exact hall
      · rw [show key.flowCount - 1 + 1 = key.flowCount by omega, hall]
    | allToAll | sendRecv => simp [halg, CollectiveAlgorithm.isRing] at hring
  · obtain ⟨hchunk, hpreds⟩ := hstages.stage stage hstage pos hkey
    have hposmem : pos ∈ stagePositions key := by
      obtain ⟨other, hother, hkey'⟩ := hstages.exists_position hstage
      obtain rfl : pos = other := by simpa using hkey.symm.trans hkey'
      exact hother
    have hpos := (mem_stagePositions hring).1 hposmem
    obtain ⟨hprev, -⟩ := hpos.previous hring hrings hpred
    obtain ⟨other, hother, hotherkey⟩ := hstages.exists_stage ((mem_stagePositions hring).2 hprev)
    obtain ⟨hotherchunk, -⟩ := hstages.stage other hother prev hotherkey
    have hsame := hotherchunk.trans ((ringChunk_previous hring hrings hpos hpred).trans hchunk.symm)
    refine ⟨by rw [hpreds own prev hpred], other, hother, hotherkey, ?_, ?_⟩
    · exact congrArg Prod.fst hsame
    · exact congrArg Prod.snd hsame
  · obtain ⟨pos, hposmem, hkey⟩ := hstages.exists_position hstage
    obtain ⟨hsource, htarget⟩ := hstages.ends stage hstage pos hkey
    have hpos := (mem_stagePositions hring).1 hposmem
    have hnext := Nat.mod_lt ((CollectiveLayout.of key).position pos.channel pos.rank + 1) hpos.count_pos
    have hhost (rank : Nat) (hrank : rank < key.flowCount) :
        key.sources[rank]? = some (key.sources.getD rank 0) := by
      have hlt : rank < key.sources.length := by rwa [hok.sources]
      rw [getD_eq_getElem _ _ hlt, getElem?_eq_getElem hlt]
    rw [stageTarget_of_ring hring] at htarget
    refine ⟨pos, hkey, ?_, ?_, ?_⟩
    · rw [hsource, hhost _ hpos.rank]
    · rw [htarget, hhost _ (rankAt_lt hrings _ hnext)]
      rfl
    · rw [(hstages.stage stage hstage pos hkey).1, stageChunk_of_owner hring]

/-- A ring all-reduce of ten bytes over two hosts. -/
def pairSource : SourceCollective where
  issueOrdinal := none
  algorithm := .ringAllReduce
  transport := "TCP"
  flowCount := 2
  sources := [4, 7]
  sinks := [7, 4]
  totalBytes := 10
  name := none
  after := []
  channels := none
  chunk := none
  alltoall := none

def pairKey : CollectiveKey := pairSource.key .equalRemainderLast []

def emptyPlan : StagePlan := ⟨[], fun _ => 0, fun _ => 0⟩

/-- The four stages of the pair: each rank sends its part, then the reduced one. -/
def pairStages : List StageInput :=
  let key (phase : CollectivePhase) (rank : Nat) : StageKey :=
    .collectiveStage 0 0 ⟨phase, 0, rank, 1⟩
  [⟨key .reduceScatter 0, 4, 7, 0, 5, .none⟩, ⟨key .reduceScatter 1, 7, 4, 5, 5, .none⟩,
    ⟨key .allGather 0, 4, 7, 5, 5, ⟨[key .reduceScatter 0], [key .reduceScatter 1], 5⟩⟩,
    ⟨key .allGather 1, 7, 4, 0, 5, ⟨[key .reduceScatter 1], [key .reduceScatter 0], 5⟩⟩]

omit [SeededMatrix] in
/-- It is enough to look at what stands before each place. -/
theorem respects_of_take {stages order : List StageInput} (h : ∀ i : Fin order.length,
    ∀ k ∈ (order.get i).predecessors.localKeys ++ (order.get i).predecessors.inbound,
      ∀ other ∈ stages, other.key = k → other ∈ order.take i) : RespectsPredecessors stages order := by
  rintro before stage later rfl
  simpa using h ⟨before.length, by simp⟩

omit [SeededMatrix] in
theorem ring_collective_moves_chunks_pair :
    Accepted [4, 7] pairKey ∧ ∀ rank < 2, ∀ owner < 2,
      @runStages drawnMatrix pairKey pairStages 0 rank owner = Multiset.range 2 := by
  have haccepted : Accepted [4, 7] pairKey := ⟨pairSource, pairKey, rfl, rfl⟩
  refine ⟨haccepted, ?_⟩
  have hexpand : @expandCollective drawnMatrix emptyPlan 1 pairKey 0 0 = some (.ok pairStages) := rfl
  have hrespects : RespectsPredecessors pairStages pairStages := respects_of_take (by decide)
  exact (@ring_collective_moves_chunks drawnMatrix emptyPlan 1 [4, 7] pairKey 0 0 pairStages pairStages
    haccepted rfl (by decide) hexpand (.refl _) hrespects).2.1 0 (by decide)

end Days.Compile
