/-
  Days.Logic.ChunkTiling — the chunks of a ring collective tile its buffer.

  Under `EqualRemainderLast` the owners' chunks follow one another and the last
  takes the remainder; under `UniformFloor` the chunks of all owners and channels
  are equal and leave the tail of the buffer.  In every step of a phase the ranks of
  a channel send each owner's chunk once.
-/
import Days.Lib.Digits
import Mathlib.Order.Interval.Finset.Nat
import Days.Logic.RingData

namespace Days.Compile

open List

/-! ## §1. Chunks of a buffer. -/

def chunkEnd (chunk : Nat × Nat) : Nat := chunk.1 + chunk.2

/-- The byte is in the chunk. -/
def Covers (chunk : Nat × Nat) (x : Nat) : Prop :=
  chunk.1 ≤ x ∧ x < chunkEnd chunk

instance (chunk : Nat × Nat) (x : Nat) : Decidable (Covers chunk x) :=
  inferInstanceAs (Decidable (_ ∧ _))

section Arithmetic

variable {total n c owner channel : Nat}

/-- Each chunk ends where the next one starts, the last at the end of the buffer. -/
theorem chunkBounds_end (howner : owner < n) :
    chunkEnd (collectiveChunkBounds total n owner) =
      if owner + 1 = n then total else (owner + 1) * (total / n) := by
  have hle : owner * (total / n) ≤ total :=
    (Nat.mul_le_mul_right _ howner.le).trans (Nat.mul_div_le total n)
  unfold chunkEnd collectiveChunkBounds
  split
  · exact Nat.add_sub_cancel' hle
  · exact (Nat.succ_mul _ _).symm

theorem chunkBounds_in_order (total : Nat) {a b : Nat} (hab : a < b) (hb : b < n) :
    chunkEnd (collectiveChunkBounds total n a) ≤ (collectiveChunkBounds total n b).1 := by
  rw [chunkBounds_end (hab.trans hb), if_neg (by omega)]
  exact Nat.mul_le_mul_right _ hab

theorem chunkBounds_inside (howner : owner < n) :
    chunkEnd (collectiveChunkBounds total n owner) ≤ total := by
  rw [chunkBounds_end howner]
  split
  · exact Nat.le_refl _
  · exact (Nat.mul_le_mul_right _ howner).trans (Nat.mul_div_le total n)

/-- The byte `x` belongs to owner `x / base`, or to the last one. -/
theorem chunkBounds_cover (hn : 0 < n) {x : Nat} (hx : x < total) :
    ∃ owner < n, Covers (collectiveChunkBounds total n owner) x := by
  have hlast : n - 1 < n := Nat.sub_lt hn Nat.one_pos
  by_cases htail : (n - 1) * (total / n) ≤ x
  · refine ⟨n - 1, hlast, htail, ?_⟩
    rw [chunkBounds_end hlast, if_pos (by omega)]
    exact hx
  · rw [Nat.not_le] at htail
    have hbase : 0 < total / n := Nat.pos_of_mul_pos_left (Nat.zero_lt_of_lt htail)
    have howner : x / (total / n) < n - 1 := (Nat.div_lt_iff_lt_mul hbase).2 htail
    refine ⟨x / (total / n), by omega, Nat.div_mul_le_self _ _, ?_⟩
    rw [chunkBounds_end (by omega), if_neg (by omega)]
    exact Nat.lt_mul_of_div_lt (Nat.lt_succ_self _) hbase

theorem chunkBounds_cover_unique (hn : 0 < n) {x : Nat} (hx : x < total) :
    ∃! owner, owner < n ∧ Covers (collectiveChunkBounds total n owner) x := by
  obtain ⟨owner, howner, hcovers⟩ := chunkBounds_cover hn hx
  refine ⟨owner, ⟨howner, hcovers⟩, ?_⟩
  rintro other ⟨hother, hlo, hhi⟩
  rcases Nat.lt_trichotomy other owner with hlt | rfl | hgt
  · have := chunkBounds_in_order total hlt howner
    exact absurd hcovers.1 (by omega)
  · rfl
  · have := chunkBounds_in_order total hgt hother
    exact absurd hcovers.2 (by omega)

theorem uniform_total_le (total n c : Nat) : n * c * (total / n / c) ≤ total :=
  calc n * c * (total / n / c) = n * (c * (total / n / c)) := Nat.mul_assoc _ _ _
    _ ≤ n * (total / n) := Nat.mul_le_mul_left _ (Nat.mul_div_le _ _)
    _ ≤ total := Nat.mul_div_le _ _

theorem uniformChunk_end_le (howner : owner < n) (hchannel : channel < c) :
    chunkEnd (uniformChunk total n c owner channel) ≤ n * c * (total / n / c) := by
  unfold chunkEnd uniformChunk
  rw [← Nat.succ_mul]
  exact Nat.mul_le_mul_right _ (Lib.digits_lt howner hchannel)

theorem uniformChunk_disjoint {owner' channel' : Nat} (hchannel : channel < c)
    (hchannel' : channel' < c) (hne : (owner, channel) ≠ (owner', channel')) :
    chunkEnd (uniformChunk total n c owner channel) ≤ (uniformChunk total n c owner' channel').1 ∨
      chunkEnd (uniformChunk total n c owner' channel') ≤
        (uniformChunk total n c owner channel).1 := by
  unfold chunkEnd uniformChunk
  rw [← Nat.succ_mul, ← Nat.succ_mul]
  rcases Nat.lt_trichotomy (owner * c + channel) (owner' * c + channel') with hlt | heq | hgt
  · exact Or.inl (Nat.mul_le_mul_right _ hlt)
  · obtain ⟨rfl, rfl⟩ := Lib.digits_inj hchannel hchannel' heq
    exact absurd rfl hne
  · exact Or.inr (Nat.mul_le_mul_right _ hgt)

/-- Exactly the first `n * c * bytes` bytes are sent. -/
theorem uniformChunk_covers_iff (total n c x : Nat) :
    (∃ owner < n, ∃ channel < c, Covers (uniformChunk total n c owner channel) x) ↔
      x < n * c * (total / n / c) := by
  constructor
  · rintro ⟨owner, howner, channel, hchannel, hcovers⟩
    exact hcovers.2.trans_le (uniformChunk_end_le howner hchannel)
  · intro hx
    have hbytes : 0 < total / n / c := Nat.pos_of_mul_pos_left (Nat.zero_lt_of_lt hx)
    have hplace : x / (total / n / c) < n * c := (Nat.div_lt_iff_lt_mul hbytes).2 hx
    have hc : 0 < c := Nat.pos_of_mul_pos_left (Nat.zero_lt_of_lt hplace)
    refine ⟨x / (total / n / c) / c, (Nat.div_lt_iff_lt_mul hc).2 hplace,
      x / (total / n / c) % c, Nat.mod_lt _ hc, ?_⟩
    unfold Covers chunkEnd uniformChunk
    rw [← Nat.succ_mul, Nat.mul_comm _ c, Nat.div_add_mod]
    exact ⟨Nat.div_mul_le_self _ _, Nat.lt_mul_of_div_lt (Nat.lt_succ_self _) hbytes⟩

theorem uniformChunk_unsent (total n c : Nat) :
    ((Finset.range total).filter fun x =>
      ∀ owner < n, ∀ channel < c, ¬ Covers (uniformChunk total n c owner channel) x).card =
      total - n * c * (total / n / c) := by
  have hrest : ((Finset.range total).filter fun x =>
      ∀ owner < n, ∀ channel < c, ¬ Covers (uniformChunk total n c owner channel) x) =
      Finset.Ico (n * c * (total / n / c)) total := by
    ext x
    have hcovers := uniformChunk_covers_iff total n c x
    rw [← not_iff_not] at hcovers
    push Not at hcovers
    rw [Finset.mem_filter, Finset.mem_range, Finset.mem_Ico, ← hcovers]
    exact and_comm
  rw [hrest, Nat.card_Ico]

end Arithmetic

/-! ## §2. The stages of a ring. -/

section Ring

variable [SeededMatrix] {key : CollectiveKey} (hring : key.algorithm.isRing = true)
  (hrings : RingOk key)

include hrings in
/-- In each step some rank of the channel sends the owner's chunk. -/
theorem exists_sender (phase : CollectivePhase) (channel : Nat) {owner step : Nat}
    (howner : owner < key.flowCount) (hstep : step < key.flowCount) :
    ∃ rank < key.flowCount, StagePosition.owner key ⟨phase, channel, rank, step⟩ = owner := by
  have hn : 0 < key.flowCount := Nat.zero_lt_of_lt howner
  obtain ⟨chunk, hchunk, rfl⟩ := exists_position hrings channel howner
  obtain ⟨place, hplace, heq⟩ := Lib.exists_add_mod_eq
    (Nat.mod_lt (key.flowCount - step + ownerOffset key.algorithm phase) hn) hchunk
  refine ⟨(CollectiveLayout.of key).rankAt channel place, rankAt_lt hrings channel hplace, ?_⟩
  rw [StagePosition.owner_eq]
  unfold StagePosition.chunk
  dsimp only
  rw [position_rankAt hrings channel hplace, ← heq, Nat.mod_add_mod]
  congr 2
  omega

include hrings in
/-- The rank is determined by the step and the owner. -/
theorem RingStage.eq_of_owner {a b : StagePosition} (ha : RingStage key a) (hb : RingStage key b)
    (hphase : a.phase = b.phase) (hchannel : a.channel = b.channel) (hstep : a.step = b.step)
    (howner : a.owner key = b.owner key) : a = b := by
  refine ha.ext hrings hb hchannel ?_ ?_
  · rw [StagePosition.owner_eq, StagePosition.owner_eq, hchannel] at howner
    rw [← position_rankAt hrings b.channel ha.chunk_lt, howner,
      position_rankAt hrings b.channel hb.chunk_lt]
  · unfold StagePosition.hop
    rw [hphase, hstep]

include hring hrings in
/-- The stages that send an owner's chunk are as many as the steps. -/
theorem owner_count {phase : CollectivePhase} (hphase : phase ∈ ringPhases key.algorithm)
    {channel : Nat} (hchannel : channel < (CollectiveLayout.of key).channels) {owner : Nat}
    (howner : owner < key.flowCount) :
    ((stagePositions key).filter fun pos =>
      pos.phase = phase ∧ pos.channel = channel ∧ pos.owner key = owner).length =
      key.flowCount - 1 := by
  set sent := (stagePositions key).filter fun pos =>
    pos.phase = phase ∧ pos.channel = channel ∧ pos.owner key = owner with hsent
  have hmem (pos : StagePosition) : pos ∈ sent ↔ RingStage key pos ∧ pos.phase = phase ∧
      pos.channel = channel ∧ pos.owner key = owner := by
    rw [hsent, mem_filter, mem_stagePositions hring, decide_eq_true_iff]
  -- The steps of these stages are all steps, each once.
  have hsteps : (sent.map StagePosition.step).Perm (range' 1 (key.flowCount - 1)) := by
    refine (perm_ext_iff_of_nodup ?_ nodup_range').2 fun step => ?_
    · refine Nodup.map_on ?_ ((stagePositions_nodup hring).filter _)
      intro a ha b hb hstep
      obtain ⟨hastage, hap, hac, hao⟩ := (hmem a).1 ha
      obtain ⟨hbstage, hbp, hbc, hbo⟩ := (hmem b).1 hb
      exact hastage.eq_of_owner hrings hbstage (hap.trans hbp.symm) (hac.trans hbc.symm) hstep
        (hao.trans hbo.symm)
    · rw [mem_map, mem_range'_1]
      constructor
      · rintro ⟨pos, hpos, rfl⟩
        have hstage := ((hmem pos).1 hpos).1
        have := hstage.begun
        have := hstage.step
        omega
      · rintro ⟨hlo, hhi⟩
        have hstep : step < key.flowCount := by omega
        obtain ⟨rank, hrank, heq⟩ := exists_sender hrings phase channel howner hstep
        refine ⟨⟨phase, channel, rank, step⟩, (hmem _).2 ⟨?_, rfl, rfl, heq⟩, rfl⟩
        exact ⟨hphase, hchannel, hrank, by dsimp only; omega, by dsimp only; omega⟩
  have hlength := hsteps.length_eq
  rwa [length_map, length_range'] at hlength

end Ring

/-- Chunks tile the buffer.  For every total and group size the `EqualRemainderLast` chunks lie in
    order in `[0, total)` and every byte of it is in exactly one; for every channel count besides
    the `UniformFloor` chunks are equal, disjoint and inside, and leave exactly
    `total - n * c * ((total / n) / c)` bytes.  The stages of an accepted ring collective send these
    chunks, in each phase and channel every owner's as often as there are steps. -/
theorem chunks_tile_buffer [SeededMatrix] :
    (∀ total n, 0 < n →
      (∀ x < total, ∃! owner, owner < n ∧ Covers (collectiveChunkBounds total n owner) x) ∧
      (∀ owner < n, chunkEnd (collectiveChunkBounds total n owner) ≤ total) ∧
      ∀ a b, a < b → b < n → chunkEnd (collectiveChunkBounds total n a) ≤ (collectiveChunkBounds total n b).1) ∧
    (∀ total n c,
      (∀ owner < n, ∀ channel < c, (uniformChunk total n c owner channel).2 = total / n / c ∧
        chunkEnd (uniformChunk total n c owner channel) ≤ total) ∧
      (∀ owner < n, ∀ channel < c, ∀ owner' < n, ∀ channel' < c,
        (owner, channel) ≠ (owner', channel') →
        chunkEnd (uniformChunk total n c owner channel) ≤
            (uniformChunk total n c owner' channel').1 ∨
          chunkEnd (uniformChunk total n c owner' channel') ≤
            (uniformChunk total n c owner channel).1) ∧
      ((Finset.range total).filter fun x =>
        ∀ owner < n, ∀ channel < c, ¬ Covers (uniformChunk total n c owner channel) x).card =
        total - n * c * (total / n / c)) ∧
    ∀ hosts key, Accepted hosts key → key.algorithm.isRing = true →
      (∀ phase ∈ ringPhases key.algorithm, ∀ channel < (CollectiveLayout.of key).channels,
        ∀ owner < key.flowCount, ((stagePositions key).filter fun pos =>
          pos.phase = phase ∧ pos.channel = channel ∧ pos.owner key = owner).length =
          key.flowCount - 1) ∧
      ∀ pos ∈ stagePositions key, stageChunk key pos =
        match key.chunk with
        | .uniformFloor => uniformChunk key.totalBytes key.flowCount
            (CollectiveLayout.of key).channels (pos.owner key) pos.channel
        | _ => collectiveChunkBounds key.totalBytes key.flowCount (pos.owner key) := by
  refine ⟨fun total n hn => ⟨?_, ?_, ?_⟩, fun total n c => ⟨?_, ?_, ?_⟩, fun _ _ h hring => ⟨?_, ?_⟩⟩
  · intro x hx
    exact chunkBounds_cover_unique hn hx
  · intro owner howner
    exact chunkBounds_inside howner
  · intro a b hab hb
    exact chunkBounds_in_order total hab hb
  · intro owner howner channel hchannel
    exact ⟨rfl, (uniformChunk_end_le howner hchannel).trans (uniform_total_le total n c)⟩
  · intro owner _ channel hchannel owner' _ channel' hchannel' hne
    exact uniformChunk_disjoint hchannel hchannel' hne
  · exact uniformChunk_unsent total n c
  · intro phase hphase channel hchannel owner howner
    exact owner_count hring h.ok.rings hphase hchannel howner
  · intro pos _
    exact stageChunk_of_owner hring pos

theorem chunks_tile_buffer_pair :
    Accepted [4, 7] pairKey ∧ pairKey.algorithm.isRing = true ∧
      ∀ owner < 2, ((@stagePositions drawnMatrix pairKey).filter fun pos =>
        pos.phase = .allGather ∧ pos.channel = 0 ∧ @StagePosition.owner drawnMatrix pairKey pos = owner).length =
        1 := by
  have haccepted : Accepted [4, 7] pairKey := ⟨pairSource, pairKey, rfl, rfl⟩
  refine ⟨haccepted, rfl, ?_⟩
  exact ((@chunks_tile_buffer drawnMatrix).2.2 [4, 7] pairKey haccepted rfl).1 .allGather (by decide) 0
    (by decide)

end Days.Compile
