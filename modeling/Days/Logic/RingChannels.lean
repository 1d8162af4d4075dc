/-
  Days.Logic.RingChannels — SimAI's ring channels and the servers they cross.

  `simai_ring_channels` repeats the first ranks of a group, shifted, once for each
  spanned server.  It compares the copies with the group and never with the servers,
  so an unequal group can pass; the channels are server-regular exactly where each
  block of the sorted ranks lies on one server.  Main result: `ring_channels_server_regular`.
-/
import Mathlib.Data.Int.ModEq
import Mathlib.Data.List.GetD
import Days.Aicb.Lower
import Days.Logic.SeededMatrix

namespace Days.Aicb

open List Option

variable {ranks front block back : List Nat} {serverOf σ : Nat → Nat} {channels : List (List Nat)}
  {i s : Nat}

/-! ## §1. Rings of copies. -/

/-- The ring of `nodes` copies of `m` entries. -/
def ringOf (nodes m : Nat) (entry : Nat → Nat → Nat) : List Nat :=
  (List.range nodes).flatMap fun i => (List.range m).map (entry i)

section Ring

variable {nodes m : Nat} {entry other : Nat → Nat → Nat}

/-- Position `p` of the ring is entry `p % m` of copy `p / m`. -/
theorem ringOf_eq (hm : 0 < m) :
    ringOf nodes m entry = (range (nodes * m)).map fun p => entry (p / m) (p % m) := by
  induction nodes with
  | zero => simp [ringOf]
  | succ nodes ih =>
    have hlast : (range m).map (entry nodes) =
        (range m).map ((fun p => entry (p / m) (p % m)) ∘ (nodes * m + ·)) := by
      refine map_congr_left fun j hj => ?_
      have hlt := mem_range.1 hj
      simp [Nat.mul_comm nodes, Nat.mul_add_div hm, Nat.div_eq_of_lt hlt,
        Nat.mod_eq_of_lt hlt]
    rw [Nat.succ_mul, range_add, map_append, ← ih, List.map_map, ← hlast]
    simp [ringOf, range_succ]

theorem ringOf_congr (h : ∀ i < nodes, ∀ j < m, entry i j = other i j) :
    ringOf nodes m entry = ringOf nodes m other :=
  flatMap_congr fun i hi => map_congr_left fun j hj => h i (mem_range.1 hi) j (mem_range.1 hj)

theorem ringOf_getD {j : Nat} (hi : i < nodes) (hj : j < m) :
    (ringOf nodes m entry).getD (i * m + j) 0 = entry i j := by
  have hlt : i * m + j < nodes * m := by
    have := Nat.mul_le_mul_right m (Nat.succ_le_of_lt hi)
    rw [Nat.succ_mul] at this
    omega
  rw [ringOf_eq (by omega), getD_eq_getElem?_getD, getElem?_map, getElem?_range hlt]
  have hm : 0 < m := by omega
  simp [Nat.mul_comm i, Nat.mul_add_div hm, Nat.div_eq_of_lt hj, Nat.mod_eq_of_lt hj]

/-- A list is the ring of its own blocks. -/
theorem ringOf_blocks {l : List Nat} (hm : 0 < m) (hl : l.length = nodes * m) :
    ringOf nodes m (fun i j => l.getD (i * m + j) 0) = l := by
  rw [ringOf_eq hm, ← hl]
  refine ext_getElem (by simp) fun p _ hp => ?_
  simp [Nat.div_add_mod', hp]

end Ring

/-! ## §2. Blocks of a ring. -/

/-- The ranks of the server stand together. -/
def OneBlock (serverOf : Nat → Nat) (s : Nat) (channel : List Nat) : Prop :=
  channel.filter (serverOf · = s) <:+: channel

/-- One step around the ring goes from the server to another one. -/
def LeavesOnce (serverOf : Nat → Nat) (s : Nat) (channel : List Nat) : Prop :=
  ∃! p, p < channel.length ∧ serverOf (channel.getD p 0) = s ∧
    serverOf (channel.getD ((p + 1) % channel.length) 0) ≠ s

/-- A block whose server is not that of another block stands apart. -/
theorem split_blocks {blocks : List Nat} {f : Nat → List Nat} (hnodup : (blocks.map σ).Nodup)
    (hf : ∀ b ∈ blocks, ∀ a ∈ f b, serverOf a = σ b) (hi : i ∈ blocks) :
    ∃ front back, blocks.flatMap f = front ++ f i ++ back ∧
      ∀ a ∈ front ++ back, serverOf a ≠ σ i := by
  obtain ⟨before, after, rfl⟩ := append_of_mem hi
  rw [map_append, map_cons, nodup_middle, nodup_cons, ← map_append] at hnodup
  refine ⟨before.flatMap f, after.flatMap f, by simp, fun a ha hon => hnodup.1 ?_⟩
  rw [← flatMap_append] at ha
  obtain ⟨b, hb, ha⟩ := mem_flatMap.1 ha
  have hmem : b ∈ before ++ i :: after := by
    simp only [mem_append, mem_cons] at hb ⊢
    exact hb.imp_right .inr
  rw [← hon, hf b hmem a ha]
  exact mem_map_of_mem hb

section Block

variable (hin : ∀ a ∈ block, serverOf a = s) (hout : ∀ a ∈ front ++ back, serverOf a ≠ s)

include hin hout

/-- The server's ranks are the block. -/
theorem filter_block : (front ++ block ++ back).filter (serverOf · = s) = block := by
  have hall : block.filter (serverOf · = s) = block := by simpa using hin
  have hnone : (front ++ back).filter (serverOf · = s) = [] :=
    filter_eq_nil_iff.2 fun a ha => by simpa using hout a ha
  rw [filter_append, append_eq_nil_iff] at hnone
  rw [filter_append, filter_append, hall, hnone.1, hnone.2, nil_append,
    append_nil]

/-- The positions on the server are those of the block. -/
theorem server_positions : ∀ p < (front ++ block ++ back).length,
    serverOf ((front ++ block ++ back).getD p 0) = s ↔
      front.length ≤ p ∧ p < front.length + block.length := by
  intro p hp
  rw [getD_eq_getElem?_getD, getElem?_eq_getElem hp, getD_some]
  rw [getElem_append]
  split
  · rw [getElem_append]
    split
    · exact iff_of_false (hout _ (mem_append_left _ (getElem_mem _))) (by omega)
    · refine iff_of_true (hin _ (getElem_mem _)) ?_
      simp only [length_append] at *
      omega
  · refine iff_of_false (hout _ (mem_append_right _ (getElem_mem _))) ?_
    simp only [length_append] at *
    omega

/-- A ring leaves the block behind its last rank. -/
theorem leavesOnce_block (hsome : block ≠ []) (hothers : front ++ back ≠ []) :
    LeavesOnce serverOf s (front ++ block ++ back) := by
  have hat := server_positions hin hout
  have hblock := length_pos_iff.2 hsome
  have hrest := length_pos_iff.2 hothers
  unfold LeavesOnce
  simp only [length_append] at hat hrest ⊢
  generalize hn : front.length + block.length + back.length = n at hat ⊢
  have hnext : ∀ p < n, (p + 1) % n = p + 1 ∧ p + 1 < n ∨ (p + 1) % n = 0 ∧ p + 1 = n := by
    intro p hp
    rcases Nat.lt_or_ge (p + 1) n with hlt | hge
    · exact .inl ⟨Nat.mod_eq_of_lt hlt, hlt⟩
    · obtain rfl : p + 1 = n := by omega
      exact .inr ⟨Nat.mod_self _, rfl⟩
  refine ⟨front.length + block.length - 1, ⟨by omega, (hat _ (by omega)).2 (by omega), ?_⟩, ?_⟩
  · rw [Ne, hat _ (Nat.mod_lt _ (by omega))]
    have := hnext (front.length + block.length - 1) (by omega)
    omega
  · rintro p ⟨hp, hon, hoff⟩
    rw [hat p hp] at hon
    rw [Ne, hat _ (Nat.mod_lt _ (by omega))] at hoff
    have := hnext p hp
    omega

end Block

/-- Ranks that stand together are a stretch of positions. -/
theorem OneBlock.positions {l : List Nat} (h : OneBlock serverOf s l) :
    ∃ start, ∀ p < l.length, serverOf (l.getD p 0) = s ↔
      start ≤ p ∧ p < start + (l.filter (serverOf · = s)).length := by
  obtain ⟨front, back, hl⟩ := h
  refine ⟨front.length, ?_⟩
  have hin : ∀ a ∈ l.filter (serverOf · = s), serverOf a = s := fun a ha => by simpa using (mem_filter.1 ha).2
  -- The block already has all the ranks of the server.
  have hcount := congrArg (fun l => (l.filter (serverOf · = s)).length) hl
  simp only [filter_append, length_append, List.filter_filter, Bool.and_self] at hcount
  have hnone : (front ++ back).filter (serverOf · = s) = [] := by
    rw [← length_eq_zero_iff, filter_append, length_append]
    omega
  have hpositions := server_positions hin fun a ha hon =>
    absurd (decide_eq_true hon) (filter_eq_nil_iff.1 hnone a ha)
  rwa [hl] at hpositions

section Blocks

variable {l : List Nat} {m : Nat} (hm : 0 < m)
  (hblocks : ∀ a ∈ l, ∃ start, ∀ p < l.length, serverOf (l.getD p 0) = serverOf a ↔ start ≤ p ∧ p < start + m)

include hm hblocks

/-- Blocks of one size that fill a list begin at multiples of it. -/
theorem dvd_start {start : Nat} (hstart : start < l.length)
    (hown : ∀ p < l.length, serverOf (l.getD p 0) = s ↔ start ≤ p ∧ p < start + m) : m ∣ start := by
  induction start using Nat.strong_induction_on generalizing s with
  | _ start ih =>
    rcases Nat.eq_zero_or_pos start with rfl | hpos
    · exact dvd_zero m
    -- The block before ends where this one begins.
    have hbefore : start - 1 < l.length := by omega
    have hmem : l.getD (start - 1) 0 ∈ l := by
      rw [getD_eq_getElem _ _ hbefore]
      exact getElem_mem hbefore
    obtain ⟨first, hfirst⟩ := hblocks _ hmem
    have hin := (hfirst (start - 1) hbefore).1 rfl
    have hother : ¬ (first ≤ start ∧ start < first + m) := by
      rw [← hfirst start hstart, (hown start hstart).2 ⟨le_rfl, by omega⟩]
      intro hsame
      have := (hown (start - 1) hbefore).1 hsame.symm
      omega
    have hdvd := ih first (by omega) (by omega) hfirst
    rw [show start = first + m by omega]
    exact (Nat.dvd_add_self_right).2 hdvd

/-- So the ranks between two multiples are on one server. -/
theorem same_server_in_block {j : Nat} (hj : j < m) (hin : i * m + j < l.length) :
    serverOf (l.getD (i * m + j) 0) = serverOf (l.getD (i * m) 0) := by
  have hlt : i * m < l.length := by omega
  have hmem : l.getD (i * m) 0 ∈ l := by
    rw [getD_eq_getElem _ _ hlt]
    exact getElem_mem hlt
  obtain ⟨start, hpositions⟩ := hblocks _ hmem
  obtain ⟨hlow, hhigh⟩ := (hpositions (i * m) hlt).1 rfl
  obtain ⟨q, rfl⟩ := dvd_start hm hblocks (by omega) hpositions
  -- The block that holds the multiple begins at it.
  have hsame : q = i := by
    refine Nat.le_antisymm (Nat.le_of_mul_le_mul_left (Nat.mul_comm i m ▸ hlow) hm) ?_
    rw [← Nat.mul_succ, Nat.mul_comm i] at hhigh
    exact Nat.le_of_lt_succ (Nat.lt_of_mul_lt_mul_left hhigh)
  subst hsame
  rw [hpositions _ hin, Nat.mul_comm]
  omega

end Blocks

/-! ## §3. What is returned. -/

/-- The distance of one server's ranks to the next server's. -/
def ringDelta (ranks : List Nat) (nodes : Nat) : Nat :=
  if 1 < nodes then ranks.getD (ranks.length / nodes) 0 - ranks.getD 0 0 else 0

/-- The ranks in order. -/
abbrev sortedRanks (ranks : List Nat) : List Nat := ranks.insertionSort (· ≤ ·)

/-- Entry `j` of copy `i` in channel `k`. -/
def ringEntry (ranks : List Nat) (nodes k i j : Nat) : Nat :=
  ((sortedRanks ranks).take (ranks.length / nodes)).getD
    ((k + j) % (ranks.length / nodes)) 0 + i * ringDelta ranks nodes

/-- Channel `k`. -/
def ringChannel (ranks : List Nat) (nodes k : Nat) : List Nat :=
  ringOf nodes (ranks.length / nodes) (ringEntry ranks nodes k)

/-- The first block of the sorted ranks and its shifted copies. -/
def firstCopies (ranks : List Nat) (nodes : Nat) : List Nat :=
  ringOf nodes (ranks.length / nodes) fun i j => (sortedRanks ranks).getD j 0 + i * ringDelta ranks nodes

/-- The group divides into `nodes` blocks of its sorted ranks, each the first block shifted. -/
def RepeatsFirst (ranks : List Nat) (nodes : Nat) : Prop :=
  let nlocal := ranks.length / nodes
  let sorted := sortedRanks ranks
  ranks.length ≠ 0 ∧ ranks.length % nodes = 0 ∧ (nodes ≤ 1 ∨ ranks.getD 0 0 ≤ ranks.getD nlocal 0) ∧
    ∀ i < nodes, ∀ j < nlocal,
      sorted.getD (i * nlocal + j) 0 = sorted.getD j 0 + i * ringDelta ranks nodes

/-- Each block of the sorted ranks lies on one server. -/
def BlocksOnServers (ranks : List Nat) (serverOf : Nat → Nat) : Prop :=
  let nlocal := ranks.length / (serversOf ranks serverOf).length
  let sorted := sortedRanks ranks
  ∀ i < (serversOf ranks serverOf).length, ∀ j < nlocal,
    serverOf (sorted.getD (i * nlocal + j) 0) = serverOf (sorted.getD (i * nlocal) 0)

section Copies

variable {nodes : Nat}

theorem nlocal_pos (hn : ranks.length ≠ 0) (hdvd : ranks.length % nodes = 0) :
    0 < ranks.length / nodes ∧ nodes * (ranks.length / nodes) = ranks.length := by
  have hmul := Nat.mul_div_cancel' (Nat.dvd_of_mod_eq_zero hdvd)
  refine ⟨Nat.pos_of_ne_zero fun hzero => hn ?_, hmul⟩
  rw [← hmul, hzero, Nat.mul_zero]

/-- A channel rotates each copy of the first block. -/
theorem ring_perm_copies (hm : 0 < ranks.length / nodes) (k : Nat) :
    (ringChannel ranks nodes k).Perm (firstCopies ranks nodes) := by
  refine Perm.flatMap_left _ fun i _ => ?_
  have hrotate : ((range (ranks.length / nodes)).map fun j => (k + j) % (ranks.length / nodes)).Perm
      (range (ranks.length / nodes)) := by
    have hnodup : ((range (ranks.length / nodes)).map fun j =>
        (k + j) % (ranks.length / nodes)).Nodup := by
      refine nodup_range.map_on fun a ha b hb hab => ?_
      have hcancel : a % _ = b % _ := Nat.ModEq.add_left_cancel' k hab
      rwa [Nat.mod_eq_of_lt (mem_range.1 ha), Nat.mod_eq_of_lt (mem_range.1 hb)] at hcancel
    refine (subperm_of_subset hnodup fun a ha => ?_).perm_of_length_le (by simp)
    obtain ⟨j, -, rfl⟩ := mem_map.1 ha
    exact mem_range.2 (Nat.mod_lt _ hm)
  have hmapped := hrotate.map fun j => (sortedRanks ranks).getD j 0 + i * ringDelta ranks nodes
  rw [List.map_map] at hmapped
  refine (Perm.of_eq (map_congr_left fun j _ => ?_)).trans hmapped
  simp [ringEntry, getD_eq_getElem?_getD, getElem?_take_of_lt (Nat.mod_lt (k + j) hm)]

theorem RepeatsFirst.copies (h : RepeatsFirst ranks nodes) : firstCopies ranks nodes = sortedRanks ranks := by
  obtain ⟨hn, hdvd, -, hshift⟩ := h
  obtain ⟨hm, hmul⟩ := nlocal_pos hn hdvd
  rw [firstCopies, ← ringOf_congr hshift]
  exact ringOf_blocks hm (by rw [length_insertionSort, hmul])

section Sorted

variable {sorted : List Nat} {m delta : Nat} (hordered : sorted.Pairwise (· ≤ ·))

include hordered

theorem getD_le_of_sorted {a b : Nat} (hab : a ≤ b) (hb : b < sorted.length) :
    sorted.getD a 0 ≤ sorted.getD b 0 := by
  rw [getD_eq_getElem _ _ (hab.trans_lt hb), getD_eq_getElem _ _ hb]
  exact hordered.rel_get_of_le (a := ⟨a, hab.trans_lt hb⟩) (b := ⟨b, hb⟩) hab

variable (hm : 0 < m) (hperm : (ringOf nodes m fun i j => sorted.getD j 0 + i * delta).Perm sorted)

include hm hperm

/-- The second copy begins among the later ranks, so no copy reaches into the next. -/
theorem getD_le_shift (hnodes : 2 ≤ nodes) {j : Nat} (hj : j < m) :
    sorted.getD j 0 ≤ sorted.getD 0 0 + delta := by
  have hlength := hperm.length_eq
  rw [ringOf_eq hm, length_map, length_range] at hlength
  have hsplit : nodes = (nodes - 1) + 1 := by omega
  rw [hsplit, ringOf, range_succ_eq_map, flatMap_cons, flatMap_map] at hperm
  have hfirst : (range m).map (fun j => sorted.getD j 0 + 0 * delta) = sorted.take m := by
    refine ext_getElem (by simp [← hlength]; exact Nat.le_mul_of_pos_left m (by omega)) fun p _ hp => ?_
    rw [length_take] at hp
    simp [getElem?_eq_getElem (show p < sorted.length by omega)]
  rw [hfirst] at hperm
  nth_rewrite 3 [← take_append_drop m sorted] at hperm
  rw [perm_append_left_iff] at hperm
  have hmem : sorted.getD 0 0 + delta ∈ sorted.drop m := by
    refine hperm.mem_iff.1 (mem_flatMap.2 ⟨0, mem_range.2 (by omega), mem_map.2 ⟨0, mem_range.2 hm, ?_⟩⟩)
    simp
  obtain ⟨p, hp, heq⟩ := getElem_of_mem hmem
  rw [length_drop] at hp
  rw [getElem_drop] at heq
  rw [← heq, ← getD_eq_getElem _ 0]
  exact getD_le_of_sorted hordered (by omega) (by omega)

/-- Shifted copies that make up a sorted list stand in order. -/
theorem copies_pairwise : (ringOf nodes m fun i j => sorted.getD j 0 + i * delta).Pairwise (· ≤ ·) := by
  have hlength := hperm.length_eq
  rw [ringOf_eq hm, length_map, length_range] at hlength
  rw [ringOf_eq hm, pairwise_map]
  refine pairwise_lt_range.imp_of_mem fun {p q} _ hq hlt => ?_
  have hq := mem_range.1 hq
  have hin := Nat.mod_lt q hm
  have hle : m ≤ nodes * m := Nat.le_mul_of_pos_left m (Nat.pos_of_ne_zero fun hz => by simp [hz] at hq)
  have hdiv : p / m ≤ q / m := Nat.div_le_div_right hlt.le
  rcases hdiv.eq_or_lt with heq | hbelow
  · rw [heq]
    have hmod : p % m ≤ q % m := by
      have hp := Nat.div_add_mod' p m
      have hq' := Nat.div_add_mod' q m
      rw [heq] at hp
      omega
    exact Nat.add_le_add_right (getD_le_of_sorted hordered hmod (by omega)) _
  · have hnodes : 2 ≤ nodes := by
      have := (Nat.div_lt_iff_lt_mul hm).2 hq
      have := Nat.zero_le (p / m)
      omega
    have hsteps : (p / m + 1) * delta ≤ q / m * delta := Nat.mul_le_mul_right _ hbelow
    rw [Nat.succ_mul] at hsteps
    have hfirst := getD_le_shift hordered hm hperm hnodes (Nat.mod_lt p hm)
    have hzero := getD_le_of_sorted hordered (Nat.zero_le (q % m)) (by omega)
    omega

end Sorted

/-- Copies that make up the group are the sorted group. -/
theorem copies_sorted (hm : 0 < ranks.length / nodes)
    (hperm : (firstCopies ranks nodes).Perm (sortedRanks ranks)) :
    firstCopies ranks nodes = sortedRanks ranks :=
  have hordered : (sortedRanks ranks).Pairwise (· ≤ ·) := pairwise_insertionSort ..
  hperm.eq_of_pairwise' (copies_pairwise hordered hm hperm) hordered

end Copies

/-- What the loop over the channels checks of one. -/
theorem channel_eq_some {order sorted channel : List Nat} :
    (do
      guard (order.all (· < 2 ^ 64))
      guard (order.insertionSort (· ≤ ·) = sorted)
      return order : Option (List Nat)) = some channel ↔
    ((∀ a ∈ order, a < 2 ^ 64) ∧ order.insertionSort (· ≤ ·) = sorted) ∧ channel = order := by
  simp only [bind_eq_bind, bind_eq_some_iff, guard_eq_some']
  constructor
  · rintro ⟨_, hall, _, hsort, ⟨⟩⟩
    exact ⟨⟨by simpa using hall, hsort⟩, rfl⟩
  · rintro ⟨⟨hall, hsort⟩, rfl⟩
    exact ⟨(), by simpa using hall, (), hsort, rfl⟩

theorem mapM_eq_some_of_checks {f : Nat → Option (List Nat)} {P : Nat → Prop} {order : Nat → List Nat}
    {m : Nat} (hf : ∀ k channel, f k = some channel ↔ P k ∧ channel = order k) :
    (range m).mapM f = some channels ↔ (∀ k < m, P k) ∧ channels = (range m).map order := by
  rw [mapM_eq_some_iff]
  constructor
  · intro h
    have hsome : ∀ k ∈ range m, P k ∧ f k = some (order k) := fun k hk => by
      obtain ⟨channel, -, hchannel⟩ := mem_map.1 (h ▸ mem_map_of_mem hk)
      obtain ⟨hP, rfl⟩ := (hf k channel).1 hchannel.symm
      exact ⟨hP, hchannel.symm⟩
    refine ⟨fun k hk => (hsome k (mem_range.2 hk)).1, ?_⟩
    rw [map_congr_left fun k hk => (hsome k hk).2] at h
    exact (map_injective_iff.2 (some_injective _) (List.map_map.trans h)).symm
  · rintro ⟨hP, rfl⟩
    rw [List.map_map]
    exact map_congr_left fun k hk => (hf k _).2 ⟨hP k (mem_range.1 hk), rfl⟩

/-- Channels are returned exactly for a group whose blocks repeat the first one. -/
theorem simaiRingChannels_eq_some_iff (hwidth : ∀ rank ∈ ranks, rank < 2 ^ 64) :
    simaiRingChannels ranks serverOf = some channels ↔
      RepeatsFirst ranks (serversOf ranks serverOf).length ∧
      channels = (range (ranks.length / (serversOf ranks serverOf).length)).map
        (ringChannel ranks (serversOf ranks serverOf).length) := by
  unfold simaiRingChannels
  simp only [bind_eq_bind, bind_eq_some_iff, guard_eq_some']
  generalize (serversOf ranks serverOf).length = nodes
  constructor
  · rintro ⟨_, hn, _, hdvd, _, hguard, h⟩
    obtain ⟨hm, -⟩ := nlocal_pos hn hdvd
    obtain ⟨hchecks, hchannels⟩ := (mapM_eq_some_of_checks fun k channel => channel_eq_some).1 h
    have hperm := (ring_perm_copies hm 0).symm.trans ((perm_insertionSort (· ≤ ·) _).symm.trans
      (Perm.of_eq (hchecks 0 hm).2))
    refine ⟨⟨hn, hdvd, hguard, fun i hi j hj => ?_⟩, hchannels⟩
    have hentry : (firstCopies ranks nodes).getD _ 0 = (sortedRanks ranks).getD j 0 + i * ringDelta ranks nodes :=
      ringOf_getD hi hj
    rwa [copies_sorted hm hperm] at hentry
  · rintro ⟨hrepeats, rfl⟩
    obtain ⟨hm, -⟩ := nlocal_pos hrepeats.1 hrepeats.2.1
    refine ⟨(), hrepeats.1, (), hrepeats.2.1, (), hrepeats.2.2.1,
      (mapM_eq_some_of_checks fun k channel => channel_eq_some).2 ⟨fun k _ => ?_, rfl⟩⟩
    have hperm := (ring_perm_copies hm k).trans (Perm.of_eq hrepeats.copies)
    have hranks := hperm.trans (perm_insertionSort (· ≤ ·) ranks)
    refine ⟨fun a ha => hwidth a (hranks.mem_iff.1 ha), ?_⟩
    exact ((perm_insertionSort (· ≤ ·) _).trans hperm).eq_of_pairwise' (pairwise_insertionSort _ _)
      (pairwise_insertionSort _ _)

/-- The entries of a channel are the ranks of the blocks, rotated. -/
theorem RepeatsFirst.entry {nodes : Nat} (h : RepeatsFirst ranks nodes) (k j : Nat) (hi : i < nodes) :
    ringEntry ranks nodes k i j = (sortedRanks ranks).getD
      (i * (ranks.length / nodes) + (k + j) % (ranks.length / nodes)) 0 := by
  have hlt := Nat.mod_lt (k + j) (nlocal_pos h.1 h.2.1).1
  rw [h.2.2.2 i hi _ hlt]
  simp [ringEntry, getD_eq_getElem?_getD, getElem?_take_of_lt hlt]

/-! ## §4. Channels of a group. -/

theorem mem_serversOf : s ∈ serversOf ranks serverOf ↔ ∃ rank ∈ ranks, serverOf rank = s := by
  unfold serversOf
  rw [List.mem_dedup, List.mem_insertionSort, List.mem_map]

/-- Where each copy lies on one server, there is one copy for each server. -/
theorem servers_of_copies {m : Nat} {entry : Nat → Nat → Nat}
    (hperm : (ringOf (serversOf ranks serverOf).length m entry).Perm ranks)
    (hserver : ∀ i < (serversOf ranks serverOf).length, ∀ j < m, serverOf (entry i j) = σ i) :
    (serversOf ranks serverOf).Perm ((range (serversOf ranks serverOf).length).map σ) := by
  have honto : serversOf ranks serverOf ⊆ (range (serversOf ranks serverOf).length).map σ := by
    intro s hs
    obtain ⟨rank, hrank, rfl⟩ := mem_serversOf.1 hs
    obtain ⟨i, hi, hmem⟩ := mem_flatMap.1 (hperm.mem_iff.2 hrank)
    obtain ⟨j, hj, rfl⟩ := mem_map.1 hmem
    rw [hserver i (mem_range.1 hi) j (mem_range.1 hj)]
    exact mem_map_of_mem hi
  exact (subperm_of_subset (nodup_dedup _) honto).perm_of_length_le
    (by simp [serversOf])

/-- Equally many ranks on each server, as many channels, and in each channel the ranks of each server
    in one block, which a ring over several servers leaves once. -/
def ServerRegular (ranks : List Nat) (serverOf : Nat → Nat) (channels : List (List Nat)) : Prop :=
  let servers := serversOf ranks serverOf
  let nlocal := ranks.length / servers.length
  (∀ s ∈ servers, (ranks.filter (serverOf · = s)).length = nlocal) ∧
    channels.length = nlocal ∧
    ∀ channel ∈ channels, channel.Perm ranks ∧ ∀ s ∈ servers,
      OneBlock serverOf s channel ∧ (1 < servers.length → LeavesOnce serverOf s channel)

/-- Where each block lies on one server the channels are regular. -/
theorem serverRegular_of_blocks
    (hrepeats : RepeatsFirst ranks (serversOf ranks serverOf).length)
    (hblocks : BlocksOnServers ranks serverOf) :
    ServerRegular ranks serverOf ((range (ranks.length / (serversOf ranks serverOf).length)).map
      (ringChannel ranks (serversOf ranks serverOf).length)) := by
  unfold ServerRegular
  intro servers nlocal
  obtain ⟨hm, hmul⟩ : 0 < nlocal ∧ servers.length * nlocal = ranks.length :=
    nlocal_pos hrepeats.1 hrepeats.2.1
  have hperm (k : Nat) : (ringChannel ranks servers.length k).Perm ranks :=
    ((ring_perm_copies hm k).trans (Perm.of_eq hrepeats.copies)).trans (perm_insertionSort (· ≤ ·) ranks)
  -- A channel permutes the group, so what one channel has of a server the group has.
  have hregular (k : Nat) : ∀ s ∈ servers,
      ((ringChannel ranks servers.length k).filter (serverOf · = s)).length = nlocal ∧
      OneBlock serverOf s (ringChannel ranks servers.length k) ∧
      (1 < servers.length → LeavesOnce serverOf s (ringChannel ranks servers.length k)) := by
    intro s hs
    have hserver : ∀ i < servers.length, ∀ j < nlocal, serverOf (ringEntry ranks servers.length k i j) =
        serverOf ((sortedRanks ranks).getD (i * nlocal) 0) := fun i hi j _ => by
      rw [hrepeats.entry k j hi]
      exact hblocks i hi _ (Nat.mod_lt _ hm)
    have hservers := servers_of_copies (hperm k) hserver
    have hnodup := hservers.nodup_iff.1 (nodup_dedup _)
    obtain ⟨i, hi, rfl⟩ := mem_map.1 (hservers.mem_iff.1 hs)
    have hon : ∀ i ∈ range servers.length, ∀ a ∈ (range nlocal).map
        (ringEntry ranks servers.length k i), serverOf a =
          serverOf ((sortedRanks ranks).getD (i * nlocal) 0) := by
      intro i hi a ha
      obtain ⟨j, hj, rfl⟩ := mem_map.1 ha
      exact hserver i (mem_range.1 hi) j (mem_range.1 hj)
    obtain ⟨front, back, hring, hout⟩ := split_blocks hnodup hon hi
    have hsize := (hperm k).length_eq
    unfold OneBlock
    rw [ringChannel, ringOf, hring] at hsize ⊢
    rw [filter_block (hon i hi) hout]
    simp only [length_append, length_map, length_range] at hsize ⊢
    refine ⟨trivial, ⟨front, back, rfl⟩, fun hseveral => leavesOnce_block (hon i hi) hout ?_ ?_⟩
    · exact ne_nil_of_length_pos (by simpa using hm)
    · have hmore := Nat.mul_lt_mul_of_pos_right hseveral hm
      exact ne_nil_of_length_pos (by rw [length_append]; omega)
  refine ⟨fun s hs => ?_, by simp [nlocal, servers], fun channel hchannel => ?_⟩
  · rw [← ((hperm 0).filter _).length_eq]
    exact (hregular 0 s hs).1
  · obtain ⟨k, -, rfl⟩ := mem_map.1 hchannel
    exact ⟨hperm k, fun s hs => (hregular k s hs).2⟩

/-- In regular channels each block of the sorted ranks lies on one server. -/
theorem blocks_of_serverRegular
    (hrepeats : RepeatsFirst ranks (serversOf ranks serverOf).length)
    (hregular : ServerRegular ranks serverOf
      ((range (ranks.length / (serversOf ranks serverOf).length)).map
        (ringChannel ranks (serversOf ranks serverOf).length))) :
    BlocksOnServers ranks serverOf := by
  obtain ⟨hcounts, -, hchannels⟩ := hregular
  obtain ⟨hm, hmul⟩ := nlocal_pos hrepeats.1 hrepeats.2.1
  have hlength : (sortedRanks ranks).length = ranks.length := length_insertionSort ..
  have hranks := perm_insertionSort (· ≤ ·) ranks
  -- The first channel is the sorted group itself.
  have hfirst : ringChannel ranks (serversOf ranks serverOf).length 0 = sortedRanks ranks := by
    refine Eq.trans (ringOf_congr fun i hi j hj => ?_) (ringOf_blocks hm (hlength.trans hmul.symm))
    rw [hrepeats.entry 0 j hi, Nat.zero_add, Nat.mod_eq_of_lt hj]
  have hblock : ∀ a ∈ sortedRanks ranks, ∃ start, ∀ p < (sortedRanks ranks).length,
      serverOf ((sortedRanks ranks).getD p 0) = serverOf a ↔
        start ≤ p ∧ p < start + ranks.length / (serversOf ranks serverOf).length := by
    intro a ha
    have hserver : serverOf a ∈ serversOf ranks serverOf :=
      mem_serversOf.2 ⟨a, hranks.mem_iff.1 ha, rfl⟩
    have hone := ((hchannels _ (mem_map_of_mem (mem_range.2 hm))).2 _ hserver).1
    rw [hfirst] at hone
    obtain ⟨start, hpositions⟩ := hone.positions
    rw [(hranks.filter _).length_eq, hcounts _ hserver] at hpositions
    exact ⟨start, hpositions⟩
  unfold BlocksOnServers
  intro nlocal sorted i hi j hj
  have hin : i * nlocal + j < sorted.length := by
    have := Nat.mul_le_mul_right nlocal (Nat.succ_le_of_lt hi)
    rw [Nat.succ_mul] at this
    rw [hlength, ← hmul]
    exact (Nat.add_lt_add_left hj _).trans_le this
  exact same_server_in_block hm hblock hj hin

/-- Server-regular channels.  For ranks of 64 bits, whatever is returned is server-regular if and only
    if, where the group divides into shifted copies of its first sorted block, each block of the sorted
    ranks lies on one server. -/
theorem ring_channels_server_regular (ranks : List Nat) (serverOf : Nat → Nat)
    (hwidth : ∀ rank ∈ ranks, rank < 2 ^ 64) :
    (∀ channels, simaiRingChannels ranks serverOf = some channels →
      ServerRegular ranks serverOf channels) ↔
      (RepeatsFirst ranks (serversOf ranks serverOf).length → BlocksOnServers ranks serverOf) := by
  constructor
  · intro h hrepeats
    exact blocks_of_serverRegular hrepeats
      (h _ ((simaiRingChannels_eq_some_iff hwidth).2 ⟨hrepeats, rfl⟩))
  · intro h channels hchannels
    obtain ⟨hrepeats, rfl⟩ := (simaiRingChannels_eq_some_iff hwidth).1 hchannels
    exact serverRegular_of_blocks hrepeats (h hrepeats)

theorem ring_channels_server_regular_two :
    simaiRingChannels [0, 1, 4, 5] (· / 4) = some [[0, 1, 4, 5], [1, 0, 5, 4]] ∧
      OneBlock (· / 4) 1 [1, 0, 5, 4] := by
  have h : simaiRingChannels [0, 1, 4, 5] (· / 4) = some [[0, 1, 4, 5], [1, 0, 5, 4]] := by decide
  have hregular := (ring_channels_server_regular [0, 1, 4, 5] (· / 4) (by decide)).2
    (fun _ => by unfold BlocksOnServers; decide) _ h
  exact ⟨h, ((hregular.2.2 [1, 0, 5, 4] (by decide)).2 1 (by decide)).1⟩

/-- Ranks 0 to 3 on servers of three: the group passes as two servers of two. -/
theorem ring_channels_unequal_servers :
    simaiRingChannels [0, 1, 2, 3] (· / 3) = some [[0, 1, 2, 3], [1, 0, 3, 2]] ∧
      ([0, 1, 2, 3].filter (· / 3 = 0)).length = 3 ∧ ([0, 1, 2, 3].filter (· / 3 = 1)).length = 1 := by
  decide

end Days.Aicb
