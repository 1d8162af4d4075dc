/-
  Days.Logic.RingLayout — what an accepted collective looks like.

  Its sources are distinct and as many as its flow count, and each of its ring
  channels is an order of all ranks, so ranks and ring positions determine each
  other.
-/
import Mathlib.Data.List.GetD
import Days.Compile.Stages
import Days.Base.Checked

namespace Days.Compile

open List

variable {r : Nat} {algorithm : CollectiveAlgorithm}

/-! ## §1. Ranks and positions. -/

/-- Later entries leave a place alone that they do not name. -/
theorem foldl_set_getD_of_notMem (entries : List (Nat × Nat)) {places : List Nat} {a : Nat}
    (h : a ∉ entries.map (·.1)) :
    (entries.foldl (fun places entry => places.set entry.1 entry.2) places).getD a 0 =
      places.getD a 0 := by
  induction entries generalizing places with
  | nil => rfl
  | cons entry rest ih =>
    rw [map_cons, mem_cons, not_or] at h
    rw [foldl_cons, ih h.2]
    simp [getD_eq_getElem?_getD, getElem?_set_ne (Ne.symm h.1)]

theorem foldl_set_getD_of_mem (entries : List (Nat × Nat)) {places : List Nat} {a b : Nat}
    (hnodup : (entries.map (·.1)).Nodup) (hmem : (a, b) ∈ entries) (ha : a < places.length) :
    (entries.foldl (fun places entry => places.set entry.1 entry.2) places).getD a 0 = b := by
  induction entries generalizing places with
  | nil => cases hmem
  | cons entry rest ih =>
    rw [map_cons, nodup_cons] at hnodup
    rw [foldl_cons]
    rcases mem_cons.1 hmem with rfl | hmem
    · rw [foldl_set_getD_of_notMem rest hnodup.1]
      simp [getD_eq_getElem?_getD, ha]
    · exact ih hnodup.2 hmem (by simpa using ha)

/-- Every channel orders all ranks. -/
def RingOk (key : CollectiveKey) : Prop :=
  ∀ ring ∈ key.channels, ring.Perm (List.range key.flowCount)

theorem fillPositions_getD {n i : Nat} {order : List Nat} (hperm : order.Perm (range n))
    (hi : i < order.length) : (fillPositions n order).getD order[i] 0 = i := by
  have hfst : order.zipIdx.map (·.1) = order := by simp
  refine foldl_set_getD_of_mem _ ?_ ?_ ?_
  · rw [hfst]
    exact hperm.nodup_iff.2 nodup_range
  · exact mem_zipIdx_iff_getElem?.2 (by simp [hi])
  · rw [length_replicate]
    exact mem_range.1 (hperm.mem_iff.1 (getElem_mem hi))

section Layout

variable [SeededMatrix] {key : CollectiveKey}

section

variable (hring : RingOk key)

include hring

/-- Either the channel is an order of the ranks, or ranks are positions. -/
theorem layout_channel_cases (channel : Nat) :
    (∃ order : List Nat, order.Perm (range key.flowCount) ∧
      (∀ p, (CollectiveLayout.of key).rankAt channel p = order.getD p 0) ∧
      ∀ r, (CollectiveLayout.of key).position channel r =
        (fillPositions key.flowCount order).getD r 0) ∨
    ((∀ p, (CollectiveLayout.of key).rankAt channel p = p) ∧
      ∀ r, (CollectiveLayout.of key).position channel r = r) := by
  by_cases halg : key.algorithm.isRing = true
  · cases hat : key.channels[channel]? with
    | none =>
      refine .inr ⟨fun p => ?_, fun r => ?_⟩
      · simp [CollectiveLayout.rankAt, CollectiveLayout.of, halg, hat]
      · simp [CollectiveLayout.position, CollectiveLayout.of, halg, hat]
    | some order =>
      refine .inl ⟨order, hring order (mem_of_getElem? hat), fun p => ?_, fun r => ?_⟩
      · simp [CollectiveLayout.rankAt, CollectiveLayout.of, halg, hat]
      · simp [CollectiveLayout.position, CollectiveLayout.of, halg, hat]
  · refine .inr ⟨fun p => ?_, fun r => ?_⟩
    · simp [CollectiveLayout.rankAt, CollectiveLayout.of, halg]
    · simp [CollectiveLayout.position, CollectiveLayout.of, halg]

theorem rankAt_lt (channel : Nat) {p : Nat} (hp : p < key.flowCount) :
    (CollectiveLayout.of key).rankAt channel p < key.flowCount := by
  rcases layout_channel_cases hring channel with ⟨order, hperm, hrank, -⟩ | ⟨hrank, -⟩
  · have hlt : p < order.length := by rwa [hperm.length_eq, length_range]
    rw [hrank, getD_eq_getElem _ _ hlt]
    exact mem_range.1 (hperm.mem_iff.1 (getElem_mem hlt))
  · rwa [hrank]

theorem position_rankAt (channel : Nat) {p : Nat} (hp : p < key.flowCount) :
    (CollectiveLayout.of key).position channel ((CollectiveLayout.of key).rankAt channel p) = p := by
  rcases layout_channel_cases hring channel with ⟨order, hperm, hrank, hpos⟩ | ⟨hrank, hpos⟩
  · have hlt : p < order.length := by rwa [hperm.length_eq, length_range]
    rw [hpos, hrank, getD_eq_getElem _ _ hlt, fillPositions_getD hperm hlt]
  · rw [hpos, hrank]

/-- Every rank has a place on the ring. -/
theorem exists_position (channel : Nat) (hr : r < key.flowCount) :
    ∃ p < key.flowCount, (CollectiveLayout.of key).rankAt channel p = r := by
  rcases layout_channel_cases hring channel with ⟨order, hperm, hrank, -⟩ | ⟨hrank, -⟩
  · obtain ⟨p, hp, rfl⟩ := getElem_of_mem (hperm.mem_iff.2 (mem_range.2 hr))
    refine ⟨p, ?_, by rw [hrank, getD_eq_getElem _ _ hp]⟩
    rwa [hperm.length_eq, length_range] at hp
  · exact ⟨r, hr, hrank r⟩

theorem position_lt (channel : Nat) (hr : r < key.flowCount) :
    (CollectiveLayout.of key).position channel r < key.flowCount := by
  obtain ⟨p, hp, rfl⟩ := exists_position hring channel hr
  rwa [position_rankAt hring channel hp]

theorem rankAt_position (channel : Nat) (hr : r < key.flowCount) :
    (CollectiveLayout.of key).rankAt channel ((CollectiveLayout.of key).position channel r) = r := by
  obtain ⟨p, hp, rfl⟩ := exists_position hring channel hr
  rw [position_rankAt hring channel hp]

end

end Layout

/-! ## §2. Acceptance. -/

/-- A collective that the scenario declares, after every check. -/
def Accepted (hosts : List Nat) (key : CollectiveKey) : Prop :=
  ∃ source declared, validateCollective source = .ok declared ∧
    normalizeCollective hosts declared = .ok key

/-- What every stage of an accepted collective relies on. -/
structure CollectiveOk (key : CollectiveKey) : Prop where
  sources : key.sources.length = key.flowCount
  nodup : key.sources.Nodup
  rings : RingOk key
  bytes : key.flowCount ≤ key.totalBytes
  pair : key.algorithm = .sendRecv → key.flowCount = 2

theorem checkParticipants_ok {flowCount : Nat} {sources sinks : List Nat} {hasChannels : Bool}
    (h : checkParticipants algorithm flowCount sources sinks hasChannels = .ok ()) :
    (algorithm = .sendRecv → flowCount = 2) ∧ (sources ≠ [] → sources.length = flowCount) := by
  unfold checkParticipants at h
  by_cases hcount : flowCount = 0 ∨ algorithm = .ringAllReduce ∧ flowCount < 2 ∨
      algorithm = .sendRecv ∧ flowCount ≠ 2
  · rw [if_pos hcount] at h
    cases h
  · rw [if_neg hcount] at h
    refine ⟨fun halg => by_contra fun hne => hcount (.inr (.inr ⟨halg, hne⟩)), fun hne => ?_⟩
    by_contra hlength
    cases hring : algorithm.isRing with
    | false =>
      simp only [hring, if_true] at h
      split at h
      · cases h
      · simp only [hne, hlength, not_false_eq_true, and_self, if_true, ne_eq] at h
        split at h <;> cases h
    | true =>
      cases hchannels : hasChannels with
      | true => simp [hring, hlength, hchannels] at h
      | false =>
        simp [hring, hne, hlength, hchannels] at h
        split at h <;> cases h

theorem ringChannels_ok {sources sinks : List Nat} {chunk : ChunkPolicy}
    {channels : Option (List (List Nat))} {rings : List (List Nat)}
    (h : ringChannels algorithm sources sinks chunk channels = .ok rings) :
    rings = [] ∨ (sources ≠ [] ∧ ∀ ring ∈ rings, ∃ members : List Nat, members.Perm sources ∧
      ring = members.map sources.idxOf) := by
  cases channels with
  | none =>
    cases h
    exact .inl rfl
  | some channels =>
    unfold ringChannels at h
    simp only [bind, Except.bind, pure, Except.pure, throw, throwThe, MonadExceptOf.throw] at h
    split at h
    · cases h
    split at h
    · cases h
    next hsources =>
    split at h
    · cases h
    split at h
    · cases h
    next hsorted =>
    split at h
    · cases h
    cases h
    rw [not_or] at hsources
    refine .inr ⟨hsources.2, fun ring hring => ?_⟩
    obtain ⟨members, hmembers, rfl⟩ := mem_map.1 hring
    refine ⟨members, ?_, rfl⟩
    have heq : members.insertionSort (· ≤ ·) = sources.insertionSort (· ≤ ·) := by
      by_contra hne
      exact hsorted (any_eq_true.2 ⟨members, hmembers, by simpa using hne⟩)
    have hperm := perm_insertionSort (· ≤ ·) members
    rw [heq] at hperm
    exact hperm.symm.trans (perm_insertionSort (· ≤ ·) sources)

theorem checkBytes_ok {flowCount totalBytes : Nat} {transport : String}
    (h : checkBytes algorithm flowCount totalBytes transport = .ok ()) :
    flowCount ≤ totalBytes := by
  unfold checkBytes at h
  simp only [bind, Except.bind, pure, Except.pure, throw, throwThe, MonadExceptOf.throw] at h
  split at h
  · cases h
  split at h
  · cases h
  next hcond =>
  rw [not_or] at hcond
  omega

/-- What `validate_collective` establishes. -/
theorem validateCollective_ok {source : SourceCollective} {key : CollectiveKey}
    (h : validateCollective source = .ok key) :
    checkParticipants key.algorithm key.flowCount key.sources key.sinks source.channels.isSome = .ok () ∧
      key.flowCount ≤ key.totalBytes ∧
      (key.channels = [] ∨ (key.sources ≠ [] ∧ ∀ ring ∈ key.channels, ∃ members : List Nat,
        members.Perm key.sources ∧ ring = members.map key.sources.idxOf)) := by
  obtain ⟨_, hparticipants, h⟩ := bind_ok h
  obtain ⟨_, hbytes, h⟩ := bind_ok h
  obtain ⟨_, -, h⟩ := bind_ok h
  obtain ⟨_, hchannels, h⟩ := bind_ok h
  obtain ⟨_, -, h⟩ := bind_ok h
  obtain ⟨_, -, h⟩ := bind_ok h
  cases h
  exact ⟨hparticipants, checkBytes_ok hbytes, ringChannels_ok hchannels⟩

/-- What the normalization adds: participants, when none were declared. -/
theorem normalizeCollective_ok {hosts : List Nat} {declared key : CollectiveKey}
    (h : normalizeCollective hosts declared = .ok key) :
    key.sources.Nodup ∧ key.flowCount = declared.flowCount ∧ key.totalBytes = declared.totalBytes ∧
      key.algorithm = declared.algorithm ∧ key.channels = declared.channels ∧
      ((declared.sources = [] ∧ key.sources.length = key.flowCount) ∨
        (declared.sources ≠ [] ∧ key.sources = declared.sources)) := by
  obtain ⟨_, hfilled, h⟩ := bind_ok h
  obtain ⟨_, hhosts, h⟩ := bind_ok h
  cases h
  have hnodup : key.sources.Nodup := by
    unfold checkHosts at hhosts
    split at hhosts
    · cases hhosts
    · split at hhosts
      · assumption
      · cases hhosts
  unfold fillParticipants at hfilled
  split at hfilled
  · next hempty =>
    split at hfilled
    · next hlength =>
      cases hfilled
      exact ⟨hnodup, rfl, rfl, rfl, rfl, .inl ⟨hempty, hlength⟩⟩
    · cases hfilled
  · next hne =>
    cases hfilled
    exact ⟨hnodup, rfl, rfl, rfl, rfl, .inr ⟨hne, rfl⟩⟩

theorem map_idxOf_self {l : List Nat} (h : l.Nodup) : l.map l.idxOf = range l.length := by
  refine ext_getElem (by simp) fun i hi hi' => ?_
  rw [getElem_map, getElem_range]
  exact h.idxOf_getElem i (by simpa using hi)

theorem Accepted.ok {hosts : List Nat} {key : CollectiveKey} (h : Accepted hosts key) :
    CollectiveOk key := by
  obtain ⟨source, declared, hvalid, hnormal⟩ := h
  obtain ⟨hparticipants, hbytes, hchannels⟩ := validateCollective_ok hvalid
  obtain ⟨hnodup, hcount, htotal, halgorithm, hsame, hsources⟩ := normalizeCollective_ok hnormal
  obtain ⟨hpair, hlength⟩ := checkParticipants_ok hparticipants
  have hsourcesLength : key.sources.length = key.flowCount := by
    rcases hsources with ⟨-, hall⟩ | ⟨hne, heq⟩
    · exact hall
    · rw [heq, hcount]
      exact hlength hne
  refine ⟨hsourcesLength, hnodup, fun ring hring => ?_, by omega, fun halg => ?_⟩
  · rw [hsame] at hring
    rcases hchannels with hnil | ⟨hne, hrings⟩
    · simp [hnil] at hring
    · obtain ⟨members, hperm, rfl⟩ := hrings ring hring
      rcases hsources with ⟨hempty, -⟩ | ⟨-, heq⟩
      · exact absurd hempty hne
      · rw [← heq] at hperm ⊢
        rw [← hsourcesLength, ← map_idxOf_self hnodup]
        exact hperm.map _
  · rw [hcount]
    exact hpair (halgorithm ▸ halg)

end Days.Compile
