/-
  Days.Logic.StageGraph — compiled stage graphs never deadlock.

  Whatever a stage waits for is itself a stage, at its own host or delivered to
  it, and it ranks lower: an earlier hop of the same ring, or a stage of a group
  that the stage's group follows, directly or through all-to-alls that send
  nothing.
-/
import Mathlib.Algebra.Order.BigOperators.Group.List
import Mathlib.Data.List.MinMax
import Mathlib.SetTheory.Cardinal.Order
import Days.Lib.Release
import Days.Logic.RingData
import Days.Logic.StageCycles

namespace Days.Compile

open List

variable {group : StageGroup} {computes : List ComputeKey} {fuel rank d host : Nat}
  {key : CollectiveKey} {α : Type} {pos : StagePosition}

variable {after names : List String} {k : StageKey} {p' p : Predecessors}
  {earlier rest : List CollectiveKey} {input stage : StageInput} {duplicate id : Nat}
  {name : String} {dedup : Bool} {hosts : List Nat}

/-! ## §1. Resolved groups. -/

section Groups

variable {groups : List (String × StageGroup)}

theorem groupOf_append_singleton {other : String} :
    groupOf (groups ++ [(other, group)]) name =
      (groupOf groups name).or (if name = other then some group else none) := by
  unfold groupOf
  rw [lookup_append]
  congr 1
  by_cases heq : name = other
  · simp [heq]
  · have hne : (name == other) = false := by simpa using heq
    simp [lookup_cons, hne, heq]

/-- Every named group is found under its name. -/
theorem collectGroups_ok {named collected : List (String × StageGroup)}
    (h : collectGroups collected named = .ok groups) :
    groups = collected ++ named ∧
      (∀ name group, groupOf collected name = some group → groupOf groups name = some group) ∧
      ∀ entry ∈ named, groupOf groups entry.1 = some entry.2 := by
  induction named generalizing collected with
  | nil =>
    cases h
    exact ⟨by simp, fun _ _ h => h, by simp⟩
  | cons entry rest ih =>
    obtain ⟨name, group⟩ := entry
    unfold collectGroups at h
    split at h
    · cases h
    · next hnew =>
      obtain ⟨heq, hkept, hrest⟩ := ih h
      have hnone : groupOf collected name = none := by simpa using hnew
      refine ⟨by simpa using heq, fun other g hg => hkept other g ?_, fun entry hentry => ?_⟩
      · rw [groupOf_append_singleton, hg]
        rfl
      · rcases mem_cons.1 hentry with rfl | hentry
        · refine hkept name group ?_
          rw [groupOf_append_singleton, hnone, if_pos rfl]
          rfl
        · exact hrest entry hentry

/-- A group that a dependent may name: if it is a collective, it has stages. -/
def Nameable (groups : List (String × StageGroup)) (name : String) : Prop :=
  ∃ group, groupOf groups name = some group ∧
    ∀ key, group = .collective key → collectiveHasStages key = true

/-- Every listed name may be followed. -/
theorem checkAllListed_ok {d : Dependent} {earlier : List String} {listed : List (List Nat × Bool)}
    (h : checkAllListed groups d earlier names = .ok listed) :
    ∀ name ∈ names, Nameable groups name := by
  induction names generalizing earlier listed with
  | nil => simp
  | cons name rest ih =>
    obtain ⟨_, hone, h⟩ := bind_ok h
    obtain ⟨_, hrest, -⟩ := bind_ok h
    intro other hother
    rcases mem_cons.1 hother with rfl | hother
    · unfold checkListed at hone
      simp only [bind, Except.bind, pure, Except.pure, throw, throwThe, MonadExceptOf.throw] at hone
      split at hone
      · cases hone
      split at hone
      · cases hone
      · next hat => exact ⟨_, hat, by simp⟩
      · next hat =>
        split at hone
        · next hstages =>
          refine ⟨_, hat, fun key heq => ?_⟩
          cases heq
          exact hstages
        · cases hone
    · exact ih hrest other hother

/-- Every name that a group follows may be followed. -/
theorem checkDependents_ok {dependents : List Dependent} (h : checkDependents groups dependents = .ok ()) :
    ∀ d ∈ dependents, ∀ name ∈ d.after, Nameable groups name := by
  induction dependents with
  | nil => simp
  | cons d rest ih =>
    obtain ⟨_, hone, h⟩ := bind_ok h
    intro other hother
    rcases mem_cons.1 hother with rfl | hother
    · unfold checkDependent at hone
      obtain ⟨_, hlisted, -⟩ := bind_ok hone
      exact checkAllListed_ok hlisted
    · exact ih h other hother

/-- What the resolution of the groups establishes. -/
structure Resolved (collectives : List CollectiveKey) (computes : List ComputeKey)
    (groups : List (String × StageGroup)) : Prop where
  named : groups = namedGroups collectives computes
  found : ∀ entry ∈ groups, groupOf groups entry.1 = some entry.2
  collective : ∀ key ∈ collectives, ∀ name ∈ key.after, ∃ group, groupOf groups name = some group ∧
    ∀ other, group = .collective other → collectiveHasStages other = true
  compute : ∀ key ∈ computes, ∀ name ∈ key.after, ∃ group, groupOf groups name = some group ∧
    ∀ other, group = .collective other → collectiveHasStages other = true
  layered : Layered groups

/-- What resolved groups are. -/
theorem resolveStageGroups_ok {collectives : List CollectiveKey}
    (h : resolveStageGroups collectives computes fuel = some (.ok groups)) :
    Resolved collectives computes groups := by
  unfold resolveStageGroups at h
  split at h
  · cases h
  next collected hcollected =>
  split at h
  · cases h
  next hdependents =>
  split at h
  · cases h
  · cases h
  next hcycles =>
  cases h
  obtain ⟨heq, -, hfound⟩ := collectGroups_ok hcollected
  rw [nil_append] at heq
  have hall := checkDependents_ok hdependents
  refine ⟨heq, fun entry hentry => hfound entry (heq ▸ hentry), fun key hkey => ?_,
    fun key hkey => ?_, checkCycles_ok hcycles⟩
  · exact hall key.dependent (mem_append_left _ (mem_map_of_mem hkey))
  · exact hall key.dependent (mem_append_right _ (mem_map_of_mem hkey))

end Groups

/-! ## §2. The stages of a completion. -/

section Completion

variable [SeededMatrix] {key : CollectiveKey} {rank : Nat} {pos : StagePosition}

/-- The position after the one before a rank's is the rank's. -/
theorem next_previous (hring : RingOk key) (channel : Nat) (hrank : rank < key.flowCount) :
    (CollectiveLayout.of key).next channel
      ((CollectiveLayout.of key).previous channel rank key.flowCount) key.flowCount = rank := by
  have hn : 0 < key.flowCount := by omega
  have hlt := position_lt hring channel hrank
  unfold CollectiveLayout.next CollectiveLayout.previous
  rw [position_rankAt hring channel (Nat.mod_lt _ hn), Nat.mod_add_mod,
    Nat.sub_add_cancel (by omega), Nat.add_mod_right, Nat.mod_eq_of_lt hlt,
    rankAt_position hring channel hrank]

/-- The last stages of a ring are among its stages. -/
theorem ringStage_last (hcount : 1 < key.flowCount) (hrank : rank < key.flowCount) {channel : Nat}
    (hchannel : channel < (CollectiveLayout.of key).channels) :
    RingStage key ⟨(ringPhases key.algorithm).getLastD .allGather, channel, rank,
      key.flowCount - 1⟩ := by
  refine ⟨?_, hchannel, hrank, by dsimp only; omega, by dsimp only; omega⟩
  cases key.algorithm <;> simp [ringPhases]

/-- A rank's own last sends are stages that leave from it. -/
theorem mem_completionLocals (hcount : 1 < key.flowCount) (hrank : rank < key.flowCount)
    (h : pos ∈ completionLocals key rank) : pos ∈ stagePositions key ∧ pos.rank = rank := by
  unfold completionLocals at h
  cases halg : key.algorithm with
  | allToAll =>
    simp only [halg] at h
    obtain ⟨step, hstep, rfl⟩ := mem_map.1 h
    refine ⟨?_, rfl⟩
    simp only [stagePositions, halg]
    exact mem_flatMap.2 ⟨rank, mem_range.2 hrank, mem_map_of_mem hstep⟩
  | sendRecv =>
    simp only [halg] at h
    split at h
    · next hzero =>
      rw [mem_singleton] at h
      subst h
      exact ⟨by simp [stagePositions, halg], hzero.symm⟩
    · cases h
  | ringAllReduce | allGather | reduceScatter =>
    simp only [halg] at h
    obtain ⟨channel, hchannel, rfl⟩ := mem_map.1 h
    have hlast := ringStage_last hcount hrank (mem_range.1 hchannel)
    rw [halg] at hlast
    exact ⟨(mem_stagePositions (by rw [halg]; rfl)).2 hlast, rfl⟩

/-- The last messages delivered to a rank are stages that send to it. -/
theorem mem_completionInbound (hok : CollectiveOk key) (hcount : 1 < key.flowCount)
    (hrank : rank < key.flowCount) (h : pos ∈ (completionInbound key rank).map (·.1)) :
    pos ∈ stagePositions key ∧ stageTarget key pos = rank := by
  have hn : 0 < key.flowCount := by omega
  unfold completionInbound at h
  cases halg : key.algorithm with
  | allToAll =>
    simp only [halg, map_map] at h
    obtain ⟨step, hstep, rfl⟩ := mem_map.1 h
    rw [mem_filter, mem_range'_1] at hstep
    obtain ⟨⟨hone, hlt⟩, hbytes⟩ := hstep
    -- Stepping back and forth again returns to the rank.
    have hback : ((rank + key.flowCount - step) % key.flowCount + step) % key.flowCount = rank := by
      rw [Nat.mod_add_mod, Nat.sub_add_cancel (by omega), Nat.add_mod_right, Nat.mod_eq_of_lt hrank]
    refine ⟨?_, ?_⟩
    · simp only [stagePositions, halg, Function.comp_apply]
      refine mem_flatMap.2 ⟨(rank + key.flowCount - step) % key.flowCount,
        mem_range.2 (Nat.mod_lt _ hn), mem_map.2 ⟨step, ?_, rfl⟩⟩
      rw [mem_filter, mem_range'_1, hback]
      exact ⟨⟨hone, hlt⟩, hbytes⟩
    · simp only [stageTarget, halg, Function.comp_apply]
      exact hback
  | sendRecv =>
    have htwo := hok.pair halg
    simp only [halg] at h
    split at h
    · cases h
    · next hne =>
      simp only [map_cons, map_nil, mem_singleton] at h
      subst h
      refine ⟨by simp [stagePositions, halg], ?_⟩
      simp only [stageTarget, halg]
      omega
  | ringAllReduce | allGather | reduceScatter =>
    simp only [halg, map_map] at h
    obtain ⟨channel, hchannel, rfl⟩ := mem_map.1 h
    have hprevious : (CollectiveLayout.of key).previous channel rank key.flowCount < key.flowCount :=
      rankAt_lt hok.rings _ (Nat.mod_lt _ hn)
    have hlast := ringStage_last hcount hprevious (mem_range.1 hchannel)
    rw [halg] at hlast
    refine ⟨(mem_stagePositions (by rw [halg]; rfl)).2 hlast, ?_⟩
    rw [stageTarget_of_ring (by rw [halg]; rfl)]
    exact next_previous hok.rings channel hrank

end Completion

theorem insertKey_mem {keys : List StageKey} {key : StageKey} (h : k ∈ (insertKey keys key dedup).1) :
    k ∈ keys ∨ k = key := by
  unfold insertKey at h
  split at h
  · exact .inl h
  · simpa using h

/-- Local keys are added, inbound ones stay. -/
theorem insertLocals_spec (dedup : Bool) (keys : List StageKey) (p : Predecessors) :
    (∀ k ∈ (insertLocals dedup p keys).localKeys, k ∈ p.localKeys ∨ k ∈ keys) ∧
      (insertLocals dedup p keys).inbound = p.inbound := by
  induction keys generalizing p with
  | nil => exact ⟨fun k hk => .inl hk, rfl⟩
  | cons key rest ih =>
    obtain ⟨hkeys, hinbound⟩ := ih (p.insertLocal key dedup)
    refine ⟨fun k hk => ?_, hinbound⟩
    rcases hkeys k hk with hk | hk
    · exact (insertKey_mem hk).imp id fun heq => by simp [heq]
    · exact .inr (mem_cons_of_mem _ hk)

/-- Inbound keys are added, local ones stay. -/
theorem insertInbounds_ok {entries : List (StageKey × Nat)}
    (h : insertInbounds dedup p entries = .ok p') :
    (∀ k ∈ p'.inbound, k ∈ p.inbound ∨ k ∈ entries.map (·.1)) ∧ p'.localKeys = p.localKeys := by
  induction entries generalizing p with
  | nil =>
    cases h
    exact ⟨fun k hk => .inl hk, rfl⟩
  | cons entry rest ih =>
    obtain ⟨key, bytes⟩ := entry
    obtain ⟨inserted, hinserted, h⟩ := bind_ok h
    obtain ⟨hkeys, hlocals⟩ := ih h
    unfold Predecessors.insertInbound at hinserted
    split at hinserted
    · split at hinserted
      · cases hinserted
        refine ⟨fun k hk => ?_, hlocals⟩
        rcases hkeys k hk with hk | hk
        · exact (insertKey_mem hk).imp id fun heq => by simp [heq]
        · exact .inr (mem_cons_of_mem _ hk)
      · cases hinserted
    · cases hinserted
      exact ⟨fun k hk => (hkeys k hk).imp id fun hk => mem_cons_of_mem _ hk, hlocals⟩

/-! ## §3. Followed groups. -/

/-- The matched rank is the dependent's host. -/
theorem afterRank_host {theirs : List Nat} {r : Nat}
    (h : afterRank hosts theirs rank host = some r) (hhost : hosts[rank]? = some host) :
    theirs[r]? = some host := by
  unfold afterRank at h
  split at h
  · next heq =>
    cases h
    rwa [heq]
  · split at h
    · next hmem =>
      cases h
      exact getElem?_idxOf hmem
    · cases h

section Follow

variable [SeededMatrix] {groups : List (String × StageGroup)} {depth : String → Nat}

/-- Known groups below a depth; the collectives among them have stages. -/
def Listed (groups : List (String × StageGroup)) (depth : String → Nat) (d : Nat)
    (names : List String) : Prop :=
  ∀ name ∈ names, depth name < d ∧ ∃ group, groupOf groups name = some group ∧
    ∀ key, group = .collective key → collectiveHasStages key = true

/-- A collective that a stage may follow. -/
structure Followable (groups : List (String × StageGroup)) (depth : String → Nat) (name : String)
    (key : CollectiveKey) : Prop where
  found : groupOf groups name = some (.collective key)
  stages : collectiveHasStages key = true
  ok : CollectiveOk key
  after : Listed groups depth (depth name) key.after

/-- A stage at `host`, of a group below depth `d`. -/
inductive OwnKey (plan : StagePlan) (depth : String → Nat) (d host : Nat) : StageKey → Prop
  | compute {name : String} {key : ComputeKey} {rank : Nat}
      (found : groupOf plan.groups name = some (.compute key)) (below : depth name < d)
      (at_host : key.hosts[rank]? = some host) :
      OwnKey plan depth d host (.computeStage (plan.computeOrdinal key) rank)
  | collective {name : String} {key : CollectiveKey} {pos : StagePosition}
      (followable : Followable plan.groups depth name key) (below : depth name < d)
      (stage : pos ∈ stagePositions key) (at_host : key.sources[pos.rank]? = some host) :
      OwnKey plan depth d host (.collectiveStage (plan.collectiveOrdinal key) 0 pos)

/-- A stage that sends to `host`, of a collective below depth `d`. -/
inductive InboundKey (plan : StagePlan) (depth : String → Nat) (d host : Nat) : StageKey → Prop
  | collective {name : String} {key : CollectiveKey} {pos : StagePosition}
      (followable : Followable plan.groups depth name key) (below : depth name < d)
      (stage : pos ∈ stagePositions key) (at_host : key.sources[stageTarget key pos]? = some host) :
      InboundKey plan depth d host (.collectiveStage (plan.collectiveOrdinal key) 0 pos)

/-- What an entry at `host` may wait for. -/
structure EntryOk (plan : StagePlan) (depth : String → Nat) (d host : Nat) (p : Predecessors) :
    Prop where
  own : ∀ k ∈ p.localKeys, OwnKey plan depth d host k
  inbound : ∀ k ∈ p.inbound, InboundKey plan depth d host k

variable {plan : StagePlan} {d host : Nat}

/-- A completion adds stages of its collective, then what a release adds. -/
theorem collectiveCompletion_ok {release : Predecessors → Option (Except CompileError Predecessors)}
    (h : collectiveCompletion plan key rank dedup release p = some (.ok p'))
    (hkey : Followable plan.groups depth name key) (hbelow : depth name < d)
    (hhost : key.sources[rank]? = some host) (hp : EntryOk plan depth d host p)
    (hrelease : ∀ p, EntryOk plan depth d host p → release p = some (.ok p') →
      EntryOk plan depth d host p') : EntryOk plan depth d host p' := by
  have hcount : 1 < key.flowCount := by simpa [collectiveHasStages] using hkey.stages
  have hrank : rank < key.flowCount := by
    rw [← hkey.ok.sources]
    exact (List.getElem?_eq_some_iff.1 hhost).1
  unfold collectiveCompletion at h
  dsimp only at h
  split at h
  · cases h
  next inserted hinserted =>
  obtain ⟨hlocals, hsame⟩ := insertLocals_spec dedup
    ((completionLocals key rank).map (StageKey.collectiveStage (plan.collectiveOrdinal key) 0)) p
  obtain ⟨hinbound, hkept⟩ := insertInbounds_ok hinserted
  have hentry : EntryOk plan depth d host inserted := by
    refine ⟨fun k hk => ?_, fun k hk => ?_⟩
    · rw [hkept] at hk
      rcases hlocals k hk with hk | hk
      · exact hp.own k hk
      · obtain ⟨pos, hpos, rfl⟩ := mem_map.1 hk
        obtain ⟨hstage, heq⟩ := mem_completionLocals hcount hrank hpos
        exact .collective hkey hbelow hstage (by rwa [heq])
    · rcases hinbound k hk with hk | hk
      · rw [hsame] at hk
        exact hp.inbound k hk
      · rw [map_map] at hk
        obtain ⟨entry, hentry, rfl⟩ := mem_map.1 hk
        obtain ⟨hstage, heq⟩ := mem_completionInbound hkey.ok hcount hrank (mem_map_of_mem hentry)
        exact .collective hkey hbelow hstage (by rwa [heq])
  split at h
  · exact hrelease inserted hentry h
  · cases h
    exact hentry

/-- What `followGroups` adds: stages of the groups it follows, at the host or delivered to it. -/
theorem followGroups_ok (hfollow : ∀ name key, groupOf plan.groups name = some (.collective key) →
      collectiveHasStages key = true → Followable plan.groups depth name key) {direct : List String}
    {skip : List String}
    (h : followGroups plan direct fuel hosts names rank host skip dedup p = some (.ok p'))
    (hnames : Listed plan.groups depth d names) (hhost : hosts[rank]? = some host)
    (hp : EntryOk plan depth d host p) : EntryOk plan depth d host p' := by
  induction fuel generalizing hosts names skip rank dedup p p' with
  | zero => cases h
  | succ fuel ih =>
    cases names with
    | nil =>
      cases h
      exact hp
    | cons name names =>
      have hrest : Listed plan.groups depth d names :=
        fun other hother => hnames other (mem_cons_of_mem _ hother)
      obtain ⟨hbelow, group, hgroup, hstages⟩ := hnames name mem_cons_self
      unfold followGroups at h
      dsimp only at h
      split at h
      · next p₁ hfollowed =>
        refine ih h hrest hhost ?_
        split at hfollowed
        · cases hfollowed
          exact hp
        · rw [hgroup] at hfollowed
          dsimp only at hfollowed
          split at hfollowed
          · cases hfollowed
            exact hp
          · next theirs htheirs =>
            have hat := afterRank_host htheirs hhost
            cases group with
            | compute key =>
              cases hfollowed
              refine ⟨fun k hk => ?_, hp.inbound⟩
              rcases insertKey_mem hk with hk | rfl
              · exact hp.own k hk
              · exact .compute hgroup hbelow hat
            | collective key =>
              have hkey := hfollow name key hgroup (hstages key rfl)
              refine collectiveCompletion_ok hfollowed hkey hbelow hat hp fun p hp hrelease => ?_
              -- The release starts at the same host, one group further down.
              have hsame : key.sources.getD theirs 0 = host := by
                rw [getD_eq_getElem?_getD, show key.sources[theirs]? = some host from hat]
                rfl
              rw [hsame] at hrelease
              refine ih hrelease (fun other hother => ?_) hat hp
              obtain ⟨hlt, hknown⟩ := hkey.after other hother
              exact ⟨by omega, hknown⟩
      · next hother => exact absurd h (hother p')

/-- With enough fuel, following known groups comes to an end. -/
theorem followGroups_total {longest : Nat}
    (hafter : ∀ name key, groupOf plan.groups name = some (.collective key) →
      key.after.length ≤ longest ∧
        (collectiveHasStages key = true → Listed plan.groups depth (depth name) key.after))
    {direct : List String} {skip : List String}
    (hnames : Listed plan.groups depth d names) (hfuel : names.length + d * (longest + 1) < fuel) :
    followGroups plan direct fuel hosts names rank host skip dedup p ≠ none := by
  induction fuel generalizing hosts names skip rank host dedup p d with
  | zero => omega
  | succ fuel ih =>
    cases names with
    | nil => simp [followGroups]
    | cons name names =>
      have hrest : Listed plan.groups depth d names :=
        fun other hother => hnames other (mem_cons_of_mem _ hother)
      rw [length_cons] at hfuel
      obtain ⟨hbelow, group, hgroup, hstages⟩ := hnames name mem_cons_self
      unfold followGroups
      dsimp only
      split
      · exact ih hrest (by omega)
      · next hother =>
        -- Neither skipped, nor unmatched, nor a compute group: the release is the one recursion.
        intro hnone
        split at hnone
        · cases hnone
        rw [hgroup] at hnone
        dsimp only at hnone
        split at hnone
        · cases hnone
        next theirs _ =>
        cases group with
        | compute key => cases hnone
        | collective key =>
          obtain ⟨hlong, hlisted⟩ := hafter name key hgroup
          have hdeeper : (depth name + 1) * (longest + 1) ≤ d * (longest + 1) :=
            Nat.mul_le_mul_right _ hbelow
          rw [Nat.add_mul, Nat.one_mul] at hdeeper
          dsimp only [collectiveCompletion] at hnone
          split at hnone
          · cases hnone
          · split at hnone
            · exact ih (hlisted (hstages key rfl)) (by omega) hnone
            · cases hnone

end Follow

/-! ## §4. Where the stages of a scenario are. -/

section Expanded

variable {plan : StagePlan} {fuel : Nat} {stages : List StageInput}

/-- Every listed item has its stage. -/
theorem expandEach_complete {stage : α → Option (Except CompileError StageInput)}
    {l : List α} (h : expandEach stage l = some (.ok stages)) {a : α} (ha : a ∈ l) :
    ∃ input ∈ stages, stage a = some (.ok input) := by
  have hall := expandEach_ok h
  clear h
  induction hall with
  | nil => cases ha
  | cons hstage _ ih =>
    rcases mem_cons.1 ha with rfl | ha
    · exact ⟨_, mem_cons_self, hstage⟩
    · obtain ⟨input, hinput, hstage⟩ := ih ha
      exact ⟨input, mem_cons_of_mem _ hinput, hstage⟩

/-- Two parts that are expanded one after the other. -/
theorem expandParts_ok {first others : Option (Except CompileError (List StageInput))}
    (h : (match first with
      | some (.ok stages) =>
        match others with
        | some (.ok rest) => some (.ok (stages ++ rest))
        | other => other
      | other => other) = some (.ok stages)) :
    ∃ inputs rest, first = some (.ok inputs) ∧ others = some (.ok rest) ∧ stages = inputs ++ rest := by
  split at h
  · next inputs =>
    split at h
    · next rest =>
      cases h
      exact ⟨inputs, rest, rfl, rfl, rfl⟩
    · next hother => exact absurd h (hother stages)
  · next hother => exact absurd h (hother stages)

variable [SeededMatrix]

section Collectives

variable [LinearOrder CollectiveKey]

/-- Every message comes from a collective. -/
theorem expandCollectives_mem (h : expandCollectives plan fuel earlier rest = some (.ok stages))
    (hinput : input ∈ stages) :
    ∃ key ∈ rest, ∃ duplicate inputs,
      expandCollective plan fuel key (plan.collectiveOrdinal key) duplicate = some (.ok inputs) ∧
        input ∈ inputs ∧ ∀ other ∈ inputs, other ∈ stages := by
  induction rest generalizing earlier stages with
  | nil =>
    cases h
    cases hinput
  | cons key rest ih =>
    obtain ⟨inputs, others, hinputs, hothers, rfl⟩ := expandParts_ok h
    rcases mem_append.1 hinput with hinput | hinput
    · exact ⟨key, mem_cons_self, _, inputs, hinputs, hinput,
        fun other hother => mem_append_left _ hother⟩
    · obtain ⟨found, hfound, duplicate, inputs, hexpand, hmem, hsub⟩ := ih hothers hinput
      exact ⟨found, mem_cons_of_mem _ hfound, duplicate, inputs, hexpand, hmem,
        fun other hother => mem_append_right _ (hsub other hother)⟩

/-- The first of equal collectives has no duplicate ordinal. -/
theorem expandCollectives_complete
    (h : expandCollectives plan fuel earlier rest = some (.ok stages))
    (hkey : key ∈ rest) (hnew : key ∉ earlier) :
    ∃ inputs, expandCollective plan fuel key (plan.collectiveOrdinal key) 0 = some (.ok inputs) ∧
      ∀ input ∈ inputs, input ∈ stages := by
  induction rest generalizing earlier stages with
  | nil => cases hkey
  | cons first rest ih =>
    obtain ⟨inputs, others, hinputs, hothers, rfl⟩ := expandParts_ok h
    by_cases heq : key = first
    · subst heq
      rw [count_eq_zero_of_not_mem hnew] at hinputs
      exact ⟨inputs, hinputs, fun input hinput => mem_append_left _ hinput⟩
    · have hrest := (mem_cons.1 hkey).resolve_left heq
      obtain ⟨found, hfound, hsub⟩ := ih hothers hrest (by simp [heq, hnew])
      exact ⟨found, hfound, fun input hinput => mem_append_right _ (hsub input hinput)⟩

end Collectives

/-- Every timer comes from a compute group. -/
theorem expandComputes_mem
    (h : expandComputes plan fuel id computes = some (.ok stages)) (hinput : input ∈ stages) :
    ∃ i key rank, computes[i]? = some key ∧ rank < key.hosts.length ∧
      computeStage plan fuel key (id + i) rank = some (.ok input) := by
  induction computes generalizing id stages with
  | nil =>
    cases h
    cases hinput
  | cons key rest ih =>
    obtain ⟨inputs, others, hinputs, hothers, rfl⟩ := expandParts_ok h
    rcases mem_append.1 hinput with hinput | hinput
    · obtain ⟨rank, hrank, hstage⟩ := expandEach_mem hinputs hinput
      exact ⟨0, key, rank, rfl, mem_range.1 hrank, hstage⟩
    · obtain ⟨i, other, rank, hother, hrank, hstage⟩ := ih hothers hinput
      refine ⟨i + 1, other, rank, hother, hrank, ?_⟩
      rwa [Nat.add_right_comm] at hstage

/-- Every rank of a compute group has its timer. -/
theorem expandComputes_complete {i : Nat}
    (h : expandComputes plan fuel id computes = some (.ok stages)) {key : ComputeKey}
    (hkey : computes[i]? = some key) (hrank : rank < key.hosts.length) :
    ∃ input ∈ stages, computeStage plan fuel key (id + i) rank = some (.ok input) := by
  induction computes generalizing id i stages with
  | nil => cases hkey
  | cons first rest ih =>
    obtain ⟨inputs, others, hinputs, hothers, rfl⟩ := expandParts_ok h
    cases i with
    | zero =>
      cases hkey
      obtain ⟨input, hinput, hstage⟩ := expandEach_complete hinputs (mem_range.2 hrank)
      exact ⟨input, mem_append_left _ hinput, hstage⟩
    | succ i =>
      obtain ⟨input, hinput, hstage⟩ := ih hothers hkey
      refine ⟨input, mem_append_right _ hinput, ?_⟩
      rwa [Nat.add_right_comm] at hstage

theorem expandCollective_ok {collective : Nat}
    (h : expandCollective plan fuel key collective duplicate = some (.ok stages)) :
    (collectiveHasStages key = false ∨ key.totalBytes = 0) ∧ stages = [] ∨
      expandEach (collectiveStage plan fuel key collective duplicate) (stagePositions key) =
        some (.ok stages) := by
  unfold expandCollective at h
  split at h
  · next hnone =>
    cases h
    exact .inl ⟨hnone, rfl⟩
  · split at h
    · exact .inr h
    · cases h
    · cases h

theorem computeStage_ok {key : ComputeKey} {compute : Nat}
    (h : computeStage plan fuel key compute rank = some (.ok input)) :
    input.key = .computeStage compute rank ∧ input.source = key.hosts.getD rank 0 ∧
      entryPredecessors plan fuel key.hosts key.after rank input.source =
        some (.ok input.predecessors) := by
  unfold computeStage at h
  dsimp only at h
  split at h
  · next hentry =>
    cases h
    exact ⟨rfl, rfl, hentry⟩
  · cases h
  · cases h

end Expanded

/-! ## §5. The stage graph. -/

section Graph

variable {collectives : List CollectiveKey} {computes : List ComputeKey} {stages : List StageInput}

def Predecessors.keys (p : Predecessors) : List StageKey := p.localKeys ++ p.inbound

/-- One stage waits for another. -/
def Precedes (stages : List StageInput) (before stage : StageInput) : Prop :=
  before ∈ stages ∧ stage ∈ stages ∧ before.key ∈ stage.predecessors.keys

/-- Released stages complete one by one, in any order. -/
inductive Completes (stages : List StageInput) : List StageInput → Prop
  | none : Completes stages []
  | next {done : List StageInput} {stage : StageInput} (run : Completes stages done)
      (member : stage ∈ stages) (fresh : stage ∉ done)
      (released : ∀ k ∈ stage.predecessors.keys, ∃ before ∈ done, before.key = k) :
      Completes stages (stage :: done)

/-- Each stage completes once. -/
theorem Completes.nodup_subset {done : List StageInput} (h : Completes stages done) :
    done.Nodup ∧ done ⊆ stages := by
  induction h with
  | none => exact ⟨nodup_nil, by simp⟩
  | next _ member fresh _ ih =>
    exact ⟨nodup_cons.2 ⟨fresh, ih.1⟩, cons_subset.2 ⟨member, ih.2⟩⟩

/-- The depth of a group from those it follows. -/
def afterDepth (depth : String → Nat) (after : List String) : Nat :=
  (after.map fun name => depth name + 1).foldr max 0

theorem lt_afterDepth (depth : String → Nat) (h : name ∈ after) :
    depth name < afterDepth depth after := by
  unfold afterDepth
  exact Nat.lt_of_succ_le (le_max_of_le (mem_map_of_mem h) le_rfl)

theorem afterDepth_le {depth : String → Nat} (h : ∀ name ∈ after, depth name < d) :
    afterDepth depth after ≤ d := by
  unfold afterDepth
  exact max_le_of_forall_le _ _ (forall_mem_map.2 h)

theorem Resolved.mem_keys {groups : List (String × StageGroup)} (h : Resolved collectives computes groups)
    (hgroup : groupOf groups name = some group) :
    match group with
    | .collective key => key ∈ collectives
    | .compute key => key ∈ computes := by
  have hmem := mem_of_groupOf hgroup
  rw [h.named] at hmem
  rcases mem_append.1 hmem with hmem | hmem
  · obtain ⟨other, hother, heq⟩ := mem_filterMap.1 hmem
    obtain ⟨_, -, heq⟩ := Option.map_eq_some_iff.1 heq
    cases heq
    exact hother
  · obtain ⟨other, hother, heq⟩ := mem_map.1 hmem
    cases heq
    exact hother

/-- A group lies deeper than those it follows. -/
theorem after_lt {groups : List (String × StageGroup)} {depth : String → Nat}
    (hdepth : ∀ name ∈ groups.map (·.1), ∀ a ∈ afterOf groups name, depth a < depth name)
    (hgroup : groupOf groups name = some group) : ∀ a ∈ group.after, depth a < depth name := by
  intro a ha
  refine hdepth name (mem_map_of_mem (f := Prod.fst) (mem_of_groupOf hgroup)) a ?_
  rwa [afterOf, hgroup]

theorem collectiveTable_idxOf [LinearOrder CollectiveKey] (h : key ∈ collectives) :
    (collectiveTable collectives)[(collectiveTable collectives).idxOf key]? = some key :=
  getElem?_idxOf (mem_dedup.2 ((mem_insertionSort _).2 h))

variable [SeededMatrix] [LinearOrder CollectiveKey] [LinearOrder ComputeKey]

/-- Groups first, then the hops of a ring. -/
def stageRank (depth : String → Nat) (collectives : List CollectiveKey) (computes : List ComputeKey) :
    StageKey → Nat ×ₗ Nat
  | .collectiveStage collective _ pos =>
    match (collectiveTable collectives)[collective]? with
    | some key => toLex (afterDepth depth key.after, pos.hop key)
    | none => toLex (0, 0)
  | .computeStage compute _ =>
    match computes[compute]? with
    | some key => toLex (afterDepth depth key.after, 0)
    | none => toLex (0, 0)

theorem canonicalStages_ok (h : canonicalStages collectives computes fuel = some (.ok stages)) :
    ∃ groups messages timers, Resolved collectives computes groups ∧
      expandCollectives (planOf groups collectives computes) fuel [] collectives = some (.ok messages) ∧
      expandComputes (planOf groups collectives computes) fuel 0 computes = some (.ok timers) ∧
      stages = messages ++ timers := by
  unfold canonicalStages at h
  split at h
  · cases h
  · cases h
  next groups hgroups =>
  split at h
  · cases h
  obtain ⟨messages, timers, hmessages, htimers, rfl⟩ := expandParts_ok h
  exact ⟨groups, messages, timers, resolveStageGroups_ok hgroups, hmessages, htimers, rfl⟩

/-- The stages of one scenario, with the groups' depths. -/
structure Expanded (collectives : List CollectiveKey) (computes : List ComputeKey)
    (stages : List StageInput) (groups : List (String × StageGroup)) (depth : String → Nat) :
    Prop where
  resolved : Resolved collectives computes groups
  ok : ∀ key ∈ collectives, CollectiveOk key
  depth : ∀ name ∈ groups.map (·.1), ∀ a ∈ afterOf groups name, depth a < depth name
  expanded : ∃ fuel messages timers,
    expandCollectives (planOf groups collectives computes) fuel [] collectives = some (.ok messages) ∧
    expandComputes (planOf groups collectives computes) fuel 0 computes = some (.ok timers) ∧
    stages = messages ++ timers

namespace Expanded

variable {groups : List (String × StageGroup)} {depth : String → Nat}

section

variable (h : Expanded collectives computes stages groups depth)

include h

theorem followable (name : String)
    (key : CollectiveKey) (hgroup : groupOf groups name = some (.collective key))
    (hstages : collectiveHasStages key = true) : Followable groups depth name key := by
  have hkey := h.resolved.mem_keys hgroup
  exact ⟨hgroup, hstages, h.ok key hkey, fun a ha =>
    ⟨after_lt h.depth hgroup a ha, h.resolved.collective key hkey a ha⟩⟩

/-- What an entry of the scenario waits for. -/
theorem entry
    (hentry : entryPredecessors (planOf groups collectives computes) fuel hosts after rank host =
      some (.ok p)) (hafter : ∀ name ∈ after, Nameable groups name)
    (hhost : hosts[rank]? = some host) :
    EntryOk (planOf groups collectives computes) depth (afterDepth depth after) host p := by
  refine followGroups_ok h.followable hentry (fun name hname => ?_) hhost ⟨by simp [Predecessors.none],
    by simp [Predecessors.none]⟩
  exact ⟨lt_afterDepth depth hname, hafter name hname⟩

/-- The stage of a followed collective is in the scenario. -/
theorem exists_message (hkey : Followable groups depth name key) (hpos : pos ∈ stagePositions key) :
    ∃ stage ∈ stages, stage.key = .collectiveStage ((collectiveTable collectives).idxOf key) 0 pos ∧
      stage.source = key.sources.getD pos.rank 0 ∧
      stage.target = key.sources.getD (stageTarget key pos) 0 := by
  obtain ⟨fuel, messages, timers, hmessages, -, rfl⟩ := h.expanded
  obtain ⟨inputs, hinputs, hsub⟩ := expandCollectives_complete hmessages
    (h.resolved.mem_keys hkey.found) (by simp)
  have hcount : 1 < key.flowCount := by simpa [collectiveHasStages] using hkey.stages
  have hbytes := hkey.ok.bytes
  rcases expandCollective_ok hinputs with ⟨hnone | hnone, -⟩ | heach
  · rw [hkey.stages] at hnone
    cases hnone
  · omega
  · obtain ⟨stage, hstage, hmade⟩ := expandEach_complete heach hpos
    obtain ⟨hk, hsource, htarget, -⟩ := collectiveStage_ok hmade
    exact ⟨stage, mem_append_left _ (hsub stage hstage), hk, hsource, htarget⟩

/-- Messages lie below the groups that follow them. -/
theorem message_lt (hkey : Followable groups depth name key) (hbelow : depth name < d) :
    (ofLex (stageRank depth collectives computes
      (.collectiveStage ((collectiveTable collectives).idxOf key) duplicate pos))).1 < d := by
  have hle := afterDepth_le (after_lt h.depth hkey.found)
  simp only [stageRank, collectiveTable_idxOf (h.resolved.mem_keys hkey.found)]
  exact lt_of_le_of_lt hle hbelow

/-- Every entry predecessor is a stage of the scenario at a smaller depth. -/
theorem own_stage (hk : OwnKey (planOf groups collectives computes) depth d host k) :
    (∃ stage ∈ stages, stage.key = k ∧ stage.source = host) ∧
      (ofLex (stageRank depth collectives computes k)).1 < d := by
  cases hk with
  | @compute name key rank found below at_host =>
    have hkey := h.resolved.mem_keys found
    have hat : computes[computes.idxOf key]? = some key := getElem?_idxOf hkey
    constructor
    · obtain ⟨fuel, messages, timers, -, htimers, rfl⟩ := h.expanded
      obtain ⟨stage, hstage, hmade⟩ := expandComputes_complete htimers hat
        (List.getElem?_eq_some_iff.1 at_host).1
      obtain ⟨hkey, hsource, -⟩ := computeStage_ok hmade
      rw [Nat.zero_add] at hkey
      rw [getD_eq_getElem?_getD, at_host] at hsource
      exact ⟨stage, mem_append_right _ hstage, hkey, hsource⟩
    · have hle := afterDepth_le (after_lt h.depth found)
      simp only [stageRank, planOf, hat]
      exact lt_of_le_of_lt hle below
  | @collective name key pos followable below stage at_host =>
    refine ⟨?_, h.message_lt followable below⟩
    obtain ⟨stage, hstage, hkey, hsource, -⟩ := h.exists_message followable stage
    rw [getD_eq_getElem?_getD, at_host] at hsource
    exact ⟨stage, hstage, hkey, hsource⟩

/-- An inbound key names a stage into the host. -/
theorem inbound_stage (hk : InboundKey (planOf groups collectives computes) depth d host k) :
    (∃ stage ∈ stages, stage.key = k ∧ stage.target = host) ∧
      (ofLex (stageRank depth collectives computes k)).1 < d := by
  cases hk with
  | @collective name key pos followable below stage at_host =>
    refine ⟨?_, h.message_lt followable below⟩
    obtain ⟨stage, hstage, hkey, -, htarget⟩ := h.exists_message followable stage
    rw [getD_eq_getElem?_getD, at_host] at htarget
    exact ⟨stage, hstage, hkey, htarget⟩

end

end Expanded

/-- What a stage waits for is in the scenario, at the stage's host, and ranks lower. -/
structure Placed (rank : StageKey → Nat ×ₗ Nat) (stages : List StageInput) (stage : StageInput) :
    Prop where
  own : ∀ k ∈ stage.predecessors.localKeys,
    (∃ before ∈ stages, before.key = k ∧ before.source = stage.source) ∧ rank k < rank stage.key
  inbound : ∀ k ∈ stage.predecessors.inbound,
    (∃ before ∈ stages, before.key = k ∧ before.target = stage.source) ∧ rank k < rank stage.key

namespace Expanded

variable {groups : List (String × StageGroup)} {depth : String → Nat}

/-- A stage whose predecessors lie below it is placed. -/
theorem placed_of_entry (h : Expanded collectives computes stages groups depth) {hop : Nat}
    (hrank : stageRank depth collectives computes stage.key = toLex (d, hop))
    (hentry : EntryOk (planOf groups collectives computes) depth d stage.source stage.predecessors) :
    Placed (stageRank depth collectives computes) stages stage := by
  refine ⟨fun k hk => ?_, fun k hk => ?_⟩
  · obtain ⟨hstage, hlt⟩ := h.own_stage (hentry.own k hk)
    refine ⟨hstage, ?_⟩
    rw [hrank]
    exact Prod.Lex.lt_iff.2 (.inl hlt)
  · obtain ⟨hstage, hlt⟩ := h.inbound_stage (hentry.inbound k hk)
    refine ⟨hstage, ?_⟩
    rw [hrank]
    exact Prod.Lex.lt_iff.2 (.inl hlt)

end Expanded

omit [LinearOrder CollectiveKey] [LinearOrder ComputeKey] in
/-- A stage's own predecessor on the ring is the other one, at the stage's rank. -/
theorem ringPredecessors_own {own prev : StagePosition}
    (h : ringPredecessors key pos = some (own, prev)) :
    key.algorithm.isRing = true ∧ own = { prev with rank := pos.rank } := by
  unfold ringPredecessors at h
  split at h
  · cases h
  next hring =>
  refine ⟨by simpa using hring, ?_⟩
  split at h
  · cases h
    rfl
  · split at h
    · cases h
      rfl
    · cases h

omit [LinearOrder CollectiveKey] [LinearOrder ComputeKey] in
theorem stagePositions_rank_lt (hok : CollectiveOk key)
    (h : pos ∈ stagePositions key) : pos.rank < key.flowCount := by
  cases halg : key.algorithm with
  | allToAll =>
    simp only [stagePositions, halg] at h
    obtain ⟨rank, hrank, h⟩ := mem_flatMap.1 h
    obtain ⟨step, -, rfl⟩ := mem_map.1 h
    exact mem_range.1 hrank
  | sendRecv =>
    have htwo := hok.pair halg
    simp only [stagePositions, halg, mem_singleton] at h
    subst h
    dsimp only
    omega
  | ringAllReduce | allGather | reduceScatter =>
    exact ((mem_stagePositions (by rw [halg]; rfl)).1 h).rank

namespace Expanded

variable {groups : List (String × StageGroup)} {depth : String → Nat}

/-- The stages of one collective. -/
theorem placed_message (h : Expanded collectives computes stages groups depth)
    (hkey : key ∈ collectives) {inputs : List StageInput}
    (heach : expandEach (collectiveStage (planOf groups collectives computes) fuel key
      ((collectiveTable collectives).idxOf key) duplicate) (stagePositions key) = some (.ok inputs))
    (hsub : ∀ input ∈ inputs, input ∈ stages) (hstage : stage ∈ inputs) :
    Placed (stageRank depth collectives computes) stages stage := by
  have hok := h.ok key hkey
  have hat := collectiveTable_idxOf hkey
  obtain ⟨pos, hpos, hmade⟩ := expandEach_mem heach hstage
  obtain ⟨hk, hsource, htarget, -, hpred⟩ := collectiveStage_ok hmade
  have hrank (pos : StagePosition) : stageRank depth collectives computes
      (.collectiveStage ((collectiveTable collectives).idxOf key) duplicate pos) =
        toLex (afterDepth depth key.after, pos.hop key) := by
    simp only [stageRank, hat]
  split at hpred
  · next own prev hring =>
    obtain ⟨halg, hown⟩ := ringPredecessors_own hring
    have hposring := (mem_stagePositions halg).1 hpos
    obtain ⟨hprevring, hchannel, hchunk, hhop⟩ := hposring.previous halg hok.rings hring
    have hownring : RingStage key own := by
      rw [hown]
      exact ⟨hprevring.phase, hprevring.channel, hposring.rank, hprevring.begun, hprevring.step⟩
    have hownhop : own.hop key = prev.hop key := by rw [hown]; rfl
    obtain ⟨before, hbefore, hbeforeMade⟩ := expandEach_complete heach
      ((mem_stagePositions halg).2 hownring)
    obtain ⟨hbeforeKey, hbeforeSource, -⟩ := collectiveStage_ok hbeforeMade
    obtain ⟨inbound, hinbound, hinboundMade⟩ := expandEach_complete heach
      ((mem_stagePositions halg).2 hprevring)
    obtain ⟨hinboundKey, -, hinboundTarget, -⟩ := collectiveStage_ok hinboundMade
    -- The hop before ends where this one starts.
    have htargetRank : stageTarget key prev = pos.rank := by
      rw [hprevring.target_eq halg hok.rings, hchannel, hchunk, hhop,
        ← hposring.rank_eq hok.rings]
    have hbelow (earlier : StagePosition) (hearlier : earlier.hop key < pos.hop key) :
        stageRank depth collectives computes
          (.collectiveStage ((collectiveTable collectives).idxOf key) duplicate earlier) <
            stageRank depth collectives computes stage.key := by
      rw [hk, hrank, hrank]
      exact Prod.Lex.lt_iff.2 (.inr ⟨rfl, hearlier⟩)
    refine ⟨fun k hkmem => ?_, fun k hkmem => ?_⟩
    · rw [hpred, mem_singleton] at hkmem
      subst hkmem
      refine ⟨⟨before, hsub before hbefore, hbeforeKey, ?_⟩, hbelow own (by omega)⟩
      rw [hbeforeSource, hsource, hown]
    · rw [hpred, mem_singleton] at hkmem
      subst hkmem
      refine ⟨⟨inbound, hsub inbound hinbound, hinboundKey, ?_⟩, hbelow prev (by omega)⟩
      rw [hinboundTarget, hsource, htargetRank]
  · next hroot =>
    have hlt : pos.rank < key.sources.length := by
      rw [hok.sources]
      exact stagePositions_rank_lt hok hpos
    have hhost : key.sources[pos.rank]? = some stage.source := by
      rw [hsource, getD_eq_getElem _ _ hlt, getElem?_eq_getElem hlt]
    refine h.placed_of_entry ((congrArg _ hk).trans (hrank pos)) ?_
    exact h.entry hpred (h.resolved.collective key hkey) hhost

theorem placed (h : Expanded collectives computes stages groups depth) (hstage : stage ∈ stages) :
    Placed (stageRank depth collectives computes) stages stage := by
  obtain ⟨fuel, messages, timers, hmessages, htimers, heq⟩ := h.expanded
  rw [heq] at hstage
  rcases mem_append.1 hstage with hmessage | htimer
  · obtain ⟨key, hkey, duplicate, inputs, hinputs, hmem, hsub⟩ := expandCollectives_mem hmessages hmessage
    rcases expandCollective_ok hinputs with ⟨-, rfl⟩ | heach
    · cases hmem
    · refine h.placed_message hkey heach (fun input hinput => ?_) hmem
      rw [heq]
      exact mem_append_left _ (hsub input hinput)
  · obtain ⟨i, key, rank, hkey, hrank, hmade⟩ := expandComputes_mem htimers htimer
    obtain ⟨hk, hsource, hentry⟩ := computeStage_ok hmade
    rw [Nat.zero_add] at hk
    have hhost : key.hosts[rank]? = some stage.source := by
      rw [hsource, getD_eq_getElem _ _ hrank, getElem?_eq_getElem hrank]
    have hplace : stageRank depth collectives computes stage.key =
        toLex (afterDepth depth key.after, 0) := by
      rw [hk]
      simp only [stageRank, hkey]
    refine h.placed_of_entry hplace ?_
    exact h.entry hentry (h.resolved.compute key (mem_of_getElem? hkey)) hhost

end Expanded

end Graph

/-! ## §6. The expansion ends. -/

section Total

variable {plan : StagePlan}

theorem exists_bound (f : α → Nat) (l : List α) : ∃ bound, ∀ a ∈ l, f a ≤ bound :=
  ⟨(l.map f).sum, fun _ ha => le_sum_of_mem (mem_map_of_mem ha)⟩

theorem expandEach_total {stage : α → Option (Except CompileError StageInput)} {l : List α}
    (h : ∀ a ∈ l, stage a ≠ none) : expandEach stage l ≠ none := by
  induction l with
  | nil => simp [expandEach]
  | cons a rest ih =>
    have hrest := ih fun b hb => h b (mem_cons_of_mem _ hb)
    unfold expandEach
    split
    · split
      · simp
      · exact hrest
    · simp
    · next hnone => exact absurd hnone (h a mem_cons_self)

variable [SeededMatrix]

theorem checkEntries_total {ranks : List Nat}
    (h : ∀ rank, entryPredecessors plan fuel key.sources key.after rank (key.sources.getD rank 0) ≠
      none) : checkEntries plan fuel key ranks ≠ none := by
  induction ranks with
  | nil => simp [checkEntries]
  | cons rank rest ih =>
    unfold checkEntries
    split
    · exact ih
    · simp
    · next hnone => exact absurd hnone (h rank)

theorem expandCollective_total {collective : Nat}
    (h : ∀ rank, entryPredecessors plan fuel key.sources key.after rank (key.sources.getD rank 0) ≠
      none) : expandCollective plan fuel key collective duplicate ≠ none := by
  unfold expandCollective
  split
  · simp
  · split
    · refine expandEach_total fun pos _ => ?_
      unfold collectiveStage
      dsimp only
      split
      · simp
      · split
        · simp
        · simp
        · next hnone => exact absurd hnone (h pos.rank)
    · simp
    · next hnone => exact absurd hnone (checkEntries_total h)

theorem expandCollectives_total [LinearOrder CollectiveKey] (h : ∀ key ∈ rest, ∀ rank,
      entryPredecessors plan fuel key.sources key.after rank (key.sources.getD rank 0) ≠ none) :
    expandCollectives plan fuel earlier rest ≠ none := by
  induction rest generalizing earlier with
  | nil => simp [expandCollectives]
  | cons key rest ih =>
    have hrest : expandCollectives plan fuel (key :: earlier) rest ≠ none :=
      ih fun other hother => h other (mem_cons_of_mem _ hother)
    unfold expandCollectives
    split
    · split
      · simp
      · exact hrest
    · exact expandCollective_total (h key mem_cons_self)

theorem expandComputes_total (h : ∀ key ∈ computes, ∀ rank,
      entryPredecessors plan fuel key.hosts key.after rank (key.hosts.getD rank 0) ≠ none) :
    expandComputes plan fuel id computes ≠ none := by
  induction computes generalizing id with
  | nil => simp [expandComputes]
  | cons key rest ih =>
    have hrest : expandComputes plan fuel (id + 1) rest ≠ none :=
      ih fun other hother => h other (mem_cons_of_mem _ hother)
    unfold expandComputes
    split
    · split
      · simp
      · exact hrest
    · refine expandEach_total fun rank _ => ?_
      unfold computeStage
      dsimp only
      split
      · simp
      · simp
      · next hnone => exact absurd hnone (h key mem_cons_self rank)

variable [LinearOrder CollectiveKey] [LinearOrder ComputeKey] {collectives : List CollectiveKey}
  {computes : List ComputeKey} {groups : List (String × StageGroup)}

/-- Once its groups are accepted, a scenario is expanded or refused, with enough fuel. -/
theorem canonicalStages_total (h : resolveStageGroups collectives computes fuel = some (.ok groups)) :
    ∃ bound, ∀ more, bound ≤ more → canonicalStages collectives computes more ≠ none := by
  have hresolved := resolveStageGroups_ok h
  obtain ⟨depth, hdepth⟩ := hresolved.layered
  let afters := collectives.map (·.after) ++ computes.map (·.after)
  obtain ⟨longest, hlongest⟩ := exists_bound (fun after : List String => after.length) afters
  obtain ⟨deepest, hdeepest⟩ := exists_bound (afterDepth depth) afters
  refine ⟨fuel + (longest + deepest * (longest + 1) + 1), fun more hmore => ?_⟩
  -- Every entry of a group of the scenario ends within this fuel.
  have hentry {after : List String} (hmem : after ∈ afters) (hknown : ∀ name ∈ after, Nameable groups name)
      (hosts : List Nat) (rank host : Nat) :
      entryPredecessors (planOf groups collectives computes) more hosts after rank host ≠ none := by
    have hlisted : Listed groups depth (afterDepth depth after) after :=
      fun name hname => ⟨lt_afterDepth depth hname, hknown name hname⟩
    have hshort : ∀ name key, groupOf groups name = some (.collective key) →
        key.after.length ≤ longest ∧
          (collectiveHasStages key = true → Listed groups depth (depth name) key.after) := by
      intro name key hgroup
      have hkey := hresolved.mem_keys hgroup
      exact ⟨hlongest _ (mem_append_left _ (mem_map_of_mem hkey)), fun _ name hname =>
        ⟨after_lt hdepth hgroup name hname, hresolved.collective key hkey name hname⟩⟩
    refine followGroups_total hshort hlisted ?_
    have hlong := hlongest after hmem
    have hdeep := Nat.mul_le_mul_right (longest + 1) (hdeepest after hmem)
    omega
  obtain ⟨k, rfl⟩ := Nat.exists_eq_add_of_le ((Nat.le_add_right fuel _).trans hmore)
  unfold canonicalStages
  rw [resolveStageGroups_more h k]
  dsimp only
  split
  · simp
  · split
    · split
      · simp
      · refine expandComputes_total fun key hkey rank => ?_
        exact hentry (mem_append_right _ (mem_map_of_mem hkey))
          (hresolved.compute key hkey) _ _ _
    · refine expandCollectives_total fun key hkey rank => ?_
      exact hentry (mem_append_left _ (mem_map_of_mem hkey))
        (hresolved.collective key hkey) _ _ _

end Total

/-! ## §7. No deadlock. -/

section Deadlock

variable [SeededMatrix] [LinearOrder CollectiveKey] [LinearOrder ComputeKey]
  {collectives : List CollectiveKey} {computes : List ComputeKey}

/-- Compiled stage graphs never deadlock.  Once the groups of a scenario are accepted, its
    expansion ends.  In the stages it gives, what a stage waits for is a stage, of its own host or
    delivered to it; no stage waits for itself through others; and completing released stages
    one by one, in any order, goes on until every stage has completed. -/
theorem compiled_stages_never_deadlock {hosts : List Nat} {fuel : Nat}
    {groups : List (String × StageGroup)} (haccepted : ∀ key ∈ collectives, Accepted hosts key)
    (hgroups : resolveStageGroups collectives computes fuel = some (.ok groups)) :
    (∃ bound, ∀ more, bound ≤ more → canonicalStages collectives computes more ≠ none) ∧
    ∀ more stages, canonicalStages collectives computes more = some (.ok stages) →
      (∀ stage ∈ stages,
        (∀ k ∈ stage.predecessors.localKeys,
          ∃ before ∈ stages, before.key = k ∧ before.source = stage.source) ∧
        ∀ k ∈ stage.predecessors.inbound,
          ∃ before ∈ stages, before.key = k ∧ before.target = stage.source) ∧
      (∀ stage, ¬ Relation.TransGen (Precedes stages) stage stage) ∧
      ∀ done, Completes stages done → done.length ≤ stages.length ∧
        ((∀ stage ∈ stages, stage ∈ done) ∨ ∃ stage, Completes stages (stage :: done)) := by
  refine ⟨canonicalStages_total hgroups, fun more stages hstages => ?_⟩
  obtain ⟨groups, messages, timers, hresolved, hmessages, htimers, heq⟩ := canonicalStages_ok hstages
  obtain ⟨depth, hdepth⟩ := hresolved.layered
  have hexpanded : Expanded collectives computes stages groups depth :=
    ⟨hresolved, fun key hkey => (haccepted key hkey).ok, hdepth, more, messages, timers, hmessages,
      htimers, heq⟩
  have hrank (before stage : StageInput) (h : Precedes stages before stage) :
      stageRank depth collectives computes before.key <
        stageRank depth collectives computes stage.key := by
    obtain ⟨-, hstage, hk⟩ := h
    rcases mem_append.1 hk with hk | hk
    · exact ((hexpanded.placed hstage).own _ hk).2
    · exact ((hexpanded.placed hstage).inbound _ hk).2
  refine ⟨fun stage hstage => ⟨fun k hk => ?_, fun k hk => ?_⟩,
    Lib.acyclic_of_rank hrank,
    fun done hdone => ⟨?_, ?_⟩⟩
  · exact ((hexpanded.placed hstage).own k hk).1
  · exact ((hexpanded.placed hstage).inbound k hk).1
  · exact (hdone.nodup_subset.1.subperm hdone.nodup_subset.2).length_le
  · by_cases hall : ∀ stage ∈ stages, stage ∈ done
    · exact .inl hall
    · push Not at hall
      obtain ⟨stage, hstage, hfresh, hreleased⟩ := Lib.exists_released hrank { s | s ∈ done }
        { s | s ∈ stages } (fun before stage _ h => h.1) hall
      refine .inr ⟨stage, hdone.next hstage hfresh fun k hk => ?_⟩
      have hplaced := hexpanded.placed hstage
      have hbefore : ∃ before ∈ stages, before.key = k := by
        rcases mem_append.1 hk with hk | hk
        · obtain ⟨before, hmem, hkey, -⟩ := (hplaced.own k hk).1
          exact ⟨before, hmem, hkey⟩
        · obtain ⟨before, hmem, hkey, -⟩ := (hplaced.inbound k hk).1
          exact ⟨before, hmem, hkey⟩
      obtain ⟨before, hmem, rfl⟩ := hbefore
      exact ⟨before, hreleased before ⟨hmem, hstage, hk⟩, rfl⟩

end Deadlock

/-- A compute group on two hosts, and the all-reduce that follows it. -/
def stepKey : ComputeKey where
  name := "step"
  hosts := [4, 7]
  durationNs := 100
  after := []

def afterSource : SourceCollective := { pairSource with name := some "reduce", after := ["step"] }

def afterKey : CollectiveKey := afterSource.key .equalRemainderLast []

noncomputable abbrev anyOrder (α : Type) : LinearOrder α :=
  IsWellOrder.linearOrder (@WellOrderingRel α)

/-- The group and the all-reduce expand to a timer on each host and the messages of both phases. -/
theorem compiled_stages_never_deadlock_step :
    Accepted [4, 7] afterKey ∧
    ∃ stages, @canonicalStages drawnMatrix (anyOrder _) (anyOrder _) [afterKey] [stepKey] 3 =
        some (.ok stages) ∧
      stages.length = 6 ∧ ∀ stage, ¬ Relation.TransGen (Precedes stages) stage stage := by
  have hafter : Accepted [4, 7] afterKey := ⟨afterSource, afterKey, rfl, rfl⟩
  have haccepted : ∀ key ∈ [afterKey], Accepted [4, 7] key := by
    intro key hkey
    rw [mem_singleton] at hkey
    subst hkey
    exact hafter
  have hgroups : resolveStageGroups [afterKey] [stepKey] 3 =
      some (.ok [("reduce", .collective afterKey), ("step", .compute stepKey)]) := rfl
  have hstages : ∃ stages, @canonicalStages drawnMatrix (anyOrder _) (anyOrder _) [afterKey] [stepKey] 3 =
      some (.ok stages) ∧ stages.length = 6 := ⟨_, rfl, rfl⟩
  obtain ⟨stages, hstages, hlength⟩ := hstages
  exact ⟨hafter, stages, hstages, hlength,
    ((@compiled_stages_never_deadlock drawnMatrix (anyOrder _) (anyOrder _) [afterKey] [stepKey]
      [4, 7] 3 _ haccepted hgroups).2 3 stages hstages).2.1⟩

end Days.Compile
