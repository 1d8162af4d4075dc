/-
  Days.Logic.StageIndex — the stage index of a host and the scans it stands for.

  The index is derived from the tables of the host when it is loaded and
  refreshed at every write of a stage record.  The scans are those the index
  replaced (`legacy_scans`): over the generator, stage and receiver tables, in
  table order.  An index that is the one of the current tables answers every
  query as the scan does.
-/
import Days.Logic.Config

namespace Days

open List HostEntry HostStageIndex

variable {joins : List FlowId} {e : HostEntry}

variable {h : HostState} {select : StageDependencies → StagePredecessors} {position : Nat}
  {stage stage' : CollectiveStage}

/-! ## §1. Scans. -/

namespace HostState

/-- `positions_where`: the generator positions, in table order, that satisfy the predicate. -/
def positionsWhere (h : HostState) (predicate : Nat → FlowGeneratorState → Bool) : List Nat :=
  (h.generators.zipIdx.filter fun entry => predicate entry.2 entry.1).map (·.2)

/-- `legacy_scans::first_generator`. -/
def scanFirstGenerator (h : HostState) (flow : FlowId) : Option Nat :=
  h.generators.findIdx? (·.flow == flow)

/-- `legacy_scans::generators_of`. -/
def scanGeneratorsOf (h : HostState) (flow : FlowId) : List Nat :=
  h.positionsWhere fun _ g => g.flow == flow

/-- `legacy_scans::first_receiver`. -/
def scanFirstReceiver (h : HostState) (flow : FlowId) : Option Nat :=
  h.tcpReceivers.findIdx? (·.flow == flow)

/-- `legacy_scans::local_successors` and `inbound_successors`, by the predecessors asked for. -/
def scanSuccessors (h : HostState) (joins : List FlowId)
    (select : StageDependencies → StagePredecessors) (flow : FlowId) : List Nat :=
  h.positionsWhere fun position _ =>
    (h.stage position).any fun stage =>
      ((select stage.dependencies).toList joins).any (· == flow)

/-- `legacy_scans::first_ready`. -/
def scanFirstReady (h : HostState) : Option Nat :=
  (h.positionsWhere fun position g =>
    decide (g.nextEmission.status = .blocked) && releasable (h.stage position)).head?

end HostState

namespace HostStageIndex

/-- `local_successors_of`; a host without stages has none. -/
def localSuccessorsOf (index : HostStageIndex) (flow : FlowId) : List Nat :=
  index.stageViews.elim [] fun views => views.localSuccessors flow

/-- `inbound_successors_of`. -/
def inboundSuccessorsOf (index : HostStageIndex) (flow : FlowId) : List Nat :=
  index.stageViews.elim [] fun views => views.inboundSuccessors flow

end HostStageIndex

/-- The index answers every query as the scans over the tables of `h` do; the successors of
a flow also with the multiplicity its predecessor lists have. -/
structure HostStageIndex.AnswersAs (index : HostStageIndex) (h : HostState)
    (joins : List FlowId) : Prop where
  generatorsOf : ∀ flow, index.generatorsOf flow = h.scanGeneratorsOf flow
  firstGenerator : ∀ flow, index.firstGenerator flow = h.scanFirstGenerator flow
  firstReceiver : ∀ flow, index.firstReceiver flow = h.scanFirstReceiver flow
  localSuccessors : ∀ flow,
    index.localSuccessorsOf flow = h.scanSuccessors joins (·.localPredecessors) flow
  inboundSuccessors : ∀ flow,
    index.inboundSuccessorsOf flow = h.scanSuccessors joins (·.inbound) flow
  localMultiplicity : ∀ flow,
    index.localSuccessorsOf flow = successorsOf h joins (·.localPredecessors) flow
  inboundMultiplicity : ∀ flow,
    index.inboundSuccessorsOf flow = successorsOf h joins (·.inbound) flow
  firstReady : index.firstReady h.generators = h.scanFirstReady

/-! ## §2. Tables by flow. -/

section Positions

variable {α : Type}

theorem zipIdx_filter_eq (l : List α) (p : α → Nat → Bool) :
    (l.zipIdx.filter fun entry => p entry.1 entry.2).map (·.2) =
      (range l.length).filter fun i => (l[i]?).any fun a => p a i := by
  induction l using reverseRecOn with
  | nil => rfl
  | append_singleton l a ih =>
    rw [zipIdx_append, filter_append, map_append, ih, length_append,
      length_singleton, range_succ, filter_append]
    congr 1
    · refine filter_congr fun i hi => ?_
      rw [getElem?_append_left (mem_range.1 hi)]
    · cases hp : p a l.length <;> simp [hp]

theorem head?_positions (l : List α) (p : α → Bool) (k : Nat) :
    (((l.zipIdx k).filter fun entry => p entry.1).map (·.2)).head? =
      (l.findIdx? p).map (· + k) := by
  induction l generalizing k with
  | nil => rfl
  | cons a rest ih =>
    rw [zipIdx_cons, findIdx?_cons, filter_cons]
    cases hp : p a with
    | true => simp
    | false =>
      simp only [Bool.false_eq_true, if_false, ih, Option.map_map]
      congr 1
      funext i
      simp only [Function.comp_apply]
      omega

theorem filter_eq_flatMap (l : List α) (p : α → Bool) :
    l.filter p = l.flatMap fun a => if p a then [a] else [] := by
  induction l with
  | nil => rfl
  | cons a rest ih =>
    rw [filter_cons, flatMap_cons, ih]
    split <;> rfl

end Positions

/-- The entries of one flow in the sorted table are its positions in table order. -/
theorem byFlow_positions (flows : List FlowId) (flow : FlowId) :
    ((byFlow flows).filter (·.1 == flow)).map (·.2) =
      (flows.zipIdx.filter (·.1 == flow)).map (·.2) := by
  have hperm : ((byFlow flows).filter (·.1 == flow)).Perm (flows.zipIdx.filter (·.1 == flow)) :=
    (perm_insertionSort _ _).filter _
  -- Both lists hold the same positions, and both are in ascending order.
  refine (hperm.map (·.2)).eq_of_pairwise' (r := (· ≤ ·)) ?_ ?_
  · have hsorted : (byFlow flows).Pairwise fun a b => a.1 < b.1 ∨ a.1 = b.1 ∧ a.2 ≤ b.2 := by
      have htrans : IsTrans (FlowId × Nat) fun a b => a.1 < b.1 ∨ a.1 = b.1 ∧ a.2 ≤ b.2 :=
        ⟨by
          rintro a b c (hab | ⟨hab, hab'⟩) (hbc | ⟨hbc, hbc'⟩)
          · exact .inl (hab.trans hbc)
          · exact .inl (hbc ▸ hab)
          · exact .inl (hab ▸ hbc)
          · exact .inr ⟨hab.trans hbc, hab'.trans hbc'⟩⟩
      have htotal : Std.Total fun a b : FlowId × Nat => a.1 < b.1 ∨ a.1 = b.1 ∧ a.2 ≤ b.2 :=
        ⟨by
          intro a b
          rcases lt_trichotomy a.1 b.1 with hlt | heq | hgt
          · exact .inl (.inl hlt)
          · rcases le_total a.2 b.2 with hle | hle
            · exact .inl (.inr ⟨heq, hle⟩)
            · exact .inr (.inr ⟨heq.symm, hle⟩)
          · exact .inr (.inl hgt)⟩
      exact pairwise_insertionSort _ _
    rw [pairwise_map, pairwise_filter]
    refine hsorted.imp fun {a b} hab ha hb => ?_
    rw [beq_iff_eq] at ha hb
    rcases hab with hlt | ⟨-, hle⟩
    · exact absurd (ha.trans hb.symm) (ne_of_lt hlt)
    · exact hle
  · rw [pairwise_map]
    refine Pairwise.filter _ ?_
    have hrange : (flows.zipIdx.map (·.2)).Pairwise (· ≤ ·) := by
      rw [zipIdx_map_snd]
      exact (pairwise_lt_range' ).imp fun h => h.le
    rwa [pairwise_map] at hrange

/-! ## §3. The derived index. -/

/-- The index is the one of the current tables. -/
def Derived (joins : List FlowId) (e : HostEntry) : Prop :=
  e.index = HostStageIndex.build e.state joins

/-- `validate_stage_dependencies`: a join names a run of at least two flows of the join
table, strictly ascending. -/
def StagePredecessors.Canonical (joins : List FlowId) : StagePredecessors → Prop
  | join first n =>
    2 ≤ n ∧ ((join first n).joinRun joins).length = n ∧
      ((join first n).joinRun joins).Pairwise (· < ·)
  | _ => True

theorem StagePredecessors.Canonical.nodup {p : StagePredecessors}
    (h : p.Canonical joins) : (p.toList joins).Nodup := by
  cases p with
  | none => exact nodup_nil
  | one flow => exact nodup_singleton flow
  | join first n => exact h.2.2.imp fun hlt => ne_of_lt hlt

/-- The predecessor lists of a host's stages are canonical. -/
def HostState.CanonicalStages (h : HostState) (joins : List FlowId) : Prop :=
  ∀ position stage, h.stage position = some stage →
    stage.dependencies.localPredecessors.Canonical joins ∧
      stage.dependencies.inbound.Canonical joins

/-- A flow that a list without repetition names is named once. -/
theorem map_filter_of_nodup {l : List FlowId} (h : l.Nodup) (flow : FlowId) (position : Nat) :
    ((l.filter (· == flow)).map fun _ => position) =
      if l.any (· == flow) then [position] else [] := by
  rw [filter_beq]
  by_cases hmem : flow ∈ l
  · rw [count_eq_one_of_mem h hmem]
    simp [hmem]
  · rw [count_eq_zero_of_not_mem hmem]
    simp [hmem]

/-- Without repeated predecessors the successors with multiplicity are those of the scan. -/
theorem successorsOf_eq_scan (hnodup : ∀ position stage, h.stage position = some stage →
      ((select stage.dependencies).toList joins).Nodup) (flow : FlowId) :
    successorsOf h joins select flow = h.scanSuccessors joins select flow := by
  have hscan := zipIdx_filter_eq h.generators fun _ position => (h.stage position).any fun stage =>
    ((select stage.dependencies).toList joins).any (· == flow)
  unfold successorsOf HostState.scanSuccessors HostState.positionsWhere
  rw [hscan, filter_eq_flatMap]
  refine flatMap_congr fun position hposition => ?_
  rw [getElem?_eq_getElem (mem_range.1 hposition)]
  cases hstage : h.stage position with
  | none => rfl
  | some stage => exact map_filter_of_nodup (hnodup position stage hstage) flow position

/-- A host without stages has no successors. -/
theorem successorsOf_eq_nil {flow : FlowId}
    (hnone : ∀ position < h.generators.length, h.stage position = none) :
    successorsOf h joins select flow = [] := by
  unfold successorsOf
  rw [flatMap_eq_nil_iff]
  intro position hposition
  rw [hnone position (mem_range.1 hposition)]

namespace Derived

variable {joins : List FlowId} {e : HostEntry}

theorem generatorsOf (h : Derived joins e) (flow : FlowId) :
    e.index.generatorsOf flow = e.state.scanGeneratorsOf flow := by
  rw [h]
  show ((byFlow (e.state.generators.map (·.flow))).filter (·.1 == flow)).map (·.2) = _
  rw [byFlow_positions, zipIdx_map, filter_map, map_map]
  rfl

theorem firstGenerator (h : Derived joins e) (flow : FlowId) :
    e.index.firstGenerator flow = e.state.scanFirstGenerator flow := by
  unfold HostStageIndex.firstGenerator
  rw [h.generatorsOf]
  exact (head?_positions e.state.generators (·.flow == flow) 0).trans
    (by simp [HostState.scanFirstGenerator])

theorem firstReceiver (h : Derived joins e) (flow : FlowId) :
    e.index.firstReceiver flow = e.state.scanFirstReceiver flow := by
  rw [h]
  show (((byFlow (e.state.tcpReceivers.map (·.flow))).filter (·.1 == flow)).map (·.2)).head? = _
  rw [byFlow_positions, zipIdx_map, filter_map, map_map]
  exact (head?_positions e.state.tcpReceivers (·.flow == flow) 0).trans
    (by simp [HostState.scanFirstReceiver])

theorem localSuccessorsOf (h : Derived joins e) (flow : FlowId) :
    e.index.localSuccessorsOf flow = successorsOf e.state joins (·.localPredecessors) flow := by
  rw [h]
  unfold HostStageIndex.localSuccessorsOf HostStageIndex.build
  split
  · rfl
  · next hnone => exact (successorsOf_eq_nil (by simpa using hnone)).symm

theorem inboundSuccessorsOf (h : Derived joins e) (flow : FlowId) :
    e.index.inboundSuccessorsOf flow = successorsOf e.state joins (·.inbound) flow := by
  rw [h]
  unfold HostStageIndex.inboundSuccessorsOf HostStageIndex.build
  split
  · rfl
  · next hnone => exact (successorsOf_eq_nil (by simpa using hnone)).symm

theorem firstReady (h : Derived joins e) :
    e.index.firstReady e.state.generators = e.state.scanFirstReady := by
  have hscan := zipIdx_filter_eq e.state.generators fun g position =>
    decide (g.nextEmission.status = .blocked) && releasable (e.state.stage position)
  unfold HostState.scanFirstReady HostState.positionsWhere
  rw [hscan, h]
  unfold HostStageIndex.firstReady HostStageIndex.build
  split
  · rw [Option.bind_some, ← head?_filter]
    refine congrArg head? (filter_congr fun position hposition => ?_)
    have hlt := mem_range.1 hposition
    simp [hlt, Bool.and_comm]
  · next hnone =>
    have hnone : ∀ position < e.state.generators.length, e.state.stage position = none := by
      simpa using hnone
    rw [Option.bind_none, eq_comm, head?_eq_none_iff, filter_eq_nil_iff]
    intro position hposition
    have hlt := mem_range.1 hposition
    simp [getElem?_eq_getElem hlt, hnone position hlt, releasable]

/-- The derived index answers as the scans do. -/
theorem answersAs (h : Derived joins e) (hstages : e.state.CanonicalStages joins) :
    e.index.AnswersAs e.state joins where
  generatorsOf := h.generatorsOf
  firstGenerator := h.firstGenerator
  firstReceiver := h.firstReceiver
  localSuccessors flow := by
    rw [h.localSuccessorsOf]
    exact successorsOf_eq_scan
      (fun position stage hstage => (hstages position stage hstage).1.nodup) flow
  inboundSuccessors flow := by
    rw [h.inboundSuccessorsOf]
    exact successorsOf_eq_scan
      (fun position stage hstage => (hstages position stage hstage).2.nodup) flow
  localMultiplicity := h.localSuccessorsOf
  inboundMultiplicity := h.inboundSuccessorsOf
  firstReady := h.firstReady

end Derived

/-! ## §4. Writes of a host. -/

/-- The index is the one of the tables, whose predecessor lists are canonical. -/
structure Maintained (joins : List FlowId) (e : HostEntry) : Prop where
  derived : Derived joins e
  canonical : e.state.CanonicalStages joins

/-- The index depends on the flows of the tables and on the stages. -/
theorem HostStageIndex.build_congr {h' : HostState} (joins : List FlowId)
    (hg : h'.generators.map (·.flow) = h.generators.map (·.flow)) (hs : h'.stages = h.stages)
    (hr : h'.tcpReceivers.map (·.flow) = h.tcpReceivers.map (·.flow)) :
    build h' joins = build h joins := by
  have hlength : h'.generators.length = h.generators.length := by
    simpa using congrArg length hg
  unfold build successorsOf HostState.stage
  rw [hg, hs, hr, hlength]

/-- The stage table after a write. -/
theorem HostEntry.setStage_stage (hs : e.state.stage position = some stage)
    (stage' : CollectiveStage) (i : Nat) :
    (e.setStage position stage').state.stage i =
      if i = position then some stage' else e.state.stage i := by
  have hlt := (List.getElem?_eq_some_iff.1 (HostState.stage_eq_some hs)).1
  show ((e.state.stages.set position (some stage'))[i]?).join = _
  rw [getElem?_set]
  by_cases hi : i = position
  · subst hi
    simp [hlt]
  · simp [hi, Ne.symm hi, HostState.stage]

/-- A write that keeps the predecessors keeps the successors. -/
theorem successorsOf_setStage (hs : e.state.stage position = some stage)
    (hselect : select stage'.dependencies = select stage.dependencies) :
    successorsOf (e.setStage position stage').state joins select =
      successorsOf e.state joins select := by
  funext flow
  refine flatMap_congr fun i _ => ?_
  rw [setStage_stage hs]
  by_cases hi : i = position
  · subst hi
    rw [if_pos rfl, hs]
    dsimp only
    rw [hselect]
  · rw [if_neg hi]

/-- The releasable set, refreshed at the written position. -/
theorem releasable_setStage (hs : e.state.stage position = some stage)
    (hlt : position < e.state.generators.length) :
    (if releasable (some stage') then
        insert position ((Finset.range e.state.generators.length).filter fun i =>
          releasable (e.state.stage i))
      else ((Finset.range e.state.generators.length).filter fun i =>
        releasable (e.state.stage i)).erase position) =
      (Finset.range e.state.generators.length).filter fun i =>
        releasable ((e.setStage position stage').state.stage i) := by
  ext i
  simp only [setStage_stage hs]
  by_cases hi : i = position
  · subst hi
    split <;> simp_all
  · split <;> simp [hi]

namespace Maintained

variable {joins : List FlowId} {e e' : HostEntry}

/-- A step that touches neither flows, stages nor the index. -/
theorem of_flows (h : Maintained joins e)
    (hg : e'.state.generators.map (·.flow) = e.state.generators.map (·.flow))
    (hs : e'.state.stages = e.state.stages)
    (hr : e'.state.tcpReceivers.map (·.flow) = e.state.tcpReceivers.map (·.flow))
    (hi : e'.index = e.index) : Maintained joins e' := by
  refine ⟨?_, ?_⟩
  · unfold Derived
    rw [hi, build_congr joins hg hs hr]
    exact h.derived
  · intro position stage hstage
    unfold HostState.stage at hstage
    rw [hs] at hstage
    exact h.canonical position stage hstage

/-- A write of a stage record refreshes the releasable set. -/
theorem setStage {g : FlowGeneratorState} (h : Maintained joins e)
    (hg : e.state.generators[position]? = some g) (hs : e.state.stage position = some stage)
    (hlocal : stage'.dependencies.localPredecessors = stage.dependencies.localPredecessors)
    (hinbound : stage'.dependencies.inbound = stage.dependencies.inbound) :
    Maintained joins (e.setStage position stage') := by
  have hlt := (List.getElem?_eq_some_iff.1 hg).1
  refine ⟨?_, ?_⟩
  · have hany : ((range e.state.generators.length).any fun i =>
        (e.state.stage i).isSome) = true :=
      any_eq_true.2 ⟨position, mem_range.2 hlt, by rw [hs]; rfl⟩
    have hany' : ((range e.state.generators.length).any fun i =>
        ((e.setStage position stage').state.stage i).isSome) = true :=
      any_eq_true.2 ⟨position, mem_range.2 hlt, by
        rw [setStage_stage hs, if_pos rfl]; rfl⟩
    show e.index.refreshReleasable position (some stage') =
      build (e.setStage position stage').state joins
    rw [h.derived]
    unfold refreshReleasable build
    rw [successorsOf_setStage hs hlocal, successorsOf_setStage hs hinbound]
    show (⟨_, _, _⟩ : HostStageIndex) =
      ⟨_, _, if ((range e.state.generators.length).any fun i =>
        ((e.setStage position stage').state.stage i).isSome) = true then _ else _⟩
    rw [if_pos hany, if_pos hany', Option.map_some]
    rw [releasable_setStage hs hlt]
    rfl
  · intro i s hstage
    rw [setStage_stage hs] at hstage
    split at hstage
    · cases hstage
      rw [hlocal, hinbound]
      exact h.canonical position stage hs
    · exact h.canonical i s hstage

end Maintained

end Days
