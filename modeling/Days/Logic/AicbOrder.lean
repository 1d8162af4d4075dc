/-
  Days.Logic.AicbOrder — lowered AICB workloads are deadlock free.

  Every operation has a rank from its place in its chain, and follows only
  operations of lower rank.
-/
import Days.Lib.Release
import Days.Logic.AicbChain
import Days.Logic.AicbGroups

namespace Days.Aicb

open List Function

variable {builder : Builder} {ranks : List Rank} {previous : Option (GroupKind × List Nat)}

variable {c s : Nat} {y x : SegmentEnd × Nat} {ops : List CollectiveOp} {item : ChainItem}
  {builder' : Builder} {ranks' : List Rank} {t : PipelineTransfer} {os : List Nat}

/-! ## §1. What holds of the builder. -/

section Builder

/-- The hosts of an operation. -/
def hostsOf (builder : Builder) (operation : Nat) : Option (List Nat) :=
  (builder.operations[operation]?).bind fun op => builder.hostGroups[op.group]?

/-- What the segment after a transfer's point follows. -/
def Follows (builder : Builder) (entry : SegmentEnd × Nat) (after : List Nat) : Prop :=
  (∀ transfer, entry.1 = .receive transfer → entry.2 ∈ after) ∧
  ∀ transfer, entry.1 = .receive transfer ∨ entry.1 = .send transfer →
    ∃ operations, builder.transfers.lookup transfer = some operations ∧
      ∀ operation ∈ operations, operation ∈ after

/-- The log of a stage lists its points with their compute operations. -/
abbrev Log := List (SegmentEnd × Nat)

/-- A compute operation as the log lists it. -/
def ComputeAt (groups : Groups) (builder : Builder) (ranks : List Rank) (lasts : Nat → Prop)
    (s c : Nat) : Prop :=
  hostsOf builder c = some (stageHosts groups s) ∧
    (∃ op, builder.operations[c]? = some op ∧ ∃ d, op.kind = .compute d ∧ lasts d) ∧
    ∃ r, ranks[c]? = some r ∧ (ofLex (ofLex r).1).1 < 2

/-- How long the compute operation of a stage's point at an index of its log lasts. -/
abbrev Timing := Nat → Nat → SegmentEnd → Nat → Prop

/-- The invariant of the lowering: ranks for all operations, and what the logged ones are. -/
structure Sound (timed : Timing) (groups : Groups) (ga : Nat) (builder : Builder) (ranks : List Rank)
    (logs : Nat → Log) : Prop where
  length : ranks.length = builder.operations.length
  after : ∀ (i : Nat) (op : Operation), builder.operations[i]? = some op → ∀ a ∈ op.after,
    ∃ r r', ranks[a]? = some r ∧ ranks[i]? = some r' ∧ r < r'
  transfers : ∀ transfer operations, (transfer, operations) ∈ builder.transfers →
    operations.map (hostsOf builder) = (transferPairs groups transfer).map some ∧
    ∀ o ∈ operations, ranks[o]? = some (transferRank ga groups.stages transfer) ∧
      ∃ op, builder.operations[o]? = some op ∧ ∃ c, op.kind = .collective c
  disjoint : ∀ t os t' os' o, (t, os) ∈ builder.transfers → (t', os') ∈ builder.transfers →
    o ∈ os → o ∈ os' → t = t'
  forks : ∀ op s c, ((op, s), c) ∈ builder.forks → (.fork op, c) ∈ logs s
  computes : ∀ s i e c, (logs s)[i]? = some (e, c) → ComputeAt groups builder ranks (timed s i e) s c
  sends : ∀ s t c, (.send t, c) ∈ logs s → senderStage t = s ∧
    ∃ os, builder.transfers.lookup t = some os ∧
      ∀ o ∈ os, ∃ op, builder.operations[o]? = some op ∧ op.after = [c]
  follows : ∀ s x y, (x, y) ∈ (logs s).zip (logs s).tail →
    ∃ op, builder.operations[y.2]? = some op ∧ Follows builder x op.after
  increasing : ∀ s, ((logs s).map (·.2)).Pairwise (· < ·)

theorem getElem?_concat {α : Type} {l : List α} {i : Nat} {a b : α} (h : l[i]? = some a) :
    (l ++ [b])[i]? = some a := by
  rw [getElem?_append_left (List.getElem?_eq_some_iff.1 h).1, h]

variable {groups : Groups} {ga : Nat} {builder : Builder} {ranks : List Rank} {logs : Nat → Log}
  {timed : Timing}

/-- What later steps of the lowering leave as it is. -/
structure Kept (builder builder' : Builder) (ranks ranks' : List Rank) : Prop where
  operation : ∀ (i : Nat) (op : Operation), builder.operations[i]? = some op →
    builder'.operations[i]? = some op
  hosts : ∀ o known, hostsOf builder o = some known → hostsOf builder' o = some known
  rank : ∀ (i : Nat) (r : Rank), ranks[i]? = some r → ranks'[i]? = some r
  lookup : ∀ t os, builder.transfers.lookup t = some os → builder'.transfers.lookup t = some os
  fresh : ∀ t os, (t, os) ∈ builder'.transfers → (t, os) ∈ builder.transfers ∨
    ∀ o ∈ os, ∃ op, builder'.operations[o]? = some op ∧ op.after = []

theorem Kept.refl (builder : Builder) (ranks : List Rank) : Kept builder builder ranks ranks :=
  ⟨fun _ _ h => h, fun _ _ h => h, fun _ _ h => h, fun _ _ h => h, fun _ _ h => .inl h⟩

theorem Kept.trans {b b' b'' : Builder} {r r' r'' : List Rank} (h : Kept b b' r r')
    (h' : Kept b' b'' r' r'') : Kept b b'' r r'' := by
  refine ⟨fun i op hop => h'.operation i op (h.operation i op hop),
    fun o known ho => h'.hosts o known (h.hosts o known ho),
    fun i rank hr => h'.rank i rank (h.rank i rank hr),
    fun t os ht => h'.lookup t os (h.lookup t os ht), fun t os ht => ?_⟩
  rcases h'.fresh t os ht with ht | hfresh
  · rcases h.fresh t os ht with ht | hfresh
    · exact .inl ht
    · refine .inr fun o ho => ?_
      obtain ⟨op, hop, hafter⟩ := hfresh o ho
      exact ⟨op, h'.operation o op hop, hafter⟩
  · exact .inr hfresh

theorem Kept.follows {b b' : Builder} {r r' : List Rank} (h : Kept b b' r r') {after : List Nat}
    (hfollows : Follows b x after) : Follows b' x after := by
  refine ⟨hfollows.1, fun transfer ht => ?_⟩
  obtain ⟨os, hos, hall⟩ := hfollows.2 transfer ht
  exact ⟨os, h.lookup transfer os hos, hall⟩

theorem ComputeAt.kept {lasts : Nat → Prop} (h : ComputeAt groups builder ranks lasts s c)
    (hkept : Kept builder builder' ranks ranks') : ComputeAt groups builder' ranks' lasts s c := by
  obtain ⟨hhosts, ⟨op, hop, hkind⟩, r, hr, hphase⟩ := h
  exact ⟨hkept.hosts _ _ hhosts, ⟨op, hkept.operation _ _ hop, hkind⟩, r, hkept.rank _ _ hr, hphase⟩

section Push

variable (hosts after : List Nat) (stream : Nat) (kind : OperationKind)

/-- Known operations keep their hosts. -/
theorem hostsOf_pushHosts_of_some {o : Nat} {known : List Nat} (h : hostsOf builder o = some known) :
    hostsOf (builder.pushHosts hosts after stream kind).1 o = some known := by
  obtain ⟨op, hop, hgroup⟩ := Option.bind_eq_some_iff.1 h
  refine Option.bind_eq_some_iff.2 ⟨op, getElem?_concat hop, ?_⟩
  dsimp only [Builder.pushHosts]
  split
  · exact hgroup
  · exact getElem?_concat hgroup

/-- The new operation runs on its hosts. -/
theorem hostsOf_pushHosts :
    hostsOf (builder.pushHosts hosts after stream kind).1 builder.operations.length = some hosts := by
  refine Option.bind_eq_some_iff.2 ⟨⟨builder.hostGroups.idxOf hosts, after, stream, kind⟩,
    getElem?_concat_length, ?_⟩
  dsimp only [Builder.pushHosts]
  split
  · next hknown =>
    have hmem : hosts ∈ builder.hostGroups := by simpa using hknown
    exact getElem?_idxOf hmem
  · next hnew =>
    have hnot : hosts ∉ builder.hostGroups := by simpa using hnew
    rw [idxOf_eq_length hnot, getElem?_concat_length]

variable {after}

/-- An operation that follows lower ones. -/
theorem Sound.push (h : Sound timed groups ga builder ranks logs) {rank : Rank}
    (hafter : ∀ a ∈ after, ∃ r, ranks[a]? = some r ∧ r < rank) :
    Sound timed groups ga (builder.pushHosts hosts after stream kind).1 (ranks ++ [rank]) logs ∧
      Kept builder (builder.pushHosts hosts after stream kind).1 ranks (ranks ++ [rank]) ∧
      (ranks ++ [rank])[builder.operations.length]? = some rank := by
  have hops : (builder.pushHosts hosts after stream kind).1.operations =
      builder.operations ++ [⟨builder.hostGroups.idxOf hosts, after, stream, kind⟩] := rfl
  have hkept : Kept builder (builder.pushHosts hosts after stream kind).1 ranks (ranks ++ [rank]) :=
    ⟨fun _ _ => getElem?_concat, fun _ _ => hostsOf_pushHosts_of_some _ _ _ _,
      fun _ _ => getElem?_concat, fun _ _ ht => ht, fun _ _ => .inl⟩
  have hrank : (ranks ++ [rank])[builder.operations.length]? = some rank := by
    rw [← h.length, getElem?_concat_length]
  refine ⟨⟨by simp [hops, h.length], fun i op hop a ha => ?_, fun t os hos => ⟨?_, fun o ho => ?_⟩,
    h.disjoint, h.forks, fun s i e c hc => (h.computes s i e c hc).kept hkept,
    fun s t c hc => ?_, fun s x y hxy => ?_, h.increasing⟩, hkept, hrank⟩
  · rw [hops] at hop
    by_cases hlast : i < builder.operations.length
    · rw [getElem?_append_left hlast] at hop
      obtain ⟨r, r', hr, hr', hlt⟩ := h.after i op hop a ha
      exact ⟨r, r', getElem?_concat hr, getElem?_concat hr', hlt⟩
    · have hi : i = builder.operations.length := by
        have := (List.getElem?_eq_some_iff.1 hop).1
        rw [length_append, length_singleton] at this
        omega
      rw [hi, getElem?_concat_length] at hop
      cases hop
      obtain ⟨r, hr, hlt⟩ := hafter a ha
      exact ⟨r, rank, getElem?_concat hr, hi ▸ hrank, hlt⟩
  · have hknown := (h.transfers t os hos).1
    rw [← hknown]
    refine map_congr_left fun o ho => ?_
    have hsome : (hostsOf builder o).isSome := by
      have hmem : hostsOf builder o ∈ (transferPairs groups t).map some :=
        hknown ▸ mem_map_of_mem ho
      obtain ⟨_, -, heq⟩ := mem_map.1 hmem
      rw [← heq]
      rfl
    obtain ⟨known, hk⟩ := Option.isSome_iff_exists.1 hsome
    rw [hk, hostsOf_pushHosts_of_some _ _ _ _ hk]
  · obtain ⟨hrank, op, hop, hkind⟩ := (h.transfers t os hos).2 o ho
    exact ⟨getElem?_concat hrank, op, getElem?_concat hop, hkind⟩
  · obtain ⟨hsender, os, hos, hall⟩ := h.sends s t c hc
    refine ⟨hsender, os, hos, fun o ho => ?_⟩
    obtain ⟨op, hop, hafter⟩ := hall o ho
    exact ⟨op, getElem?_concat hop, hafter⟩
  · obtain ⟨op, hop, hfollows⟩ := h.follows s x y hxy
    exact ⟨op, getElem?_concat hop, hfollows⟩

end Push

variable (h : Sound timed groups ga builder ranks logs)

/-- Of the transfers, only those sent follow anything. -/
def Sent (builder : Builder) (logs : Nat → Log) : Prop :=
  ∀ t os, (t, os) ∈ builder.transfers → ∀ o ∈ os, ∀ op, builder.operations[o]? = some op →
    op.after ≠ [] → ∃ s c, (.send t, c) ∈ logs s

/-- A step adds only transfers that follow nothing. -/
theorem Sent.kept (hsent : Sent builder logs) (h : Sound timed groups ga builder ranks logs)
    (hkept : Kept builder builder' ranks ranks') : Sent builder' logs := by
  intro t os hos o ho op hop hafter
  rcases hkept.fresh t os hos with hold | hfresh
  · obtain ⟨-, op', hop', -⟩ := (h.transfers t os hold).2 o ho
    have hsame := hkept.operation o op' hop'
    rw [hop] at hsame
    cases hsame
    exact hsent t os hold o ho op hop' hafter
  · obtain ⟨op', hop', hempty⟩ := hfresh o ho
    rw [hop] at hop'
    cases hop'
    exact absurd hempty hafter

theorem Sent.mono {logs' : Nat → Log} (hsent : Sent builder logs) (h : ∀ s x, x ∈ logs s → x ∈ logs' s) :
    Sent builder logs' := by
  intro t os hos o ho op hop hafter
  obtain ⟨s, c, hc⟩ := hsent t os hos o ho op hop hafter
  exact ⟨s, c, h s _ hc⟩

/-- What pushing several operations of one rank gives. -/
structure Pushed (builder builder' : Builder) (ranks' : List Rank) (after : List Nat) (rank : Rank)
    (l : List (List Nat × OperationKind)) (operations : List Nat) : Prop where
  transfers : builder'.transfers = builder.transfers
  hosts : operations.map (hostsOf builder') = l.map fun entry => some entry.1
  each : ∀ o ∈ operations, builder.operations.length ≤ o ∧ ranks'[o]? = some rank ∧
    ∃ op, builder'.operations[o]? = some op ∧ op.after = after ∧ op.kind ∈ l.map (·.2)

include h in
/-- Operations of one rank, one after another. -/
theorem Sound.pushEach {after : List Nat} (stream : Nat)
    {rank : Rank} (hafter : ∀ a ∈ after, ∃ r, ranks[a]? = some r ∧ r < rank)
    (l : List (List Nat × OperationKind)) :
    ∃ ranks', Sound timed groups ga (builder.pushEach after stream l).1 ranks' logs ∧
      Kept builder (builder.pushEach after stream l).1 ranks ranks' ∧
      Pushed builder (builder.pushEach after stream l).1 ranks' after rank l
        (builder.pushEach after stream l).2 := by
  induction l generalizing builder ranks with
  | nil => exact ⟨ranks, h, .refl _ _, rfl, rfl, by simp [Builder.pushEach]⟩
  | cons entry rest ih =>
    obtain ⟨hosts, kind⟩ := entry
    obtain ⟨hpush, hkept, hrank⟩ := h.push hosts stream kind hafter
    obtain ⟨ranks', hsound, hkept', hpushed⟩ := ih hpush fun a ha => by
      obtain ⟨r, hr, hlt⟩ := hafter a ha
      exact ⟨r, getElem?_concat hr, hlt⟩
    refine ⟨ranks', hsound, hkept.trans hkept', hpushed.transfers, ?_, fun o ho => ?_⟩
    · rw [map_cons, ← hpushed.hosts]
      exact congrArg (· :: _) (hkept'.hosts _ _ (hostsOf_pushHosts hosts after stream kind))
    · rcases mem_cons.1 ho with rfl | ho
      · exact ⟨le_refl _, hkept'.rank _ _ hrank, _, hkept'.operation _ _ getElem?_concat_length, rfl,
          mem_cons_self⟩
      · obtain ⟨hle, hrank, op, hop, hopafter, hkind⟩ := hpushed.each o ho
        refine ⟨?_, hrank, op, hop, hopafter, mem_cons_of_mem _ hkind⟩
        have hlength : (builder.pushHosts hosts after stream kind).1.operations.length =
            builder.operations.length + 1 := by simp [Builder.pushHosts]
        omega

theorem mem_of_lookup {l : List (PipelineTransfer × List Nat)} (h : l.lookup t = some os) :
    (t, os) ∈ l := by
  obtain ⟨before, later, rfl, -⟩ := lookup_eq_some_iff.1 h
  simp

include h in
/-- A new transfer's operations, once they have been pushed. -/
theorem Sound.addTransfer
    (hnew : builder.transfers.lookup t = none) {pushed : Builder}
    {l : List (List Nat × OperationKind)} (hsound : Sound timed groups ga pushed ranks' logs)
    (hkept : Kept builder pushed ranks ranks')
    (hpushed : Pushed builder pushed ranks' [] (transferRank ga groups.stages t) l os)
    (hhosts : l.map (·.1) = transferPairs groups t)
    (hkinds : ∀ k ∈ l.map (·.2), ∃ c, k = .collective c) :
    Sound timed groups ga { pushed with transfers := (t, os) :: pushed.transfers } ranks' logs ∧
      Kept builder { pushed with transfers := (t, os) :: pushed.transfers } ranks ranks' := by
  have hadded : Kept pushed { pushed with transfers := (t, os) :: pushed.transfers } ranks' ranks' := by
    refine ⟨fun _ _ => id, fun _ _ => id, fun _ _ => id, fun t' os' hold => ?_, fun t' os' hmem => ?_⟩
    · have hne : (t' == t) = false := by
        rw [beq_eq_false_iff_ne]
        rintro rfl
        rw [hpushed.transfers, hnew] at hold
        cases hold
      rw [lookup_cons, hne]
      exact hold
    · rcases mem_cons.1 hmem with heq | hmem
      · cases heq
        refine .inr fun o ho => ?_
        obtain ⟨-, -, op, hop, hafter, -⟩ := hpushed.each o ho
        exact ⟨op, hop, hafter⟩
      · exact .inl hmem
  -- The operations of known transfers have smaller numbers than the new ones.
  have holder {t' : PipelineTransfer} {os' : List Nat} {o : Nat} (hmem : (t', os') ∈ pushed.transfers)
      (ho : o ∈ os') : o < builder.operations.length := by
    rw [hpushed.transfers] at hmem
    obtain ⟨-, op, hop, -⟩ := (h.transfers t' os' hmem).2 o ho
    exact (List.getElem?_eq_some_iff.1 hop).1
  refine ⟨⟨hsound.length, hsound.after, fun t' os' hmem => ?_, fun t₁ os₁ t₂ os₂ o hmem₁ hmem₂ ho₁ ho₂ => ?_,
    hsound.forks, hsound.computes, fun s t' c hc => ?_, fun s x y hxy => ?_, hsound.increasing⟩,
    hkept.trans hadded⟩
  · rcases mem_cons.1 hmem with heq | hmem
    · cases heq
      refine ⟨?_, fun o ho => ?_⟩
      · rw [← hhosts, map_map]
        exact hpushed.hosts
      · obtain ⟨-, hrank, op, hop, -, hkind⟩ := hpushed.each o ho
        exact ⟨hrank, op, hop, hkinds _ hkind⟩
    · exact hsound.transfers t' os' hmem
  · rcases mem_cons.1 hmem₁ with heq₁ | hmem₁ <;> rcases mem_cons.1 hmem₂ with heq₂ | hmem₂
    · cases heq₁
      cases heq₂
      rfl
    · cases heq₁
      have := (hpushed.each o ho₁).1
      have := holder hmem₂ ho₂
      omega
    · cases heq₂
      have := (hpushed.each o ho₂).1
      have := holder hmem₁ ho₁
      omega
    · exact hsound.disjoint t₁ os₁ t₂ os₂ o hmem₁ hmem₂ ho₁ ho₂
  · obtain ⟨hsender, os', hos', hall⟩ := hsound.sends s t' c hc
    exact ⟨hsender, os', hadded.lookup t' os' hos', hall⟩
  · obtain ⟨op, hop, hfollows⟩ := hsound.follows s x y hxy
    exact ⟨op, hop, hadded.follows hfollows⟩

include h in
/-- The operations of a transfer, new or known. -/
theorem Sound.transfer {plan : Plan}
    (hok : builder.transfer plan groups t = .ok (builder', os)) :
    ∃ ranks', Sound timed groups ga builder' ranks' logs ∧ Kept builder builder' ranks ranks' ∧
      builder'.transfers.lookup t = some os := by
  unfold Builder.transfer at hok
  split at hok
  · next hknown =>
    cases hok
    exact ⟨ranks, h, .refl _ _, hknown⟩
  · next hnew =>
    split at hok
    · cases hok
    next ordinal _ =>
    obtain ⟨rfl, rfl⟩ := hok
    have hnone : ∀ a ∈ ([] : List Nat), ∃ r, ranks[a]? = some r ∧
        r < transferRank ga groups.stages t := by simp
    obtain ⟨ranks', hsound, hkept, hpushed⟩ := h.pushEach 0 hnone
      ((transferPairs groups t).map fun hosts => (hosts, OperationKind.collective
        ⟨.sendRecv, plan.pipelineBytes, 0, none, false, none, some ordinal⟩))
    obtain ⟨hadded, hkept'⟩ := h.addTransfer hnew hsound hkept hpushed
      (by simp [map_map, comp_def]) (by simp)
    exact ⟨ranks', hadded, hkept', by simp⟩

/-- Only the given operations change, to follow one. -/
theorem setAfter_getElem? (builder : Builder) (os : List Nat) (c i : Nat) :
    (builder.setAfter os c).operations[i]? =
      if i ∈ os then (builder.operations[i]?).map fun op => { op with after := [c] }
      else builder.operations[i]? := by
  suffices hfold : ∀ (os : List Nat) (all : List Operation),
      (os.foldl (fun all operation => all.modify operation fun op => { op with after := [c] }) all)[i]? =
        if i ∈ os then (all[i]?).map fun op => { op with after := [c] } else all[i]? from
    hfold os builder.operations
  intro os
  induction os with
  | nil => simp
  | cons o rest ih =>
    intro all
    rw [foldl_cons, ih, getElem?_modify]
    by_cases heq : o = i
    · subst heq
      cases all[o]? <;> simp
    · have hne : ¬ i = o := fun h => heq h.symm
      cases all[i]? <;> simp [heq, hne]

theorem setAfter_length (builder : Builder) (os : List Nat) (c : Nat) :
    (builder.setAfter os c).operations.length = builder.operations.length := by
  refine foldlRecOn (motive := fun all : List Operation => all.length = _) os _ rfl ?_
  intro all hall o _
  rw [length_modify, hall]

theorem hostsOf_setAfter (builder : Builder) (os : List Nat) (c o : Nat) :
    hostsOf (builder.setAfter os c) o = hostsOf builder o := by
  unfold hostsOf
  rw [setAfter_getElem?]
  split
  · cases builder.operations[o]? <;> rfl
  · rfl

include h in
/-- No compute operation belongs to a transfer. -/
theorem Sound.compute_notMem
    (hmem : (t, os) ∈ builder.transfers) {i : Nat} {op : Operation}
    (hop : builder.operations[i]? = some op) {d : Nat} (hkind : op.kind = .compute d) : i ∉ os := by
  intro hi
  obtain ⟨-, op', hop', c', hc'⟩ := (h.transfers t os hmem).2 i hi
  rw [hop] at hop'
  cases hop'
  rw [hkind] at hc'
  cases hc'

include h in
/-- The sender's segment becomes what a transfer follows. -/
theorem Sound.setAfter
    (hos : builder.transfers.lookup t = some os)
    (hc : ∃ r, ranks[c]? = some r ∧ r < transferRank ga groups.stages t)
    (hnew : ∀ s c', (.send t, c') ∉ logs s) :
    Sound timed groups ga (builder.setAfter os c) ranks logs := by
  have hmem := mem_of_lookup hos
  have hsame {i : Nat} (hi : i ∉ os) : (builder.setAfter os c).operations[i]? = builder.operations[i]? := by
    rw [setAfter_getElem?, if_neg hi]
  refine ⟨?_, fun i op hop a ha => ?_, fun t' os' hos' => ⟨?_, fun o ho => ?_⟩, h.disjoint, h.forks,
    fun s i e c' hc' => ?_, fun s t' c' hc' => ?_, fun s x y hxy => ?_, h.increasing⟩
  · rw [h.length, setAfter_length]
  · rw [setAfter_getElem?] at hop
    split at hop
    · next hi =>
      obtain ⟨op', hop', rfl⟩ := Option.map_eq_some_iff.1 hop
      rw [mem_singleton] at ha
      subst ha
      obtain ⟨r, hr, hlt⟩ := hc
      exact ⟨r, _, hr, ((h.transfers t os hmem).2 i hi).1, hlt⟩
    · exact h.after i op hop a ha
  · rw [← (h.transfers t' os' hos').1]
    exact map_congr_left fun o _ => hostsOf_setAfter builder os c o
  · obtain ⟨hrank, op, hop, hkind⟩ := (h.transfers t' os' hos').2 o ho
    refine ⟨hrank, ?_⟩
    rw [setAfter_getElem?]
    split
    · exact ⟨{ op with after := [c] }, by rw [hop]; rfl, hkind⟩
    · exact ⟨op, hop, hkind⟩
  · obtain ⟨hhosts, ⟨op, hop, d, hkind, htimed⟩, hrank⟩ := h.computes s i e c' hc'
    refine ⟨by rwa [hostsOf_setAfter], ⟨op, ?_, d, hkind, htimed⟩, hrank⟩
    rwa [hsame (h.compute_notMem hmem hop hkind)]
  · obtain ⟨hsender, os', hos', hall⟩ := h.sends s t' c' hc'
    refine ⟨hsender, os', hos', fun o ho => ?_⟩
    have hne : t' ≠ t := by
      rintro rfl
      exact hnew s c' hc'
    have hnot : o ∉ os := fun ho' => hne (h.disjoint t' os' t os o (mem_of_lookup hos') hmem ho ho')
    rw [hsame hnot]
    exact hall o ho
  · obtain ⟨op, hop, hfollows⟩ := h.follows s x y hxy
    obtain ⟨i, hy⟩ := mem_iff_getElem?.1 (mem_of_mem_tail (of_mem_zip hxy).2)
    obtain ⟨-, ⟨op', hop', d, hkind, -⟩, -⟩ := h.computes s i y.1 y.2 hy
    refine ⟨op, ?_, hfollows⟩
    rw [hsame (h.compute_notMem hmem hop' hkind)]
    exact hop

/-- An appended point follows the last one. -/
theorem mem_zip_tail_concat {l : Log} {z : SegmentEnd × Nat}
    (h : (x, y) ∈ (l ++ [z]).zip (l ++ [z]).tail) :
    (x, y) ∈ l.zip l.tail ∨ (l.getLast? = some x ∧ y = z) := by
  induction l with
  | nil => simp at h
  | cons a rest ih =>
    cases rest with
    | nil =>
      simp only [cons_append, nil_append, tail_cons, zip_cons_cons, zip_nil_right,
        mem_singleton, Prod.mk.injEq] at h
      exact .inr ⟨by simp [h.1], h.2⟩
    | cons b rest =>
      simp only [cons_append, tail_cons, zip_cons_cons, mem_cons] at h ih ⊢
      rcases h with h | h
      · exact .inl (.inl h)
      · rcases ih h with hold | ⟨hlast, hy⟩
        · exact .inl (.inr hold)
        · exact .inr ⟨by rw [getLast?_cons_cons]; exact hlast, hy⟩

theorem mem_update {s' : Nat} (h : x ∈ update logs s (logs s ++ [y]) s') :
    x ∈ logs s' ∨ (s' = s ∧ x = y) := by
  by_cases heq : s' = s
  · subst heq
    rw [update_self] at h
    rcases mem_append.1 h with h | h
    · exact .inl h
    · exact .inr ⟨rfl, mem_singleton.1 h⟩
  · rw [update_of_ne heq] at h
    exact .inl h

/-- The new entry is the last of its own log. -/
theorem getElem?_update {s' i : Nat} (h : (update logs s (logs s ++ [y]) s')[i]? = some x) :
    (logs s')[i]? = some x ∨ (s' = s ∧ i = (logs s).length ∧ x = y) := by
  by_cases heq : s' = s
  · subst heq
    rw [update_self] at h
    by_cases hlt : i < (logs s').length
    · exact .inl (by rwa [getElem?_append_left hlt] at h)
    · rw [getElem?_append_right (by omega), getElem?_singleton] at h
      split at h
      · exact .inr ⟨rfl, by omega, (Option.some.inj h).symm⟩
      · cases h
  · rw [update_of_ne heq] at h
    exact .inl h

theorem mem_update_of_mem {s' : Nat} (h : x ∈ logs s') : x ∈ update logs s (logs s ++ [y]) s' := by
  by_cases heq : s' = s
  · subst heq
    rw [update_self]
    exact mem_append_left _ h
  · rwa [update_of_ne heq]

include h in
/-- A point with its compute operation is logged. -/
theorem Sound.log {e : SegmentEnd}
    (hcompute : ComputeAt groups builder ranks (timed s (logs s).length e) s c)
    (hbelow : ∀ x ∈ logs s, x.2 < c)
    (hsend : ∀ t, e = .send t → senderStage t = s ∧ ∃ os, builder.transfers.lookup t = some os ∧
      ∀ o ∈ os, ∃ op, builder.operations[o]? = some op ∧ op.after = [c])
    (hfollows : ∀ x, (logs s).getLast? = some x →
      ∃ op, builder.operations[c]? = some op ∧ Follows builder x op.after) :
    Sound timed groups ga builder ranks (update logs s (logs s ++ [(e, c)])) := by
  refine ⟨h.length, h.after, h.transfers, h.disjoint, fun op s' c' hmem => mem_update_of_mem (h.forks _ _ _ hmem),
    fun s' i e' c' hi => ?_, fun s' t c' hmem => ?_, fun s' x y hxy => ?_, fun s' => ?_⟩
  · rcases getElem?_update hi with hi | ⟨rfl, rfl, heq⟩
    · exact h.computes s' i e' c' hi
    · cases heq
      exact hcompute
  · rcases mem_update hmem with hmem | ⟨rfl, heq⟩
    · exact h.sends s' t c' hmem
    · cases heq
      exact hsend t rfl
  · by_cases heq : s' = s
    · subst heq
      rw [update_self] at hxy
      rcases mem_zip_tail_concat hxy with hxy | ⟨hlast, rfl⟩
      · exact h.follows s' x y hxy
      · exact hfollows x hlast
    · rw [update_of_ne heq] at hxy
      exact h.follows s' x y hxy
  · by_cases heq : s' = s
    · subst heq
      rw [update_self, map_append, pairwise_append]
      refine ⟨h.increasing s', pairwise_singleton _ _, fun a ha b hb => ?_⟩
      obtain ⟨x, hx, rfl⟩ := mem_map.1 ha
      cases mem_singleton.1 hb
      exact hbelow x hx
    · rw [update_of_ne heq]
      exact h.increasing s'

theorem Sent.log (hsent : Sent builder logs) (s : Nat) (x : SegmentEnd × Nat) :
    Sent builder (update logs s (logs s ++ [x])) :=
  hsent.mono fun _ _ hx => mem_update_of_mem hx

/-- A transfer that now follows its sender's segment is logged as sent. -/
theorem Sent.setAfter (hsent : Sent builder logs) (h : Sound timed groups ga builder ranks logs)
    (hos : builder.transfers.lookup t = some os) (s c : Nat) :
    Sent (builder.setAfter os c) (update logs s (logs s ++ [(.send t, c)])) := by
  intro t' os' hos' o ho op hop hafter
  by_cases hmem : o ∈ os
  · cases h.disjoint t' os' t os o hos' (mem_of_lookup hos) ho hmem
    exact ⟨s, c, by rw [update_self]; simp⟩
  · rw [setAfter_getElem?, if_neg hmem] at hop
    exact hsent.log s (.send t, c) t' os' hos' o ho op hop hafter

end Builder

/-! ## §2. The walk over a stage. -/

section Walk

variable {plan : Plan} {groups : Groups} {options : LowerOptions} {ga stage : Nat} {builder : Builder}
  {ranks : List Rank} {logs : Nat → Log} {timed : Timing}

/-- The points of a transfer are its items. -/
theorem ChainItem.of_point {ending : SegmentEnd} (h : item.point ops = some ending) :
    (∀ t, ending = .send t → item = .send t) ∧ ∀ t, ending = .receive t → item = .receive t := by
  cases item with
  | delay ns => cases h
  | collective op =>
    simp only [ChainItem.point] at h
    split at h <;> cases h
    simp
  | _ =>
    cases h
    simp

end Walk

/-! ## §3. All stages. -/

section Stages

variable {plan : Plan} {groups : Groups} {options : LowerOptions} {ga : Nat}
  {timed : Timing}

end Stages

/-! ## §4. The data queue. -/

section Data

variable {plan : Plan} {groups : Groups} {options : LowerOptions} {ga : Nat} {logs : Nat → Log}
  {timed : Timing}

/-- What one instance of a data collective waits for: its fork in its stage, and the instances of
    the previous data collective that share a host with it. -/
def DataOk (groups : Groups) (logs : Nat → Log) (op : OpId) (kind : GroupKind)
    (previous : Option (GroupKind × List Nat)) (hosts : Nat → Option (List Nat)) (all : List Operation)
    (index operation : Nat) : Prop :=
  hosts operation = some ((groups.family kind).group index) ∧
  ∃ entry, all[operation]? = some entry ∧
    (∃ fork ∈ entry.after,
      (.fork op, fork) ∈ logs (((groups.family kind).group index).getD 0 0 / groups.stageRanks)) ∧
    ∀ other operations, previous = some (other, operations) → ∀ shared < (groups.family other).len,
      (∃ rank ∈ (groups.family kind).group index, rank ∈ (groups.family other).group shared) →
      operations.getD shared 0 ∈ entry.after

theorem DataOk.kept {op : OpId} {kind : GroupKind} {index operation : Nat}
    (h : DataOk groups logs op kind previous (hostsOf builder) builder.operations index operation)
    (hkept : Kept builder builder' ranks ranks') :
    DataOk groups logs op kind previous (hostsOf builder') builder'.operations index operation := by
  obtain ⟨hhosts, entry, hentry, hrest⟩ := h
  exact ⟨hkept.hosts _ _ hhosts, entry, hkept.operation _ _ hentry, hrest⟩

end Data

/-! ## §5. No deadlock. -/

/-- The hosts of an operation of a workload. -/
def Workload.hosts (workload : Workload) (operation : Nat) : Option (List Nat) :=
  (workload.operations[operation]?).bind fun op => workload.groups[op.group]?

/-- A stage receives its own transfers. -/
theorem LabelledChain.receiver {ga stages : Nat} {items : List ChainItem}
    {entries : List (ChainItem × Label)} (h : LabelledChain ga stages s items entries)
    (ht : .receive t ∈ items.filterMap (ChainItem.point ops)) : receiverStage t = s := by
  obtain ⟨item, hitem, hpoint⟩ := mem_filterMap.1 ht
  rw [← h.items] at hitem
  obtain ⟨entry, hentry, rfl⟩ := mem_map.1 hitem
  exact ((h.placed entry hentry).2 t ((ChainItem.of_point hpoint).2 t rfl)).2.1

end Days.Aicb
