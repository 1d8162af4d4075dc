/-
  Days.Logic.Pair — two hosts and the network between them.

  A transport is judged by what its sender and its receiver know of each other
  while the network loses, copies, delays, reorders and marks their packets.
  Here is what such a pair needs: the packets in flight, the sender and the
  receiver of a flow as a host entry holds them, and the errors a function of
  the executor can return.
-/
import Days.Logic.HostPure

namespace Days

/-! ## §1. The network. -/

/-- A step of the network: every packet in flight afterwards was in flight before,
possibly marked since.  Packets may be missing, repeated and in any order. -/
def Carries (before after : List PacketDescriptor) : Prop :=
  ∀ p ∈ after, ∃ q ∈ before, p.SameUnmarked q

/-- What holds of the packets in flight, whatever their marks, survives the network. -/
theorem Carries.forall {before after : List PacketDescriptor} {P : PacketDescriptor → Prop}
    (h : Carries before after) (hmark : ∀ p q : PacketDescriptor, p.SameUnmarked q → P q → P p)
    (hbefore : ∀ p ∈ before, P p) : ∀ p ∈ after, P p := by
  intro p hp
  obtain ⟨q, hq, hsame⟩ := h p hp
  exact hmark p q hsame (hbefore q hq)

/-! ## §2. The sender of a flow. -/

/-- The generator the executor finds for a flow. -/
def HostEntry.sender (e : HostEntry) (flow : FlowId) : Option FlowGeneratorState :=
  (e.index.firstGenerator flow).bind fun position => e.state.generators[position]?

namespace HostEntry

variable {e e' : HostEntry} {flow : FlowId} {position : Nat} {g g' : FlowGeneratorState}

theorem sender_eq_some :
    e.sender flow = some g ↔
      ∃ position, e.index.firstGenerator flow = some position ∧
        e.state.generators[position]? = some g := by
  unfold sender
  rw [Option.bind_eq_some_iff]

theorem generatorFor_eq {node : NodeId} (h : e.generatorFor node flow = .ok (position, g)) :
    e.index.firstGenerator flow = some position ∧ e.state.generators[position]? = some g := by
  obtain ⟨position', hposition, h⟩ := bind_ok h
  obtain ⟨g', hg, ⟨⟩⟩ := bind_pure_ok h
  rw [okOr_eq_ok] at hposition hg
  exact ⟨hposition, hg⟩

theorem generatorFor_bind {node : NodeId} {α : Type} {a : α}
    {f : Nat × FlowGeneratorState → Except PlainError α}
    (h : (e.generatorFor node flow >>= f) = .ok a) : ∃ position g,
      e.index.firstGenerator flow = some position ∧ e.state.generators[position]? = some g ∧
        f (position, g) = .ok a := by
  obtain ⟨⟨position, g⟩, hfor, h⟩ := bind_ok h
  exact ⟨position, g, (generatorFor_eq hfor).1, (generatorFor_eq hfor).2, h⟩

/-- Writing the generator of a flow back. -/
theorem sender_setGenerator (hposition : e.index.firstGenerator flow = some position)
    (hg : e.state.generators[position]? = some g) :
    (e.setGenerator position g').sender flow = some g' := by
  rw [sender_eq_some]
  refine ⟨position, hposition, ?_⟩
  have hlt : position < e.state.generators.length := (List.getElem?_eq_some_iff.1 hg).1
  show (e.state.generators.set position g')[position]? = some g'
  rw [List.getElem?_set_self hlt]

theorem sender_setGenerator_ne {other : Nat} (hne : other ≠ position)
    (hposition : e.index.firstGenerator flow = some position) :
    (e.setGenerator other g').sender flow = e.sender flow := by
  unfold sender
  show (e.index.firstGenerator flow).bind _ = _
  rw [hposition]
  show (e.state.generators.set other g')[position]? = e.state.generators[position]?
  rw [List.getElem?_set_ne hne]

/-- The sender depends on the generators and their table alone. -/
theorem sender_congr (hindex : e'.index.generatorsByFlow = e.index.generatorsByFlow)
    (hstate : e'.state.generators = e.state.generators) : e'.sender flow = e.sender flow := by
  unfold sender HostStageIndex.firstGenerator HostStageIndex.generatorsOf
  rw [hindex, hstate]

end HostEntry

/-! ## §3. Progress touches stages only. -/

theorem recordInboundSuccessors_stages {node : NodeId} {inbound : FlowId}
    {sequence bytes advance : Nat} {positions : List Nat} {entry entry' : HostEntry}
    {causes causes' : PendingCauses}
    (h : recordInboundSuccessors node inbound sequence bytes advance positions entry causes =
      .ok (entry', causes')) :
    ∃ stages views, entry' =
      { state := { entry.state with stages }, index := { entry.index with stageViews := views } } := by
  induction positions generalizing entry causes with
  | nil =>
    cases h
    exact ⟨_, _, rfl⟩
  | cons position rest ih =>
    unfold recordInboundSuccessors at h
    split at h
    · dsimp only at h
      split at h
      · exact ih h
      · obtain ⟨received, -, h⟩ := bind_ok h
        obtain ⟨_, -, h⟩ := bind_ok h
        obtain ⟨stages, views, rfl⟩ := ih h
        exact ⟨stages, views, rfl⟩
    · exact ih h

theorem recordInboundProgress_stages {node : NodeId} {entry entry' : HostEntry} {inbound : FlowId}
    {sequence bytes advance : Nat} {causes causes' : PendingCauses}
    (h : recordInboundProgress node entry inbound sequence bytes advance causes =
      .ok (entry', causes')) :
    ∃ stages views, entry' =
      { state := { entry.state with stages }, index := { entry.index with stageViews := views } } := by
  unfold recordInboundProgress at h
  split at h
  · cases h
    exact ⟨_, _, rfl⟩
  · exact recordInboundSuccessors_stages h

theorem completeLocalSuccessors_stages (entry : HostEntry) (completed : FlowId)
    (completion : CompletionSignal) (causes : PendingCauses) :
    ∃ stages views, (completeLocalSuccessors entry completed completion causes).1 =
      { state := { entry.state with stages }, index := { entry.index with stageViews := views } } := by
  have hone : ∀ (acc : HostEntry × PendingCauses) (position : Nat), ∃ stages views,
      (completeLocalSuccessor completed completion acc position).1 =
        { state := { acc.1.state with stages }
          index := { acc.1.index with stageViews := views } } := by
    intro acc position
    unfold completeLocalSuccessor
    dsimp only
    split
    · split
      · exact ⟨_, _, rfl⟩
      · exact ⟨_, _, rfl⟩
    · exact ⟨_, _, rfl⟩
  have hfold : ∀ (positions : List Nat) (acc : HostEntry × PendingCauses), ∃ stages views,
      (positions.foldl (completeLocalSuccessor completed completion) acc).1 =
        { state := { acc.1.state with stages }
          index := { acc.1.index with stageViews := views } } := by
    intro positions
    induction positions with
    | nil => exact fun acc => ⟨_, _, rfl⟩
    | cons position rest ih =>
      intro acc
      obtain ⟨stages, views, hrest⟩ := ih (completeLocalSuccessor completed completion acc position)
      obtain ⟨stages', views', hfirst⟩ := hone acc position
      refine ⟨stages, views, ?_⟩
      rw [List.foldl_cons, hrest, hfirst]
  unfold completeLocalSuccessors
  split
  · exact ⟨_, _, rfl⟩
  · exact hfold _ _

/-! ## §4. Errors a function does not return. -/

/-- No error of the given kind is returned. -/
def Avoids {α : Type} (bad : PlainError → Prop) (x : Except PlainError α) : Prop :=
  ∀ e, x = .error e → ¬ bad e

namespace Avoids

variable {α β : Type} {bad : PlainError → Prop} {error : PlainError}

theorem ok (a : α) : Avoids bad (.ok a) := by
  intro e h
  cases h

theorem throw (h : ¬ bad error) : Avoids bad (.error error : Except PlainError α) := by
  rintro e ⟨⟩
  exact h

theorem bind {x : Except PlainError α} {f : α → Except PlainError β} (hx : Avoids bad x)
    (hf : ∀ a, x = .ok a → Avoids bad (f a)) : Avoids bad (x >>= f) := by
  cases x with
  | error e =>
    rintro e' ⟨⟩
    exact hx e rfl
  | ok a => exact hf a rfl

theorem okOr {o : Option α} (h : ¬ bad error) : Avoids bad (okOr o error) := by
  cases o with
  | none => exact throw h
  | some a => exact ok a

theorem require {p : Prop} [Decidable p] (h : ¬ bad error) : Avoids bad (require p error) := by
  unfold Days.require
  split
  · exact ok _
  · exact throw h

/-- A check that passes returns nothing. -/
theorem passes {p : Prop} [Decidable p] (h : p) : Avoids bad (Days.require p error) := by
  unfold Days.require
  rw [if_pos h]
  exact ok _

end Avoids

/-! ## §5. Two hosts to run a flow on. -/

/-- A host without flows. -/
def emptyHost : HostState where
  egressLink := 0
  queue := []
  inService := none
  txReadyPending := false
  generators := []
  stages := []
  tcpReceivers := []
  dcqcnReceivers := []
  roceReceivers := none
  pfc := none
  nextOriginSeq := 0
  nextPayloadSeq := 1
  sourcedPackets := 0
  departedPackets := 0
  receivedPackets := 0

/-- An event at one of two hosts. -/
def exchangeContext (node : NodeId) (timeNs : Nat) (kind : EventKind) (payload : PayloadId) :
    Ctx where
  image :=
    { stopTimeNs := 1000000
      nodes := [⟨0, .host, 0⟩, ⟨1, .host, 1⟩]
      hostStates := []
      switchStates := []
      flows := []
      initialPackets := []
      links := []
      channels := []
      initialEvents := []
      seed := 0
      stageJoins := [] }
  mode := .summary
  node := ⟨node, .host, node⟩
  event := ⟨⟨timeNs, 0, node, 0⟩, node, kind, payload⟩

end Days
