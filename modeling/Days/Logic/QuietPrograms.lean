/-
  Days.Logic.QuietPrograms — programs that leave host entries and the segment
  ledger alone.

  Everything a switch does is such a program, and so are the scans of a host's
  queue.  They belong to every class of programs that contains the operations
  they use and is closed under sequencing.  Most operations leave the entries of
  all nodes as they are.
-/
import Days.Logic.SenderView
import Days.Logic.Watching

namespace Days

/-! ## §1. Operations beside the entries. -/

/-- Two states with the same entries at every node. -/
structure SameEntries (s s' : TransitionState) : Prop where
  hosts : s'.hosts = s.hosts
  switches : s'.switches = s.switches
  localNode : s'.localNode = s.localNode

/-- Operations that write no entry; a child takes its sequence number from one. -/
def Op.LeavesEntries : Op → Prop
  | .setHost _ | .setSwitch _ | .emit _ _ _ _ => False
  | _ => True

section Entries

variable {c : Ctx} {s s' : TransitionState}

/-- The flow, size and kind of a packet. -/
def PacketDescriptor.wire (p : PacketDescriptor) : FlowId × Nat × PacketKind :=
  (p.flow, p.sizeBytes, p.kind)

/-- Everything stored was stored before. -/
def Stores (s s' : TransitionState) : Prop :=
  ∀ (id : PayloadId) (r : ResidentPacket), s'.packets[id]? = some r →
    ∃ (id' : PayloadId) (r' : ResidentPacket), s.packets[id']? = some r' ∧
      r.descriptor.wire = r'.descriptor.wire

theorem Stores.of_eq (h : s'.packets = s.packets) : Stores s s' := by
  intro id r hr
  rw [h] at hr
  exact ⟨id, r, hr, rfl⟩

theorem Stores.removePacket (s : TransitionState) (id : PayloadId) :
    Stores s (s.removePacket id) := by
  intro other r hr
  unfold TransitionState.removePacket at hr
  rw [Std.ExtTreeMap.getElem?_erase] at hr
  split at hr
  · cases hr
  · exact ⟨other, r, hr, rfl⟩

theorem Stores.setResident {id : PayloadId} {r r' : ResidentPacket}
    (hr : s.resident id = .ok r) (hwire : r'.descriptor.wire = r.descriptor.wire) :
    Stores s (s.setResident id r') := by
  unfold TransitionState.resident at hr
  rw [okOr_eq_ok] at hr
  intro other r₁ hr₁
  unfold TransitionState.setResident at hr₁
  rw [Std.ExtTreeMap.getElem?_insert] at hr₁
  split at hr₁
  · cases hr₁
    exact ⟨id, r, hr, hwire⟩
  · exact ⟨other, r₁, hr₁, rfl⟩

theorem observePacket_entries (p : PacketDescriptor) (summary : RunSummary) :
    SameEntries s { s.observePacket c p with summary } ∧ (s.observePacket c p).children = s.children ∧
      (s.observePacket c p).tcpSentSegments = s.tcpSentSegments ∧ Stores s { s.observePacket c p with summary } := by
  unfold TransitionState.observePacket
  split
  · exact ⟨⟨rfl, rfl, rfl⟩, rfl, rfl, .of_eq rfl⟩
  · exact ⟨⟨rfl, rfl, rfl⟩, rfl, rfl, .of_eq rfl⟩

theorem finishResident_entries {id : PayloadId} (h : finishResident c id s = .ok s') :
    SameEntries s s' ∧ s'.children = s.children ∧ s'.tcpSentSegments = s.tcpSentSegments ∧ Stores s s' := by
  obtain ⟨r, hr, h⟩ := bind_ok h
  split at h
  · cases h
  · split at h
    · cases h
      exact ⟨⟨rfl, rfl, rfl⟩, rfl, rfl, .removePacket s id⟩
    · cases h
      exact ⟨⟨rfl, rfl, rfl⟩, rfl, rfl, .setResident (Prog.liftPlain_eq_ok.1 hr) rfl⟩

/-- A child takes the next sequence number of its origin and comes after the event in hand. -/
theorem emitChild_ok {target : NodeId} {kind : EventKind} {payload : PayloadId} {timeNs : Nat}
    (h : emitChild c target kind payload timeNs s = .ok s') :
    ∃ t child, s' = { t with children := s.children ++ [child] } ∧ c.event.key < child.key ∧
      ((c.node.kind = .host ∧ ∃ e, s.hostAt c.node = .ok e ∧ t = s.setHostAt c.node e.bump) ∨
        (c.node.kind = .switch ∧ ∃ e next, s.switchAt c.node = .ok e ∧ t = s.setSwitchAt c.node
          { e with state := { e.state with nextOriginSeq := next } })) := by
  have hinsert {t : TransitionState} {child : Event} (ht : t.children = s.children)
      (h : insertChild c child t = .ok s') :
      s' = { t with children := s.children ++ [child] } ∧ c.event.key < child.key := by
    unfold insertChild at h
    split at h
    · cases h
    · next hlt =>
      cases h
      exact ⟨by rw [ht], not_le.1 hlt⟩
  unfold emitChild at h
  split at h
  · next hc =>
    obtain ⟨e, he, h⟩ := bind_ok h
    obtain ⟨next, hnext, h⟩ := bind_ok h
    rw [Prog.liftPlain_eq_ok] at he hnext
    obtain rfl := (checkedAdd_eq_some (okOr_eq_ok.1 hnext)).1
    obtain ⟨hs, hlt⟩ := hinsert (by unfold TransitionState.setHostAt; split <;> rfl) h
    exact ⟨_, _, hs, hlt, .inl ⟨hc, e, he, rfl⟩⟩
  · next hc =>
    obtain ⟨e, he, h⟩ := bind_ok h
    obtain ⟨next, -, h⟩ := bind_ok h
    rw [Prog.liftPlain_eq_ok] at he
    obtain ⟨hs, hlt⟩ := hinsert (by unfold TransitionState.setSwitchAt; split <;> rfl) h
    exact ⟨_, _, hs, hlt, .inr ⟨hc, e, next, he, rfl⟩⟩

/-- An operation that writes no entry; a quiet one leaves the ledger, and stores nothing new. -/
theorem Op.exec_entries {o : Op} {r : Resp o} (h : Op.exec c o s = .ok (r, s'))
    (ho : o.LeavesEntries) : SameEntries s s' ∧ s'.children = s.children ∧
      (o.IsQuiet → s'.tcpSentSegments = s.tcpSentSegments ∧ Stores s s') := by
  cases o with
  | setHost _ | setSwitch _ | emit _ _ _ _ => exact ho.elim
  | getHost | seedTcpSegment | acknowledgeTcpSegments =>
    obtain ⟨_, -, ⟨⟩⟩ := bind_pure_ok h
    exact ⟨⟨rfl, rfl, rfl⟩, rfl, False.elim⟩
  | insertPacket p t =>
    simp only [Op.exec] at h
    split at h
    · cases h
    · cases h
      exact ⟨⟨rfl, rfl, rfl⟩, rfl, False.elim⟩
  | getSwitch | packet | header =>
    obtain ⟨_, -, ⟨⟩⟩ := bind_pure_ok h
    exact ⟨⟨rfl, rfl, rfl⟩, rfl, fun _ => ⟨rfl, .of_eq rfl⟩⟩
  | setSourceTime | setPacketMarked =>
    obtain ⟨_, hr, ⟨⟩⟩ := bind_pure_ok h
    exact ⟨⟨rfl, rfl, rfl⟩, rfl, fun _ => ⟨rfl, .setResident (Prog.liftPlain_eq_ok.1 hr) rfl⟩⟩
  | startTransmission id =>
    obtain ⟨_, hr, h⟩ := bind_ok h
    obtain ⟨_, -, ⟨⟩⟩ := bind_pure_ok h
    exact ⟨⟨rfl, rfl, rfl⟩, rfl, fun _ => ⟨rfl, .setResident (Prog.liftPlain_eq_ok.1 hr) rfl⟩⟩
  | finishTransmission id =>
    obtain ⟨t, ht, ⟨⟩⟩ := bind_pure_ok h
    obtain ⟨hsame, hchildren, hrest⟩ := finishResident_entries ht
    exact ⟨hsame, hchildren, fun _ => hrest⟩
  | markTerminal id =>
    obtain ⟨_, hr, h⟩ := bind_ok h
    split at h
    · cases pure_eq_ok.1 h
      exact ⟨⟨rfl, rfl, rfl⟩, rfl, fun _ => ⟨rfl, .removePacket s id⟩⟩
    · cases pure_eq_ok.1 h
      exact ⟨⟨rfl, rfl, rfl⟩, rfl, fun _ => ⟨rfl, .setResident (Prog.liftPlain_eq_ok.1 hr) rfl⟩⟩
  | countSourced p | countArrival p _ =>
    obtain ⟨summary, -, ⟨⟩⟩ := bind_pure_ok h
    obtain ⟨hsame, hchildren, hrest⟩ := observePacket_entries (s := s) (c := c) p summary
    exact ⟨hsame, hchildren, fun _ => hrest⟩
  | countDeparted id =>
    obtain ⟨r, -, h⟩ := bind_ok h
    obtain ⟨summary, -, ⟨⟩⟩ := bind_pure_ok h
    obtain ⟨hsame, hchildren, hrest⟩ := observePacket_entries (s := s) (c := c) r.descriptor summary
    exact ⟨hsame, hchildren, fun _ => hrest⟩
  | _ =>
    cases h
    exact ⟨⟨rfl, rfl, rfl⟩, rfl, fun _ => ⟨rfl, .of_eq rfl⟩⟩

end Entries

/-! ## §2. Closed classes. -/

/-- Operations that write no entry beyond a sequence number, no ledger, and insert no
packet. -/
def Op.IsPassive : Op → Prop
  | .setSwitch _ => False
  | o => o.IsQuiet

/-- A class of programs with the passive operations, closed under sequencing. -/
structure ClosedClass (P : ∀ {α : Type}, Prog α → Prop) : Prop where
  pure : ∀ {α : Type} (a : α), P (Pure.pure a : Prog α)
  bind : ∀ {α β : Type} {x : Prog α} {f : α → Prog β}, P x → (∀ a, P (f a)) → P (x >>= f)
  lift : ∀ {α : Type} (x : Except PlainError α), P (liftM x : Prog α)
  op : ∀ {o : Op}, o.IsPassive → P (Prog.op o)
  insertPacket : ∀ {p : PacketDescriptor} {t : Option Nat},
    (∀ header, p.kind ≠ .tcpData header) → P (insertPacket p t)
  check : ∀ {p : Prop} [Decidable p] {error : ExecutionError}, LedgerFree error →
    P (Prog.check p error)

namespace ClosedClass

variable {P : ∀ {α : Type}, Prog α → Prop} {c : Ctx}

section

variable (h : ClosedClass @P)

include h

theorem lift_bind {α β : Type} {x : Except PlainError α} {f : α → Prog β} (hf : ∀ a, P (f a)) :
    P (liftM x >>= f) :=
  h.bind (h.lift x) hf

theorem when {b : Bool} {prog : Prog Unit} (hprog : b = true → P prog) : P (Prog.when b prog) := by
  cases b with
  | true => exact hprog rfl
  | false => exact h.pure _

theorem each {α : Type} {o : Option α} {f : α → Prog Unit}
    (hf : ∀ a, o = some a → P (f a)) : P (Prog.each o f) := by
  cases o with
  | some a => exact hf a rfl
  | none => exact h.pure _

theorem watch : WatchClass @P where
  pure := h.pure
  bind := h.bind
  lift := h.lift
  op := by
    intro o ho
    cases o with
    | getSwitch | packet | pushDeparture | pushArrival | pushTcp | pushAqm | pushMechanism =>
      exact h.op trivial
    | _ => exact ho.elim

/-! ## §3. Switches. -/

theorem pushMechanism? (record : Option MechanismTransitionRecord) : P (pushMechanism? record) :=
  h.each fun _ _ => h.op trivial

theorem emitPfcFrame (plan : PfcFramePlan) : P (emitPfcFrame c plan) := by
  refine h.lift_bind fun channel => h.bind (h.op trivial) fun entry => ?_
  refine h.lift_bind fun payload => h.bind (h.insertPacket fun _ h => by cases h) fun _ => ?_
  exact h.lift_bind fun _ => h.op trivial

theorem recordSourced (p : PacketDescriptor) : P (recordSourced p) := h.op trivial

theorem recordDeparture (p : PacketDescriptor) : P (recordDeparture c p) :=
  h.bind (h.op trivial) fun _ => h.when fun _ =>
    h.bind (h.op trivial) fun _ => h.watch.observeSchedulerCompletion p

theorem recordArrival (p : PacketDescriptor) (disposition : ArrivalDisposition) :
    P (recordArrival c p disposition) :=
  h.bind (h.op trivial) fun _ => h.when fun _ =>
    h.bind (h.op trivial) fun _ => h.when fun _ => h.watch.observeSchedulerEnqueue p

theorem spInsertionPosition (priorities : List Nat) (priority : Nat) (ids : List PayloadId) :
    P (spInsertionPosition c priorities priority ids) := by
  induction ids with
  | nil => exact h.pure _
  | cons id rest ih =>
    refine h.bind (h.op trivial) fun queued => h.lift_bind fun queuedClass => ?_
    split
    · exact h.pure _
    · exact h.bind ih fun _ => h.pure _

theorem arrivalInfo (entry : SwitchEntry) (p : PacketDescriptor) (egress : Option LinkId) :
    P (arrivalInfo c entry p egress) := by
  have hposition : P (switchSpInsertionPosition c entry egress p.flow) := by
    refine h.lift_bind fun ⟨_, queue⟩ => ?_
    dsimp only
    split
    · exact h.lift_bind fun _ => h.bind (h.spInsertionPosition _ _ _) fun _ => h.pure _
    · exact h.pure _
  refine h.lift_bind fun rate => h.bind hposition fun position => h.lift_bind
    fun ⟨_, queue⟩ => ?_
  dsimp only
  split
  · exact h.lift_bind fun _ => h.lift_bind fun _ => h.pure _
  · exact h.pure _

theorem pfcFirstEligibleBySearch (pfc : PfcQueueState) (ids : List PayloadId) (position : Nat) :
    P (pfcFirstEligibleBySearch c pfc position ids) := by
  induction ids generalizing position with
  | nil => exact h.pure _
  | cons id rest ih =>
    refine h.bind (h.op trivial) fun p => h.lift_bind fun priority => ?_
    split
    · exact h.pure _
    · exact ih _

theorem pfcFirstEligible (queue : SwitchQueueState) (pfc : PfcQueueState)
    (order : Option PfcClassOrder) : P (pfcFirstEligible c queue pfc order) := by
  unfold Days.pfcFirstEligible
  split
  · exact h.pure _
  · split
    · exact h.pure _
    · split
      · exact h.pfcFirstEligibleBySearch _ _ _
      · split
        · exact h.pure _
        · exact h.lift_bind fun _ => h.pure _

theorem pfcOrderOf (ids : List PayloadId) (order : PfcClassOrder) : P (pfcOrderOf c order ids) := by
  induction ids generalizing order with
  | nil => exact h.pure _
  | cons id rest ih => exact h.bind (h.op trivial) fun _ => h.lift_bind fun _ => ih _

theorem orderIfPaused (slot : Nat) (pause : Bool) (entry : SwitchEntry) :
    P (orderIfPaused c slot pause entry) := by
  unfold Days.orderIfPaused
  split
  · unfold ensurePfcOrder
    split
    · exact h.pure _
    · split
      · exact h.pure _
      · exact h.bind (h.pfcOrderOf _ _) fun _ => h.pure _
  · exact h.pure _

theorem wakePayload (maySchedule : Bool) (queue : SwitchQueueState) (pfc : PfcQueueState)
    (order : Option PfcClassOrder) : P (wakePayload c maySchedule queue pfc order) := by
  unfold Days.wakePayload
  split
  · exact h.bind (h.pfcFirstEligible _ _ _) fun _ => h.pure _
  · exact h.pure _

theorem switchRemoteArrival (hset : ∀ entry, P (setSwitch entry)) : P (switchRemoteArrival c) := by
  refine h.bind (h.op trivial) fun arriving => ?_
  split
  · refine h.bind (h.op trivial) fun entry => h.lift_bind
      fun found => h.lift_bind fun pfc => ?_
    refine h.bind (h.orderIfPaused _ _ _) fun entry => h.bind (h.wakePayload _ _ _ _)
      fun payload => ?_
    refine h.bind (hset _) fun _ => h.bind (h.when fun _ => h.op trivial) fun _ => ?_
    exact h.bind (h.op trivial) fun _ => h.each fun _ _ => h.op trivial
  · refine h.lift_bind fun egress => h.bind (h.op trivial) fun entry => ?_
    refine h.bind (h.arrivalInfo _ _ _) fun info => h.lift_bind fun step => ?_
    refine h.bind (hset _) fun _ => h.bind (h.when fun _ => h.op trivial) fun _ => ?_
    refine h.bind (h.when fun _ => h.bind (h.pushMechanism? _) fun _ => h.each
      fun _ _ => h.op trivial)
      fun _ => h.bind (h.recordArrival _ _) fun _ => ?_
    refine h.bind (h.when fun _ => h.op trivial) fun _ => ?_
    exact h.bind (h.each fun _ _ => h.emitPfcFrame _) fun _ => h.when fun _ => h.op trivial

theorem eligibleSelections (pfc : Option PfcQueueState) (ids : List PayloadId) (position : Nat) :
    P (eligibleSelections c pfc position ids) := by
  induction ids generalizing position with
  | nil => exact h.pure _
  | cons id rest ih =>
    refine h.bind (h.op trivial) fun p => h.lift_bind fun priority => ?_
    split
    · exact ih _
    · exact h.lift_bind fun _ => h.bind (ih _) fun _ => h.pure _

theorem switchServicePlan (entry : SwitchEntry) (slot : Nat) (queue : SwitchQueueState) :
    P (switchServicePlan c entry slot queue) := by
  unfold Days.switchServicePlan
  split
  · split
    · exact h.pure _
    · exact h.bind (h.op trivial) fun _ => h.pure _
  · refine h.bind (h.pfcFirstEligible _ _ _) fun first => ?_
    split
    · exact h.pure _
    · refine h.bind (h.op trivial) fun p => h.lift_bind fun priority => ?_
      exact h.lift_bind fun _ => h.pure _
  · exact h.bind (h.eligibleSelections _ _ _) fun _ => h.pure _

theorem startService (slot : Nat) (egress : LinkId) (outcome : ServiceOutcome) :
    P (startService c slot egress outcome) := by
  refine h.bind (h.when fun _ => h.bind (h.pushMechanism? _) fun _ =>
    h.bind (h.pushMechanism? _) fun _ => h.watch.observeServiceStart slot) fun _ => ?_
  refine h.lift_bind fun link => h.lift_bind fun _ => h.bind (h.op trivial) fun _ => ?_
  refine h.lift_bind fun arrival => h.lift_bind fun departure => ?_
  refine h.bind (h.each fun _ _ => h.emitPfcFrame _) fun _ => h.bind (h.op trivial) fun _ => ?_
  exact h.lift_bind fun _ => h.op trivial

theorem switchTxReady (hset : ∀ entry, P (setSwitch entry)) : P (switchTxReady c) := by
  refine h.bind (h.op trivial) fun ready => h.lift_bind fun egress => h.lift_bind
    fun egress => ?_
  refine h.bind (h.op trivial) fun entry => h.lift_bind fun found => ?_
  refine h.bind (h.switchServicePlan _ _ _) fun plan => h.bind (h.check trivial) fun _ => ?_
  refine h.lift_bind fun step => ?_
  split
  split
  · exact hset _
  · exact h.lift_bind fun _ => h.bind (hset _) fun _ => h.startService _ _ _

theorem eligibleNext (entry : SwitchEntry) (slot : Nat) (queue : SwitchQueueState) :
    P (eligibleNext c entry slot queue) := by
  unfold Days.eligibleNext
  split
  · exact h.pure _
  · exact h.bind (h.pfcFirstEligible _ _ _) fun _ => h.pure _

theorem switchTxComplete (hset : ∀ entry, P (setSwitch entry)) : P (switchTxComplete c) := by
  refine h.bind (h.op trivial) fun sent => h.lift_bind fun egress => h.lift_bind
    fun egress => ?_
  refine h.lift_bind fun link => h.bind (h.op trivial) fun entry => h.lift_bind
    fun found => ?_
  refine h.bind (h.eligibleNext _ _ _) fun eligible => h.bind (h.check trivial) fun _ => ?_
  refine h.lift_bind fun scheduler => h.lift_bind fun departed => ?_
  refine h.bind (hset _) fun _ => h.bind (h.recordDeparture _) fun _ => ?_
  exact h.bind (h.op trivial) fun _ => h.each fun _ _ => h.op trivial

/-! ## §4. Scans and timers of a host. -/

theorem sourceKeys (ids : List PayloadId) : P (sourceKeys ids) := by
  induction ids with
  | nil => exact h.pure _
  | cons id rest ih => exact h.bind (h.op trivial) fun _ => h.bind ih fun _ => h.pure _

theorem emitReady (ready : Bool) (payload : PayloadId) :
    P (emitReady c ready payload) := h.when fun _ => h.op trivial

theorem hostPfcFirstEligible (entry : HostEntry) : P (hostPfcFirstEligible c entry) := by
  have hsearch : ∀ (pfc : HostPfcState) (ids : List PayloadId) (position : Nat),
      P (hostEligibleBySearch c pfc position ids) := by
    intro pfc ids
    induction ids with
    | nil => exact fun _ => h.pure _
    | cons id rest ih =>
      intro position
      refine h.bind (h.op trivial) fun p => h.lift_bind fun priority => ?_
      split
      · exact h.pure _
      · exact ih _
  unfold Days.hostPfcFirstEligible
  split
  · exact h.pure _
  · exact hsearch _ _ _

theorem emitRoceTimers (token : PayloadId) (tickNs timerNs : Option Nat) :
    P (emitRoceTimers c token tickNs timerNs) :=
  h.bind (h.each fun _ _ => h.op trivial) fun _ => h.each fun _ _ => h.op trivial

end

end ClosedClass

end Days
