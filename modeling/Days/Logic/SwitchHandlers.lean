/-
  Days.Logic.SwitchHandlers — the handlers of a switch take the steps of
  `SwitchStep`.

  A handler looks packets up, writes its switch's entry once, and then only
  records, counts and emits.  So what holds over the runs of `SwitchRun` holds of
  every switch whose events are dispatched.
-/
import Days.Logic.QuietPrograms
import Days.Logic.SwitchRun

namespace Days

variable {β : Type} {b : β}

open Prog TransitionState

variable {o : Op}

/-! ## §1. Programs that leave the queues alone. -/

/-- The entry of the node keeps its queues and class orders. -/
def Spares (c : Ctx) {α : Type} (prog : Prog α) : Prop :=
  ∀ (s s' : TransitionState) (a : α) (e : SwitchEntry), Prog.run c prog s = .ok (a, s') →
    s.switchAt c.node = .ok e →
    ∃ e', s'.switchAt c.node = .ok e' ∧ e'.state.queues = e.state.queues ∧
      e'.pfcOrders = e.pfcOrders

section States

variable {c : Ctx} {s s' : TransitionState} {e e' : SwitchEntry}

theorem SameEntries.switchAt (h : SameEntries s s') (node : NodeDescriptor) :
    s'.switchAt node = s.switchAt node := by
  unfold TransitionState.switchAt TransitionState.localStateSlot
  rw [h.switches, h.localNode]

/-- What is written is read back. -/
theorem switchAt_setSwitchAt (h : s.switchAt c.node = .ok e) :
    (s.setSwitchAt c.node e').switchAt c.node = .ok e' := by
  obtain ⟨slot, hslot, h⟩ := bind_ok h
  rw [okOr_eq_ok] at h
  have hlt := (List.getElem?_eq_some_iff.1 h).1
  unfold setSwitchAt switchAt
  rw [hslot]
  refine bind_eq_ok.2 ⟨slot, hslot, okOr_eq_ok.2 ?_⟩
  exact List.getElem?_set_self hlt

theorem setHostAt_switchAt (entry : HostEntry) :
    (s.setHostAt c.node entry).switchAt c.node = s.switchAt c.node := by
  unfold setHostAt
  split
  · rfl
  · rfl

end States

/-- The entry of the node keeps what a view shows of it. -/
def KeepsView {γ : Type} (view : SwitchEntry → γ) (c : Ctx) {α : Type} (prog : Prog α) : Prop :=
  ∀ (s s' : TransitionState) (a : α) (e : SwitchEntry), Prog.run c prog s = .ok (a, s') →
    s.switchAt c.node = .ok e → ∃ e', s'.switchAt c.node = .ok e' ∧ view e' = view e

namespace KeepsView

variable {c : Ctx} {α β γ : Type} {view : SwitchEntry → γ}

theorem of_switchAt {prog : Prog α}
    (h : ∀ s s' a, run c prog s = .ok (a, s') → s'.switchAt c.node = s.switchAt c.node) :
    KeepsView view c prog := by
  intro s s' a e hrun he
  rw [h s s' a hrun]
  exact ⟨e, he, rfl⟩

theorem bind {x : Prog α} {f : α → Prog β} (hx : KeepsView view c x)
    (hf : ∀ a, KeepsView view c (f a)) : KeepsView view c (x >>= f) := by
  intro s s' b e hrun he
  obtain ⟨a, t, hrun, hrest⟩ := run_bind_ok.1 hrun
  obtain ⟨e₁, he₁, hview₁⟩ := hx s t a e hrun he
  obtain ⟨e₂, he₂, hview₂⟩ := hf a t s' b e₁ hrest he₁
  exact ⟨e₂, he₂, hview₂.trans hview₁⟩

theorem of_leaves (ho : o.LeavesEntries) : KeepsView view c (op o) := by
  refine of_switchAt fun s s' r hrun => ?_
  have hexec : Op.exec c o s = .ok (r, s') := Lib.Program.run_op.symm.trans hrun
  exact (Op.exec_entries hexec ho).1.switchAt _

section Passive

-- A child takes its sequence number from the entry; the view does not show it.
variable (hview : ∀ (e : SwitchEntry) (next : Nat),
  view { e with state := { e.state with nextOriginSeq := next } } = view e)

include hview

theorem emitChild {s s' : TransitionState} {e : SwitchEntry} {target : NodeId} {kind : EventKind}
    {payload : PayloadId} {timeNs : Nat} (hemit : emitChild c target kind payload timeNs s = .ok s')
    (he : s.switchAt c.node = .ok e) : ∃ e', s'.switchAt c.node = .ok e' ∧ view e' = view e := by
  obtain ⟨t, child, rfl, -, ⟨-, host, -, rfl⟩ | ⟨-, entry, next, hentry, rfl⟩⟩ := emitChild_ok hemit
  · exact ⟨e, (setHostAt_switchAt ..).trans he, rfl⟩
  · cases he.symm.trans hentry
    exact ⟨_, switchAt_setSwitchAt he, hview e next⟩

theorem op (ho : o.IsPassive) : KeepsView view c (op o) := by
  cases o with
  | setHost _ | setSwitch _ => exact ho.elim
  | emit target kind payload timeNs =>
    intro s s' r e hrun he
    have hexec : Op.exec c (.emit target kind payload timeNs) s = .ok (r, s') :=
      Lib.Program.run_op.symm.trans hrun
    obtain ⟨t, ht, ⟨⟩⟩ := bind_pure_ok hexec
    exact emitChild hview ht he
  | _ => exact of_leaves trivial

theorem closed : ClosedClass (@KeepsView γ view c) where
  pure a := of_switchAt fun s s' b hrun => by rw [(run_pure_ok.1 hrun).2]
  bind := .bind
  lift x := of_switchAt fun s s' a hrun => by rw [(run_lift_ok.1 hrun).2]
  op := .op hview
  insertPacket _ := of_leaves trivial
  check := by
    intro p _ error _
    refine of_switchAt fun s s' a hrun => ?_
    unfold check at hrun
    split at hrun
    · rw [(run_pure_ok.1 hrun).2]
    · cases hrun

end Passive

end KeepsView

namespace Spares

variable {c : Ctx} {α : Type}

theorem iff_keepsView {prog : Prog α} :
    Spares c prog ↔ KeepsView (fun e => (e.state.queues, e.pfcOrders)) c prog := by
  unfold Spares KeepsView
  simp only [Prod.mk.injEq]

theorem op (ho : o.IsPassive) : Spares c (op o) :=
  iff_keepsView.2 (.op (fun _ _ => rfl) ho)

theorem closed : ClosedClass (@Spares c) := by
  have hclosed : ClosedClass (@KeepsView _ (fun e => (e.state.queues, e.pfcOrders)) c) :=
    KeepsView.closed fun _ _ => rfl
  constructor
  · exact fun a => iff_keepsView.2 (hclosed.pure a)
  · exact fun hx hf => iff_keepsView.2
      (hclosed.bind (iff_keepsView.1 hx) fun a => iff_keepsView.1 (hf a))
  · exact fun x => iff_keepsView.2 (hclosed.lift x)
  · exact fun ho => op ho
  · exact fun p => iff_keepsView.2 (hclosed.insertPacket p)
  · exact fun hfree => iff_keepsView.2 (hclosed.check hfree)

end Spares

/-! ## §2. Handlers. -/

section Handlers

variable {image : SimulationImage} {desc : PayloadId → PacketDescriptor} {first e : SwitchEntry}
  {admitted : List (Nat × PayloadId)} {c : Ctx} {s s' : TransitionState}

theorem run_lift_bind_ok {α : Type} {x : Except PlainError α} {f : α → Prog β} :
    run c ((liftM x : Prog α) >>= f) s = .ok (b, s') ↔
      ∃ a, x = .ok a ∧ run c (f a) s = .ok (b, s') := by
  rw [run_bind_ok]
  constructor
  · rintro ⟨a, t, hlift, hrun⟩
    obtain ⟨ha, rfl⟩ := run_lift_ok.1 hlift
    exact ⟨a, ha, hrun⟩
  · rintro ⟨a, ha, hrun⟩
    exact ⟨a, s, run_lift_ok.2 ⟨ha, rfl⟩, hrun⟩

/-- The entry a handler reads is that of its node. -/
theorem run_getSwitch_bind {f : SwitchEntry → Prog β}
    (he : s.switchAt c.node = .ok e) (h : run c (getSwitch >>= f) s = .ok (b, s')) :
    run c (f e) s = .ok (b, s') := by
  obtain ⟨entry, t, hread, hrun⟩ := run_bind_ok.1 h
  replace hread : Op.exec c .getSwitch s = .ok (entry, t) := Lib.Program.run_op.symm.trans hread
  obtain ⟨entry', hentry, ⟨⟩⟩ := bind_pure_ok hread
  rw [liftPlain_eq_ok, he] at hentry
  cases hentry
  exact hrun

theorem run_header_bind {id : PayloadId} {f : PacketDescriptor → Prog β}
    (h : run c (header id >>= f) s = .ok (b, s')) : ∃ p, run c (f p) s = .ok (b, s') := by
  obtain ⟨p, t, hread, hrun⟩ := run_bind_ok.1 h
  replace hread : Op.exec c (.header id) s = .ok (p, t) := Lib.Program.run_op.symm.trans hread
  obtain ⟨_, -, ⟨⟩⟩ := bind_pure_ok hread
  exact ⟨_, hrun⟩

theorem run_check_bind {p : Prop} [Decidable p] {error : ExecutionError}
    {f : Unit → Prog β} (h : run c (check p error >>= f) s = .ok (b, s')) :
    run c (f ()) s = .ok (b, s') := by
  obtain ⟨_, t, hcheck, hrun⟩ := run_bind_ok.1 h
  unfold check at hcheck
  split at hcheck
  · obtain ⟨-, rfl⟩ := run_pure_ok.1 hcheck
    exact hrun
  · cases hcheck

/-- A change of what is no queue and no class order. -/
theorem SwitchRun.counted {e' : SwitchEntry} (h : SwitchRun image desc first admitted e)
    (hqueues : e'.state.queues = e.state.queues) (horders : e'.pfcOrders = e.pfcOrders) :
    SwitchRun image desc first admitted e' := by
  have hstep := h.step (.count e'.state e'.queueBytes hqueues)
  rw [Option.toList_none, List.append_nil, ← horders] at hstep
  exact hstep

/-- The entry after a handler is one of the run. -/
def Continues (image : SimulationImage) (desc : PayloadId → PacketDescriptor)
    (first : SwitchEntry) (admitted : List (Nat × PayloadId)) (c : Ctx) (s : TransitionState) :
    Prop :=
  ∃ arrived e, s.switchAt c.node = .ok e ∧ SwitchRun image desc first (admitted ++ arrived) e

theorem Spares.switchAt {α : Type} {prog : Prog α} {a : α} (h : Spares c prog)
    (hrun : run c prog s = .ok (a, s')) (he : s.switchAt c.node = .ok e) :
    ∃ e', s'.switchAt c.node = .ok e' := by
  obtain ⟨e', he', -⟩ := h s s' a e hrun he
  exact ⟨e', he'⟩

/-- A handler ends in `s'` by writing its entry and then running a passive program, one that is
in every closed class. -/
def EndsWriting (c : Ctx) (next : SwitchEntry) (s' : TransitionState) : Prop :=
  ∃ (t : TransitionState) (rest : Unit → Prog Unit), (∃ e, t.switchAt c.node = .ok e) ∧
    Prog.run c (setSwitch next >>= rest) t = .ok ((), s') ∧
    ∀ {P : ∀ {α : Type}, Prog α → Prop}, ClosedClass @P → ∀ a, P (rest a)

/-- What passive programs keep of an entry is as it was written. -/
theorem EndsWriting.view {γ : Type} {view : SwitchEntry → γ} {next : SwitchEntry}
    (h : EndsWriting c next s') (hclosed : ClosedClass (@KeepsView γ view c)) :
    ∃ e', s'.switchAt c.node = .ok e' ∧ view e' = view next := by
  obtain ⟨t, rest, ⟨e, he⟩, hrun, hrest⟩ := h
  obtain ⟨a, t', hset, hrun⟩ := run_bind_ok.1 hrun
  replace hset : Op.exec c (.setSwitch next) t = .ok (a, t') := Lib.Program.run_op.symm.trans hset
  cases hset
  exact hrest hclosed () _ _ _ next hrun (switchAt_setSwitchAt he)

theorem switchPacketArrival_writes {arriving : PacketDescriptor} (he : s.switchAt c.node = .ok e)
    (hrun : run c (switchPacketArrival c arriving) s = .ok ((), s')) :
    ∃ egress info t slot queueBytes plan next,
      run c (arrivalInfo c e arriving egress) s = .ok (info, t) ∧
      arrivalStep c e egress info = .ok (slot, queueBytes, plan, next) ∧
      EndsWriting c next s' := by
  obtain ⟨egress, -, hrun⟩ := run_lift_bind_ok.1 hrun
  replace hrun := run_getSwitch_bind he hrun
  obtain ⟨info, t, hinfo, hrun⟩ := run_bind_ok.1 hrun
  have ht := (Spares.closed.arrivalInfo e arriving egress).switchAt hinfo he
  obtain ⟨⟨slot, queueBytes, plan, next⟩, hstep, hrun⟩ := run_lift_bind_ok.1 hrun
  refine ⟨egress, info, t, slot, queueBytes, plan, next, hinfo, hstep, t, _, ht, hrun, ?_⟩
  intro P hP _
  refine hP.bind (hP.when fun _ => hP.op trivial) fun _ => ?_
  refine hP.bind (hP.when fun _ =>
    hP.bind (hP.pushMechanism? _) fun _ => hP.each fun _ _ => hP.op trivial) fun _ => ?_
  refine hP.bind (hP.recordArrival _ _) fun _ => ?_
  refine hP.bind (hP.when fun _ => hP.op trivial) fun _ => ?_
  refine hP.bind (hP.each fun _ _ => hP.emitPfcFrame _) fun _ => ?_
  exact hP.when fun _ => hP.op trivial

theorem switchTxReady_writes (he : s.switchAt c.node = .ok e)
    (hrun : run c (switchTxReady c) s = .ok ((), s')) :
    ∃ egress slot queue plan t outcome served next,
      e.queueFor c.node.id (some egress) = .ok (slot, queue) ∧
      run c (switchServicePlan c e slot queue) s = .ok (plan, t) ∧
      serviceStep c slot { queue with txReadyPending := false } plan = .ok (outcome, served) ∧
      (match outcome with
        | none => next = e.setQueue slot served
        | some outcome => settleService c e slot served outcome = .ok next) ∧
      EndsWriting c next s' := by
  obtain ⟨ready, hrun⟩ := run_header_bind hrun
  obtain ⟨found, -, hrun⟩ := run_lift_bind_ok.1 hrun
  obtain ⟨egress, -, hrun⟩ := run_lift_bind_ok.1 hrun
  replace hrun := run_getSwitch_bind he hrun
  obtain ⟨⟨slot, queue⟩, hqueue, hrun⟩ := run_lift_bind_ok.1 hrun
  obtain ⟨plan, t, hplan, hrun⟩ := run_bind_ok.1 hrun
  have ht := (Spares.closed.switchServicePlan e slot queue).switchAt hplan he
  replace hrun := run_check_bind hrun
  obtain ⟨⟨outcome, served⟩, hserve, hrun⟩ := run_lift_bind_ok.1 hrun
  cases outcome with
  | none =>
    -- Nothing to serve: the handler ends with the write.
    have hlast :
        run c (setSwitch (e.setQueue slot served) >>= fun _ => (pure () : Prog Unit)) t =
        .ok ((), s') := run_bind_ok.2 ⟨(), s', hrun, rfl⟩
    refine ⟨egress, slot, queue, plan, t, none, served, _, hqueue, hplan, hserve, rfl, ?_⟩
    exact ⟨t, _, ht, hlast, fun hP _ => hP.pure _⟩
  | some outcome =>
    obtain ⟨next, hsettle, hrun⟩ := run_lift_bind_ok.1 hrun
    refine ⟨egress, slot, queue, plan, t, some outcome, served, next, hqueue, hplan, hserve,
      hsettle, ?_⟩
    exact ⟨t, _, ht, hrun, fun hP _ => hP.startService _ _ _⟩

theorem switchTxComplete_writes (he : s.switchAt c.node = .ok e)
    (hrun : run c (switchTxComplete c) s = .ok ((), s')) :
    ∃ egress slot queue sent rateBps scheduler pending next,
      e.queueFor c.node.id (some egress) = .ok (slot, queue) ∧
      completeScheduler c queue.scheduler sent rateBps = .ok scheduler ∧
      next.state.queues = (e.setQueue slot
        { queue with scheduler, inService := none, txReadyPending := pending }).state.queues ∧
      next.queueBytes = e.queueBytes ∧ next.pfcOrders = e.pfcOrders ∧ EndsWriting c next s' := by
  obtain ⟨sent, hrun⟩ := run_header_bind hrun
  obtain ⟨found, -, hrun⟩ := run_lift_bind_ok.1 hrun
  obtain ⟨egress, -, hrun⟩ := run_lift_bind_ok.1 hrun
  obtain ⟨link, -, hrun⟩ := run_lift_bind_ok.1 hrun
  replace hrun := run_getSwitch_bind he hrun
  obtain ⟨⟨slot, queue⟩, hqueue, hrun⟩ := run_lift_bind_ok.1 hrun
  obtain ⟨eligible, t, heligible, hrun⟩ := run_bind_ok.1 hrun
  have ht := (Spares.closed.eligibleNext e slot queue).switchAt heligible he
  replace hrun := run_check_bind hrun
  obtain ⟨scheduler, hscheduler, hrun⟩ := run_lift_bind_ok.1 hrun
  obtain ⟨departed, -, hrun⟩ := run_lift_bind_ok.1 hrun
  refine ⟨egress, slot, queue, sent, link.rateBps, scheduler, queue.txReadyPending ||
    (if eligible.isSome && !queue.txReadyPending then eligible else none).isSome, _, hqueue,
    hscheduler, ?_, ?_, ?_, t, _, ht, hrun, ?_⟩
  · rfl
  · rfl
  · rfl
  intro P hP _
  refine hP.bind (hP.recordDeparture _) fun _ => ?_
  exact hP.bind (hP.op trivial) fun _ => hP.each fun _ _ => hP.op trivial

/-- Writing a queue that is there changes nothing. -/
theorem SwitchEntry.setQueue_same {slot : Nat} {queue : SwitchQueueState}
    (h : e.state.queues[slot]? = some queue) : e.setQueue slot queue = e := by
  obtain ⟨hlt, rfl⟩ := List.getElem?_eq_some_iff.1 h
  unfold setQueue SwitchState.setQueue
  rw [List.set_getElem_self]

/-- A class order is built beside the queues and the byte counters. -/
theorem orderIfPaused_keeps {slot : Nat} {pause : Bool} {entry ordered : SwitchEntry}
    (h : run c (orderIfPaused c slot pause entry) s = .ok (ordered, s')) :
    ordered.state = entry.state ∧ ordered.queueBytes = entry.queueBytes := by
  unfold orderIfPaused ensurePfcOrder at h
  split at h
  · split at h
    · rw [(run_pure_ok.1 h).1]
      exact ⟨rfl, rfl⟩
    · split at h
      · rw [(run_pure_ok.1 h).1]
        exact ⟨rfl, rfl⟩
      · obtain ⟨order, t, -, h⟩ := run_bind_ok.1 h
        rw [← (run_pure_ok.1 h).1]
        exact ⟨rfl, rfl⟩
  · rw [(run_pure_ok.1 h).1]
    exact ⟨rfl, rfl⟩

theorem switchPfcRemoteArrival_writes {header : PfcHeader} (he : s.switchAt c.node = .ok e)
    (hrun : run c (switchPfcRemoteArrival c header) s = .ok ((), s')) :
    ∃ slot queue pfc ordered t pending,
      e.queueFor c.node.id (some header.controlledLink) = .ok (slot, queue) ∧
      queue.pfc = some pfc ∧
      run c (orderIfPaused c slot header.pause (e.setQueue slot { queue with
        pfc := some (pfc.control header.priority header.pause c.event.key.originNode).2 })) s =
          .ok (ordered, t) ∧
      EndsWriting c (ordered.setQueue slot { queue with
        pfc := some (pfc.control header.priority header.pause c.event.key.originNode).2
        txReadyPending := pending }) s' := by
  replace hrun := run_getSwitch_bind he hrun
  obtain ⟨⟨slot, queue⟩, hqueue, hrun⟩ := run_lift_bind_ok.1 hrun
  obtain ⟨pfc, hpfc, hrun⟩ := run_lift_bind_ok.1 hrun
  rw [okOr_eq_ok] at hpfc
  obtain ⟨ordered, t, horder, hrun⟩ := run_bind_ok.1 hrun
  obtain ⟨e₁, he₁⟩ := (Spares.closed.orderIfPaused _ _ _).switchAt horder he
  obtain ⟨woken, t', hwoken, hrun⟩ := run_bind_ok.1 hrun
  have ht := (Spares.closed.wakePayload _ _ _ _).switchAt hwoken he₁
  have hends : EndsWriting c (if woken.isSome then ordered.setQueue slot { queue with
      pfc := some (pfc.control header.priority header.pause c.event.key.originNode).2
      txReadyPending := true } else ordered) s' := by
    refine ⟨t', _, ht, hrun, ?_⟩
    intro P hP _
    refine hP.bind (hP.when fun _ => hP.op trivial) fun _ => ?_
    exact hP.bind (hP.op trivial) fun _ => hP.each fun _ _ => hP.op trivial
  cases woken with
  | some payload => exact ⟨slot, queue, pfc, ordered, t, true, hqueue, hpfc, horder, hends⟩
  | none =>
    -- An unwoken queue is written back as it is.
    have hplaced : ordered.state.queues[slot]? = some { queue with
        pfc := some (pfc.control header.priority header.pause c.event.key.originNode).2 } := by
      rw [(orderIfPaused_keeps horder).1]
      exact setQueue_self (queueFor_ok hqueue)
    refine ⟨slot, queue, pfc, ordered, t, queue.txReadyPending, hqueue, hpfc, horder, ?_⟩
    rw [SwitchEntry.setQueue_same hplaced]
    exact hends

/-- Write the entry of a step, then leave the queues alone. -/
theorem SwitchRun.write {next : SwitchEntry} (arrived : List (Nat × PayloadId))
    (h : SwitchRun image desc first (admitted ++ arrived) next) (hwrite : EndsWriting c next s') :
    Continues image desc first admitted c s' := by
  have hclosed : ClosedClass (@KeepsView _ (fun e => (e.state.queues, e.pfcOrders)) c) :=
    KeepsView.closed fun _ _ => rfl
  obtain ⟨e', he', hview⟩ := hwrite.view hclosed
  obtain ⟨hqueues, horders⟩ := Prod.mk.inj hview
  exact ⟨_, e', he', h.counted hqueues horders⟩

section

variable (h : SwitchRun c.image desc first admitted e) (he : s.switchAt c.node = .ok e)

include h he

theorem switchPacketArrival_continues {arriving : PacketDescriptor}
    (hs : Names desc s.packets) (harriving : arriving.SameUnmarked (desc c.event.payload))
    (hrun : run c (switchPacketArrival c arriving) s = .ok ((), s')) :
    Continues c.image desc first admitted c s' := by
  obtain ⟨egress, info, t, slot, queueBytes, plan, next, hinfo, hstep, hwrite⟩ :=
    switchPacketArrival_writes he hrun
  have hnext := h.step (.arrival c s t arriving egress rfl hs harriving hinfo hstep)
  exact hnext.write _ hwrite

theorem switchTxReady_continues (hs : Names desc s.packets)
    (hrun : run c (switchTxReady c) s = .ok ((), s')) :
    Continues c.image desc first admitted c s' := by
  obtain ⟨egress, slot, queue, plan, t, outcome, served, next, hqueue, hplan, hserve, hnext,
    hwrite⟩ := switchTxReady_writes he hrun
  cases outcome with
  | none =>
    subst hnext
    exact (h.step (.idle c s t egress rfl hs hqueue hplan hserve)).write _ hwrite
  | some outcome =>
    exact (h.step (.serve c s t egress rfl hs hqueue hplan hserve hnext)).write _ hwrite

theorem switchTxComplete_continues
    (hrun : run c (switchTxComplete c) s = .ok ((), s')) :
    Continues c.image desc first admitted c s' := by
  obtain ⟨egress, slot, queue, sent, rateBps, scheduler, pending, next, hqueue, hscheduler,
    hqueues, -, horders, hwrite⟩ := switchTxComplete_writes he hrun
  have hcomplete := h.step (.complete c egress sent rateBps pending hqueue hscheduler)
  exact SwitchRun.write [] (hcomplete.counted hqueues horders) hwrite

theorem switchPfcRemoteArrival_continues {header : PfcHeader}
    (hs : Names desc s.packets) (hrun : run c (switchPfcRemoteArrival c header) s = .ok ((), s')) :
    Continues c.image desc first admitted c s' := by
  obtain ⟨slot, queue, pfc, ordered, t, pending, hqueue, hpfc, horder, hwrite⟩ :=
    switchPfcRemoteArrival_writes he hrun
  exact (h.step (.control c s t header pending rfl hs hqueue hpfc horder)).write _ hwrite

end

/-- What an event does at a switch is a stretch of a run of its queues. -/
theorem switch_handler_continues {kind : EventKind} {handler : TransitionHandler}
    (hc : c.node.kind = .switch) (hhandler : resolveTransition c.node.kind kind = some handler)
    (h : SwitchRun c.image desc first admitted e) (he : s.switchAt c.node = .ok e)
    (hs : Names desc s.packets) (hrun : run c (handlerProg c handler) s = .ok ((), s')) :
    Continues c.image desc first admitted c s' := by
  rw [hc] at hhandler
  cases kind with
  | txReady =>
    cases hhandler
    exact switchTxReady_continues h he hs hrun
  | txComplete =>
    cases hhandler
    exact switchTxComplete_continues h he hrun
  | remoteArrival =>
    cases hhandler
    obtain ⟨arriving, t, hpacket, hrest⟩ := run_bind_ok.1 hrun
    obtain ⟨hdesc, rfl⟩ := hs.packet hpacket
    split at hrest
    · exact switchPfcRemoteArrival_continues h he hs hrest
    · exact switchPacketArrival_continues h he hs hdesc hrest
  | packetArrival | retransmissionTimeout | pacingTimer => cases hhandler

end Handlers

/-! ## §3. Runs. -/

/-- The states an executor goes through, as one switch sees them: its own events, handled while the
store meets the condition, and whatever leaves its entry alone. -/
inductive SwitchEvents (image : SimulationImage)
    (known : Std.ExtTreeMap PayloadId ResidentPacket → Prop) (node : NodeDescriptor)
    (start : TransitionState) : TransitionState → Prop
  | start : SwitchEvents image known node start start
  | event {s s' : TransitionState} {mode : ObservationMode} {event : Event} {c : Ctx}
      {handler : TransitionHandler} (hs : SwitchEvents image known node start s)
      (hresolve : resolveEvent image mode event = .ok (c, handler)) (hnode : c.node = node)
      (hknown : known s.packets) (hdispatch : dispatch image mode event s = .ok s') :
      SwitchEvents image known node start s'
  | elsewhere {s s' : TransitionState} (hs : SwitchEvents image known node start s)
      (hsame : s'.switchAt node = s.switchAt node) : SwitchEvents image known node start s'

/-- An event that is carried out runs the handler it resolves to. -/
theorem dispatch_ok {image : SimulationImage} {mode : ObservationMode} {event : Event} {c : Ctx}
    {handler : TransitionHandler} (hresolve : resolveEvent image mode event = .ok (c, handler))
    (h : dispatch image mode event s = .ok s') :
    c.image = image ∧ resolveTransition c.node.kind event.kind = some handler ∧
      run c (handlerProg c handler) s = .ok ((), s') := by
  unfold dispatch at h
  rw [hresolve] at h
  obtain ⟨_, ⟨⟩, h⟩ := bind_ok h
  obtain ⟨⟨_, t⟩, hhandled, ⟨⟩⟩ := bind_pure_ok h
  obtain ⟨node, -, hresolve⟩ := bind_ok hresolve
  obtain ⟨found, hfound, ⟨⟩⟩ := bind_pure_ok hresolve
  exact ⟨rfl, okOr_eq_ok.1 hfound, hhandled⟩

/-- The induction rule for the entry of a switch: what holds at the start and is kept by every handler
holds over any events. -/
theorem SwitchEvents.invariant {image : SimulationImage}
    {known : Std.ExtTreeMap PayloadId ResidentPacket → Prop} {node : NodeDescriptor}
    {start s : TransitionState} {first : SwitchEntry} {P : SwitchEntry → Prop}
    (h : SwitchEvents image known node start s) (hfirst : start.switchAt node = .ok first) (hP : P first)
    (hstep : ∀ (c : Ctx) (kind : EventKind) (handler : TransitionHandler) (s s' : TransitionState)
      (e : SwitchEntry), c.image = image → c.node = node →
      resolveTransition c.node.kind kind = some handler → known s.packets →
      s.switchAt c.node = .ok e → P e → run c (handlerProg c handler) s = .ok ((), s') →
      ∃ e', s'.switchAt c.node = .ok e' ∧ P e') :
    ∃ e, s.switchAt node = .ok e ∧ P e := by
  induction h with
  | start => exact ⟨first, hfirst, hP⟩
  | @event s s' mode event c handler _ hresolve hnode hknown hdispatch ih =>
    obtain ⟨e, he, hP⟩ := ih
    obtain ⟨himage, hhandler, hhandled⟩ := dispatch_ok hresolve hdispatch
    subst hnode
    exact hstep c event.kind handler s s' e himage rfl hhandler hknown he hP hhandled
  | elsewhere _ hsame ih =>
    obtain ⟨e, he, hP⟩ := ih
    exact ⟨e, hsame.trans he, hP⟩

/-- Over any events, the entry of a switch goes through a run of its queues. -/
theorem SwitchEvents.switchRun {image : SimulationImage} {desc : PayloadId → PacketDescriptor}
    {node : NodeDescriptor} {start s : TransitionState} {first : SwitchEntry}
    (h : SwitchEvents image (Names desc) node start s) (hkind : node.kind = .switch)
    (hfirst : start.switchAt node = .ok first) :
    ∃ e, s.switchAt node = .ok e ∧ ∃ admitted, SwitchRun image desc first admitted e := by
  refine h.invariant hfirst ⟨[], .start⟩ ?_
  rintro c kind handler s s' e rfl rfl hhandler hnames he ⟨admitted, hrun⟩ hhandled
  obtain ⟨arrived, e', he', hrun'⟩ := switch_handler_continues hkind hhandler hrun he hnames hhandled
  exact ⟨e', he', _, hrun'⟩

/-! ## §4. First in, first out. -/

/-- One step of a first-in first-out queue that has no PFC monitor. -/
theorem QueueStep.fifo {image : SimulationImage} {desc : PayloadId → PacketDescriptor}
    {queue next : SwitchQueueState} {order order' : Option PfcClassOrder} {label : Option PayloadId}
    (h : QueueStep image desc queue order label next order') (hfifo : queue.scheduler = .fifo)
    (hpfc : queue.pfc = none) :
    next.scheduler = .fifo ∧ next.pfc = none ∧ next.queue <:+ queue.queue ++ label.toList := by
  have hsame (hsame : SameQueue queue next) : next.scheduler = .fifo ∧ next.pfc = none := by
    obtain ⟨hlike, hnone⟩ := hsame
    rw [hfifo] at hlike
    rw [hpfc] at hnone
    refine ⟨?_, by simpa using hnone⟩
    cases hnext : next.scheduler <;> simp_all [SchedulerKind.Like]
  cases h with
  | rest hs hqueue | build hs hqueue => exact ⟨(hsame hs).1, (hsame hs).2, by simp [hqueue]⟩
  | arrive hs hplaced =>
    unfold QueuedAt at hplaced
    rw [hfifo] at hplaced
    exact ⟨(hsame hs).1, (hsame hs).2, by simp [hplaced]⟩
  | serve hs _ hqueue _ hhead =>
    obtain rfl := hhead (by rw [hfifo]; rfl) (by rw [hpfc]; rfl)
    exact ⟨(hsame hs).1, (hsame hs).2, by simp [hqueue, List.eraseIdx_zero, List.tail_suffix]⟩

/-- First in, first out.  Over every run of a switch's queues a first-in first-out queue without a PFC
monitor holds the last of the packets it started with and has admitted since, in that order: no packet
leaves it before one that came earlier.  And any events dispatched at a switch take its entry through
such a run. -/
theorem fifo_queue_in_order (image : SimulationImage) (desc : PayloadId → PacketDescriptor)
    (first : SwitchEntry) :
    (∀ (admitted : List (Nat × PayloadId)) (entry : SwitchEntry),
      SwitchRun image desc first admitted entry →
      ∀ (slot : Nat) (initial queue : SwitchQueueState), first.state.queues[slot]? = some initial →
        initial.scheduler = .fifo → initial.pfc = none → entry.state.queues[slot]? = some queue →
        queue.queue <:+ initial.queue ++ (admitted.filter fun a => a.1 == slot).map (·.2)) ∧
    ∀ (node : NodeDescriptor) (start s : TransitionState), node.kind = .switch →
      start.switchAt node = .ok first → SwitchEvents image (Names desc) node start s →
      ∃ entry, s.switchAt node = .ok entry ∧ ∃ admitted, SwitchRun image desc first admitted entry := by
  refine ⟨fun admitted entry hrun slot initial queue hinitial hfifo hpfc hqueue => ?_,
    fun node start s hkind hfirst h => h.switchRun hkind hfirst⟩
  have hkept := hrun.queue_induction (P := fun i arrived queue _ => ∀ initial : SwitchQueueState,
    first.state.queues[i]? = some initial → initial.scheduler = .fifo → initial.pfc = none →
      queue.scheduler = .fifo ∧ queue.pfc = none ∧ queue.queue <:+ initial.queue ++ arrived) ?_ ?_ hqueue
  · exact (hkept initial hinitial hfifo hpfc).2.2
  · intro i queue hqueue initial hinitial hfifo hpfc
    obtain rfl := Option.some.inj (hqueue.symm.trans hinitial)
    exact ⟨hfifo, hpfc, by simp⟩
  · intro i arrived queue order label next order' hqueue hstep initial hinitial hfifo hpfc
    obtain ⟨hfifo, hpfc, hsuffix⟩ := hqueue initial hinitial hfifo hpfc
    obtain ⟨hfifo', hpfc', hnext⟩ := hstep.fifo hfifo hpfc
    refine ⟨hfifo', hpfc', hnext.trans ?_⟩
    obtain ⟨gone, hgone⟩ := hsuffix
    exact ⟨gone, by rw [← List.append_assoc, hgone, List.append_assoc]⟩

/-- A queue of two packets admits a third and serves one: the other and the third are left, in order. -/
theorem fifo_queue_in_order_two : ∃ entry : SwitchEntry,
    SwitchRun sampleSwitchImage sampleFrame (sampleEntry .fifo none) [(0, 2)] entry ∧
      ∃ queue, entry.state.queues[0]? = some queue ∧ queue.queue = [1, 2] ∧ queue.queue <:+ [0, 1, 2] := by
  obtain ⟨entry, hentry, hleft⟩ := exists_ok (admitAndServe (sampleEntry .fifo none))
    (fun entry => entry.state.queues[0]?.any fun queue => queue.queue == [1, 2]) (by decide +kernel)
  obtain ⟨queue, hqueue, hids⟩ := (Option.any_eq_true _ _).1 hleft
  have hrun := admitAndServe_run hentry
  exact ⟨entry, hrun, queue, hqueue, eq_of_beq hids, (fifo_queue_in_order sampleSwitchImage sampleFrame
    (sampleEntry .fifo none)).1 _ _ hrun 0 _ queue rfl rfl rfl hqueue⟩

end Days
