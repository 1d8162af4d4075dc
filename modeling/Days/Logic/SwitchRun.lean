/-
  Days.Logic.SwitchRun — the queues of a switch over its steps.

  A step is what one handler does to the switch's entry: the lookups it runs on
  the packet store and the update it makes.  An id names one packet throughout
  (`Names`).  `QueueStep` says once what a step can do to a queue and its class
  order; the invariants of the disciplines are derived from it.
-/
import Days.Logic.HostPure

namespace Days

open List Prog Option

variable {c : Ctx} {s s' : TransitionState} {slot : Nat}

variable {info : ArrivalInfo} {payload : PayloadId} {pfc : PfcQueueState} {ids : List PayloadId}
  {other position : Nat} {egress : Option LinkId} {outcome : ServiceOutcome}
  {plan : SwitchServicePlan} {served : SwitchQueueState}

theorem insertIdx_length_append {α : Type} (front back : List α) (a : α) :
    (front ++ back).insertIdx front.length a = front ++ a :: back := by
  induction front with
  | nil => rfl
  | cons x front ih => rw [cons_append, length_cons, insertIdx_succ_cons, ih]; rfl

/-! ## §1. Programs that only look packets up. -/

section Runs

variable {α β : Type} {c : Ctx} {s s' : TransitionState}

theorem run_bind_ok {x : Prog α} {f : α → Prog β} {b : β} :
    run c (x >>= f) s = .ok (b, s') ↔
      ∃ a t, run c x s = .ok (a, t) ∧ run c (f a) t = .ok (b, s') := by
  unfold run
  rw [Lib.Program.run_bind]
  cases hx : Lib.Program.run (Op.exec c) x s with
  | error e => simp [bind, Except.bind]
  | ok p =>
    obtain ⟨a, t⟩ := p
    simp only [bind, Except.bind, Except.ok.injEq, Prod.mk.injEq]
    constructor
    · exact fun h => ⟨a, t, ⟨rfl, rfl⟩, h⟩
    · rintro ⟨_, _, ⟨rfl, rfl⟩, h⟩
      exact h

theorem run_pure_ok {a b : α} : run c (pure a) s = .ok (b, s') ↔ a = b ∧ s = s' := by
  show (.ok (a, s) : Except ExecutionError (α × TransitionState)) = _ ↔ _
  rw [Except.ok.injEq, Prod.mk.injEq]

theorem run_lift_ok {x : Except PlainError α} {a : α} :
    run c (liftM x) s = .ok (a, s') ↔ x = .ok a ∧ s = s' := by
  cases x with
  | error e =>
    show (Except.error (.plain e) : Except ExecutionError (α × TransitionState)) = _ ↔ _
    simp
  | ok b =>
    show (.ok (b, s) : Except ExecutionError (α × TransitionState)) = _ ↔ _
    simp

theorem run_packet_ok {id : PayloadId} {p : PacketDescriptor} :
    run c (packet id) s = .ok (p, s') ↔
      (∃ r, s.packets[id]? = some r ∧ r.descriptor = p) ∧ s = s' := by
  show Lib.Program.run (Op.exec c) (Lib.Program.op (Op.packet id)) s = _ ↔ _
  rw [Lib.Program.run_op]
  unfold Op.exec TransitionState.resident
  cases hr : s.packets[id]? with
  | none => simp [okOr, hr, liftPlain, bind, Except.bind]
  | some r => simp [okOr, hr, liftPlain, bind, Except.bind, pure, Except.pure]

end Runs

/-! ## §2. The packets behind the ids. -/

section Names

variable (image : SimulationImage) (desc : PayloadId → PacketDescriptor)

/-- An id names one packet: what is stored under it is described by `desc`, its mark aside. -/
def Names (store : Std.ExtTreeMap PayloadId ResidentPacket) : Prop :=
  ∀ (id : PayloadId) (r : ResidentPacket), store[id]? = some r → r.descriptor.SameUnmarked (desc id)

/-- The PFC classes of some packets, in order. -/
def ClassesOf (ids : List PayloadId) (classes : List Nat) : Prop :=
  List.Forall₂ (fun id priority => image.packetPfcClass (desc id) = .ok priority) ids classes

end Names

variable {image : SimulationImage} {desc : PayloadId → PacketDescriptor}

theorem PacketDescriptor.SameUnmarked.packetPfcClass {a b : PacketDescriptor} (h : a.SameUnmarked b) :
    image.packetPfcClass a = image.packetPfcClass b := by
  unfold SimulationImage.packetPfcClass
  rw [h.2.1, h.2.2.2]

/-- A lookup finds the packet the id names. -/
theorem Names.packet {id : PayloadId} {p : PacketDescriptor}
    (h : Names desc s.packets) (hrun : run c (packet id) s = .ok (p, s')) :
    p.SameUnmarked (desc id) ∧ s = s' := by
  obtain ⟨⟨r, hr, rfl⟩, rfl⟩ := run_packet_ok.1 hrun
  exact ⟨h id r hr, rfl⟩

/-- The order built from a queue lists the classes of its packets. -/
theorem pfcOrderOf_ok {order built : PfcClassOrder}
    (hs : Names desc s.packets) (h : run c (pfcOrderOf c order ids) s = .ok (built, s')) :
    ∃ classes, ClassesOf c.image desc ids classes ∧ built = classes.foldl PfcClassOrder.push order := by
  induction ids generalizing order with
  | nil => exact ⟨[], .nil, (run_pure_ok.1 h).1.symm⟩
  | cons id rest ih =>
    obtain ⟨p, t, hp, h⟩ := run_bind_ok.1 h
    obtain ⟨hdesc, rfl⟩ := hs.packet hp
    obtain ⟨priority, t, hpriority, h⟩ := run_bind_ok.1 h
    obtain ⟨hclass, rfl⟩ := run_lift_ok.1 hpriority
    obtain ⟨classes, hclasses, rfl⟩ := ih h
    exact ⟨priority :: classes, .cons (hdesc.packetPfcClass ▸ hclass) hclasses, rfl⟩

theorem derivedClassOrder_ok {store : Std.ExtTreeMap PayloadId ResidentPacket}
    {order built : PfcClassOrder} (hs : Names desc store)
    (h : derivedClassOrder image store order ids = .ok built) :
    ∃ classes, ClassesOf image desc ids classes ∧ built = classes.foldl PfcClassOrder.push order := by
  induction ids generalizing order with
  | nil => exact ⟨[], .nil, (Except.ok.inj h).symm⟩
  | cons id rest ih =>
    obtain ⟨r, hr, h⟩ := bind_ok h
    obtain ⟨priority, hclass, h⟩ := bind_ok h
    obtain ⟨classes, hclasses, rfl⟩ := ih h
    have hdesc := hs id r (okOr_eq_ok.1 hr)
    exact ⟨priority :: classes, .cons (hdesc.packetPfcClass ▸ hclass) hclasses, rfl⟩

/-- The priority of a packet at a static-priority queue. -/
def spPriority (desc : PayloadId → PacketDescriptor) (priorities : List Nat) (id : PayloadId) : Nat :=
  priorities.getD ((schedulerClass (desc id).flow priorities.length).getD 0) 0

/-- The insertion point lies behind the packets of at least the incoming priority. -/
theorem spInsertionPosition_ok {priorities : List Nat} {incoming : Nat} (hs : Names desc s.packets)
    (h : run c (spInsertionPosition c priorities incoming ids) s = .ok (position, s')) :
    position = (ids.takeWhile fun id => decide (incoming ≤ spPriority desc priorities id)).length := by
  induction ids generalizing position s' with
  | nil => exact (run_pure_ok.1 h).1.symm
  | cons id rest ih =>
    rw [spInsertionPosition] at h
    obtain ⟨queued, t, hqueued, h⟩ := run_bind_ok.1 h
    obtain ⟨hdesc, rfl⟩ := hs.packet hqueued
    obtain ⟨queuedClass, t, hlookup, h⟩ := run_bind_ok.1 h
    obtain ⟨hclass, rfl⟩ := run_lift_ok.1 hlookup
    have hpriority : spPriority desc priorities id = priorities.getD queuedClass 0 := by
      unfold spPriority
      rw [← hdesc.2.1, okOr_eq_ok.1 hclass]
      rfl
    by_cases hlower : priorities.getD queuedClass 0 < incoming
    · rw [if_pos hlower] at h
      rw [takeWhile_cons_of_neg (by rw [hpriority]; simpa using hlower)]
      exact (run_pure_ok.1 h).1.symm
    · rw [if_neg hlower] at h
      obtain ⟨tail, t, htail, h⟩ := run_bind_ok.1 h
      rw [takeWhile_cons_of_pos (by rw [hpriority]; simpa using hlower), length_cons, ← ih htail]
      exact (run_pure_ok.1 h).1.symm

/-! ## §3. Steps of a switch. -/

/-- What the handlers of a switch do to its entry.  The label is the slot and the packet of an
    admission. -/
inductive SwitchStep (image : SimulationImage) (desc : PayloadId → PacketDescriptor) :
    SwitchEntry → Option (Nat × PayloadId) → SwitchEntry → Prop
  /-- The update of `switch_remote_arrival`. -/
  | arrival {entry next : SwitchEntry} {slot queueBytes : Nat} {plan : ArrivalPlan} {info : ArrivalInfo}
      (c : Ctx) (s s' : TransitionState) (arriving : PacketDescriptor) (egress : Option LinkId)
      (hc : c.image = image) (hs : Names desc s.packets)
      (harriving : arriving.SameUnmarked (desc c.event.payload))
      (hinfo : Prog.run c (arrivalInfo c entry arriving egress) s = .ok (info, s'))
      (hstep : arrivalStep c entry egress info = .ok (slot, queueBytes, plan, next)) :
      SwitchStep image desc entry
        (if plan.disposition = .admitted then some (slot, c.event.payload) else none) next
  /-- `switch_tx_ready` with a packet to serve. -/
  | serve {entry next : SwitchEntry} {slot : Nat} {queue served : SwitchQueueState}
      {plan : SwitchServicePlan} {outcome : ServiceOutcome} (c : Ctx) (s s' : TransitionState)
      (egress : LinkId) (hc : c.image = image) (hs : Names desc s.packets)
      (hqueue : entry.queueFor c.node.id (some egress) = .ok (slot, queue))
      (hplan : Prog.run c (switchServicePlan c entry slot queue) s = .ok (plan, s'))
      (hserve : serviceStep c slot { queue with txReadyPending := false } plan =
        .ok (some outcome, served))
      (hsettle : settleService c entry slot served outcome = .ok next) :
      SwitchStep image desc entry none next
  /-- `switch_tx_ready` with nothing to serve. -/
  | idle {entry : SwitchEntry} {slot : Nat} {queue served : SwitchQueueState} {plan : SwitchServicePlan}
      (c : Ctx) (s s' : TransitionState) (egress : LinkId) (hc : c.image = image)
      (hs : Names desc s.packets)
      (hqueue : entry.queueFor c.node.id (some egress) = .ok (slot, queue))
      (hplan : Prog.run c (switchServicePlan c entry slot queue) s = .ok (plan, s'))
      (hserve : serviceStep c slot { queue with txReadyPending := false } plan = .ok (none, served)) :
      SwitchStep image desc entry none (entry.setQueue slot served)
  /-- The queue update of `switch_tx_complete`. -/
  | complete {entry : SwitchEntry} {slot : Nat} {queue : SwitchQueueState} {scheduler : SchedulerKind}
      (c : Ctx) (egress : LinkId) (sent : PacketDescriptor) (rateBps : Nat) (pending : Bool)
      (hqueue : entry.queueFor c.node.id (some egress) = .ok (slot, queue))
      (hscheduler : completeScheduler c queue.scheduler sent rateBps = .ok scheduler) :
      SwitchStep image desc entry none
        (entry.setQueue slot { queue with scheduler, inService := none, txReadyPending := pending })
  /-- A PAUSE or RESUME of `switch_pfc_remote_arrival`; a pause builds a missing class order. -/
  | control {entry ordered : SwitchEntry} {slot : Nat} {queue : SwitchQueueState} {pfc : PfcQueueState}
      (c : Ctx) (s s' : TransitionState) (header : PfcHeader) (pending : Bool) (hc : c.image = image)
      (hs : Names desc s.packets)
      (hqueue : entry.queueFor c.node.id (some header.controlledLink) = .ok (slot, queue))
      (hpfc : queue.pfc = some pfc)
      (horder : Prog.run c (orderIfPaused c slot header.pause (entry.setQueue slot { queue with
        pfc := some (pfc.control header.priority header.pause c.event.key.originNode).2 })) s =
          .ok (ordered, s')) :
      SwitchStep image desc entry none (ordered.setQueue slot { queue with
        pfc := some (pfc.control header.priority header.pause c.event.key.originNode).2
        txReadyPending := pending })
  /-- Counters and sequence numbers, which no queue depends on. -/
  | count {entry : SwitchEntry} (state : SwitchState) (queueBytes : List Nat)
      (hqueues : state.queues = entry.state.queues) :
      SwitchStep image desc entry none ⟨state, queueBytes, entry.pfcOrders⟩

/-- The entries reached, with the packets admitted to each slot in order. -/
inductive SwitchRun (image : SimulationImage) (desc : PayloadId → PacketDescriptor)
    (first : SwitchEntry) : List (Nat × PayloadId) → SwitchEntry → Prop
  | start : SwitchRun image desc first [] first
  | step {admitted : List (Nat × PayloadId)} {entry next : SwitchEntry} {label : Option (Nat × PayloadId)}
      (hrun : SwitchRun image desc first admitted entry) (hstep : SwitchStep image desc entry label next) :
      SwitchRun image desc first (admitted ++ label.toList) next

/-! ## §4. What a step does to a queue. -/

/-- The same discipline, whatever its state. -/
def SchedulerKind.Like : SchedulerKind → SchedulerKind → Prop
  | .fifo, .fifo => True
  | .staticPriority priorities, .staticPriority others => others = priorities
  | .weightedFairQueue _, .weightedFairQueue _ => True
  | .deficitRoundRobin _, .deficitRoundRobin _ => True
  | .weightedRoundRobin _, .weightedRoundRobin _ => True
  | _, _ => False

theorem SchedulerKind.Like.of_eq {k next : SchedulerKind} (h : next = k) : k.Like next := by
  subst h
  cases next <;> simp [SchedulerKind.Like]

theorem SchedulerKind.Like.refl (k : SchedulerKind) : k.Like k := .of_eq rfl

/-- The discipline and the presence of a PFC monitor do not change. -/
structure SameQueue (queue next : SwitchQueueState) : Prop where
  scheduler : queue.scheduler.Like next.scheduler
  pfc : next.pfc.isSome = queue.pfc.isSome

/-- Where an admitted packet goes. -/
def QueuedAt (desc : PayloadId → PacketDescriptor) (scheduler : SchedulerKind) (waiting : List PayloadId)
    (payload : PayloadId) (next : List PayloadId) : Prop :=
  match scheduler with
  | .staticPriority priorities => next = waiting.insertIdx (waiting.takeWhile fun id =>
      decide (spPriority desc priorities payload ≤ spPriority desc priorities id)).length payload
  | .weightedFairQueue _ => True
  | _ => next = waiting ++ [payload]

/-- One step of a queue and its class order; the label is an admitted packet. -/
inductive QueueStep (image : SimulationImage) (desc : PayloadId → PacketDescriptor)
    (queue : SwitchQueueState) (order : Option PfcClassOrder) :
    Option PayloadId → SwitchQueueState → Option PfcClassOrder → Prop
  | rest {next : SwitchQueueState} (hsame : SameQueue queue next) (hqueue : next.queue = queue.queue) :
      QueueStep image desc queue order none next order
  | build {next : SwitchQueueState} {classes : List Nat} (hsame : SameQueue queue next)
      (hqueue : next.queue = queue.queue) (hfifo : queue.scheduler.isFifo = true)
      (hpfc : queue.pfc.isSome = true) (hclasses : ClassesOf image desc queue.queue classes) :
      QueueStep image desc queue order none next (some (classes.foldl PfcClassOrder.push .new))
  | arrive {next : SwitchQueueState} {payload : PayloadId} {priority : Nat} (hsame : SameQueue queue next)
      (hplaced : QueuedAt desc queue.scheduler queue.queue payload next.queue)
      (hclass : queue.pfc.isSome = true → image.packetPfcClass (desc payload) = .ok priority) :
      QueueStep image desc queue order (some payload) next
        (if queue.pfc.isSome then order.map (·.push priority) else order)
  | serve {next : SwitchQueueState} {position : Nat} {payload : PayloadId}
      {order' : Option PfcClassOrder} (hsame : SameQueue queue next)
      (hpayload : queue.queue[position]? = some payload)
      (hqueue : next.queue = queue.queue.eraseIdx position)
      (hnone : order = none → order' = none)
      -- A head-serving queue that nothing pauses serves its head.
      (hhead : schedulerServesHead queue.scheduler = true → (queue.pfc.all fun pfc => !pfcAnyPaused pfc) →
        position = 0)
      -- A queue with a class order serves what the order selects.
      (horder : ∀ known, order = some known → queue.scheduler.isFifo = true → queue.pfc.isSome = true →
        ∃ pfc priority, (position = 0 ∨ known.firstUnpausedPosition pfc = some position) ∧
          image.packetPfcClass (desc payload) = .ok priority ∧ order' = some (known.pop priority)) :
      QueueStep image desc queue order none next order'

section Entry

variable {entry : SwitchEntry} {slot : Nat} {queue next : SwitchQueueState}

theorem queueFor_ok {node : NodeId} (h : entry.queueFor node egress = .ok (slot, queue)) :
    entry.state.queues[slot]? = some queue := by
  obtain ⟨found, -, hqueue⟩ := bind_eq_some_iff.1 (okOr_eq_ok.1 h)
  obtain ⟨q, hq, heq⟩ := map_eq_some_iff.1 hqueue
  obtain ⟨rfl, rfl⟩ := Prod.mk.inj heq
  exact hq

theorem setQueue_self (h : entry.state.queues[slot]? = some queue) :
    (entry.setQueue slot next).state.queues[slot]? = some next := by
  have hlt : slot < entry.state.queues.length := (List.getElem?_eq_some_iff.1 h).1
  show (entry.state.queues.set slot next)[slot]? = some next
  rw [getElem?_set_self hlt]

theorem pfcOrder_setQueue : (entry.setQueue slot next).pfcOrder other = entry.pfcOrder other := rfl

theorem pfcOrder_modify_self (f : PfcClassOrder → PfcClassOrder) :
    (entry.modifyPfcOrder slot f).pfcOrder slot = (entry.pfcOrder slot).map f := by
  show ((entry.pfcOrders.modify slot (Option.map f))[slot]?).join = _
  unfold SwitchEntry.pfcOrder
  rw [getElem?_modify_eq]
  cases entry.pfcOrders[slot]? <;> rfl

theorem pfcOrder_modify_ne (h : slot ≠ other) (f : PfcClassOrder → PfcClassOrder) :
    (entry.modifyPfcOrder slot f).pfcOrder other = entry.pfcOrder other := by
  show ((entry.pfcOrders.modify slot (Option.map f))[other]?).join = _
  rw [getElem?_modify_ne _ _ h]
  rfl

/-- Writing an order has an effect only at a slot that has one. -/
theorem join_set_cases (orders : List (Option PfcClassOrder)) (slot : Nat) (order : PfcClassOrder) :
    ((orders.set slot (some order))[slot]?).join = some order ∨
      ((orders.set slot (some order))[slot]?).join = (orders[slot]?).join := by
  by_cases hlt : slot < orders.length
  · exact .inl (by rw [getElem?_set_self hlt]; rfl)
  · exact .inr (by rw [set_eq_of_length_le (by omega)])

end Entry

section Parts

variable {c : Ctx} {queue next : SwitchQueueState}

/-- Accounting writes the monitors only. -/
theorem account_ok {incoming : Option LinkId}
    {f : PfcIngressState → Except PlainError (PfcStep × PfcIngressState)} {step : PfcStep}
    (h : queue.account incoming f = .ok (step, next)) :
    ∃ pfc, next = { queue with pfc } ∧ pfc.isSome = queue.pfc.isSome := by
  unfold SwitchQueueState.account at h
  split at h
  · cases h
    exact ⟨queue.pfc, rfl, rfl⟩
  · next pfc hpfc =>
    obtain ⟨⟨_, pfc'⟩, -, ⟨⟩⟩ := bind_pure_ok h
    exact ⟨some pfc', rfl, by rw [hpfc]; rfl⟩

/-- Admission writes the waiting packets and the state of the discipline only. -/
theorem enqueueArrival_frame (h : enqueueArrival c queue info = .ok next) :
    ∃ ids scheduler, next = { queue with queue := ids, scheduler } := by
  unfold enqueueArrival at h
  split at h
  iterate 3 cases h; exact ⟨_, _, rfl⟩
  · obtain ⟨position, -, ⟨⟩⟩ := bind_pure_ok h
    exact ⟨_, _, rfl⟩
  · obtain ⟨rateBps, -, h⟩ := bind_ok h
    obtain ⟨⟨wfq, waiting⟩, -, ⟨⟩⟩ := bind_pure_ok h
    exact ⟨_, _, rfl⟩

/-- Where priorities decide it, the position of an arrival is the stable one. -/
def InsertsAt (desc : PayloadId → PacketDescriptor) (queue : SwitchQueueState) (payload : PayloadId)
    (position : Option Nat) : Prop :=
  ∀ priorities, queue.scheduler = .staticPriority priorities →
    position = some (queue.queue.takeWhile fun id => decide
      (spPriority desc priorities payload ≤ spPriority desc priorities id)).length

/-- What admission does to a queue. -/
theorem enqueueArrival_ok (h : enqueueArrival c queue info = .ok next)
    (hsp : InsertsAt desc queue c.event.payload info.spPosition) :
    SameQueue queue next ∧ QueuedAt desc queue.scheduler queue.queue c.event.payload next.queue := by
  unfold enqueueArrival at h
  unfold QueuedAt
  cases hscheduler : queue.scheduler with
  | fifo | deficitRoundRobin _ | weightedRoundRobin _ =>
    simp only [hscheduler] at h ⊢
    rw [← Except.ok.inj h]
    exact ⟨⟨.of_eq hscheduler.symm, rfl⟩, rfl⟩
  | staticPriority priorities =>
    simp only [hscheduler] at h ⊢
    obtain ⟨position, hposition, h⟩ := bind_ok h
    have hpos := okOr_eq_ok.1 hposition
    rw [hsp priorities hscheduler] at hpos
    rw [← Except.ok.inj h, some.inj hpos]
    exact ⟨⟨.of_eq hscheduler.symm, rfl⟩, rfl⟩
  | weightedFairQueue wfq =>
    simp only [hscheduler] at h ⊢
    obtain ⟨rateBps, -, h⟩ := bind_ok h
    obtain ⟨⟨wfq', waiting⟩, -, h⟩ := bind_ok h
    rw [← Except.ok.inj h]
    refine ⟨⟨?_, rfl⟩, trivial⟩
    rw [hscheduler]
    trivial

/-- Selection keeps the discipline. -/
theorem schedulerSelectPosition_like {scheduler after : SchedulerKind} {packets : List PacketDescriptor}
    {node : NodeId} {choice : Option (Nat × Nat)}
    (h : schedulerSelectPosition scheduler packets node = .ok (choice, after)) : scheduler.Like after := by
  unfold schedulerSelectPosition at h
  split at h
  · cases pure_eq_ok.1 h
    exact SchedulerKind.Like.refl _
  · cases scheduler with
    | fifo | staticPriority _ | weightedFairQueue _ =>
      cases pure_eq_ok.1 h
      exact SchedulerKind.Like.refl _
    | deficitRoundRobin _ | weightedRoundRobin _ =>
      obtain ⟨_, -, h⟩ := bind_ok h
      obtain ⟨_, -, h⟩ := bind_ok h
      obtain ⟨result, -, ⟨⟩⟩ := bind_pure_ok h
      trivial

theorem takeIntoService_ok (h : takeIntoService c queue position = .ok (payload, next)) :
    queue.queue[position]? = some payload ∧
      next = { queue with queue := queue.queue.eraseIdx position, inService := some payload } := by
  obtain ⟨found, hfound, h⟩ := bind_ok h
  cases hscheduler : queue.scheduler with
  | weightedFairQueue wfq =>
    simp only [hscheduler] at h
    obtain ⟨_, -, h⟩ := bind_ok h
    cases h
    exact ⟨okOr_eq_ok.1 hfound, rfl⟩
  | _ =>
    simp only [hscheduler] at h
    cases h
    exact ⟨okOr_eq_ok.1 hfound, rfl⟩

theorem serveSelection_ok {scanSteps : Nat} {before : SchedulerKind}
    {eligible : List PacketDescriptor} {selection : PfcSelection}
    (h : serveSelection c slot queue before scanSteps eligible selection = .ok (outcome, next)) :
    queue.queue[selection.position]? = some outcome.payload ∧
      next.queue = queue.queue.eraseIdx selection.position ∧ next.scheduler = queue.scheduler ∧
      next.pfc.isSome = queue.pfc.isSome ∧ outcome.priority = some selection.priority ∧
      outcome.packet = selection.packet := by
  obtain ⟨⟨payload, taken⟩, htaken, h⟩ := bind_ok h
  obtain ⟨hpayload, rfl⟩ := takeIntoService_ok htaken
  obtain ⟨⟨step, accounted⟩, haccount, h⟩ := bind_ok h
  obtain ⟨pfc, rfl, hpfc⟩ := account_ok haccount
  cases h
  exact ⟨hpayload, rfl, rfl, hpfc, rfl, rfl⟩

/-- What waiting packets and disciplines do not bear on, and accounting keeps, a service keeps. -/
theorem serviceStep_keeps {P : SwitchQueueState → Prop} {plan : SwitchServicePlan}
    {outcome : Option ServiceOutcome} (h : serviceStep c slot queue plan = .ok (outcome, next))
    (hwrite : ∀ q ids scheduler inService, P q → P { q with queue := ids, scheduler, inService })
    (haccount : ∀ q incoming priority packet step q', P q →
      q.account incoming (PfcIngressState.drain c slot priority packet) = .ok (step, q') → P q')
    (hqueue : P queue) : P next := by
  have htake {q q' position payload} (hq : P q) (h : takeIntoService c q position = .ok (payload, q')) : P q' := by
    obtain ⟨-, rfl⟩ := takeIntoService_ok h
    exact hwrite q _ _ _ hq
  have hserve {q q' before scanSteps eligible selection outcome} (hq : P q)
      (h : serveSelection c slot q before scanSteps eligible selection = .ok (outcome, q')) : P q' := by
    obtain ⟨⟨payload, taken⟩, htaken, h⟩ := bind_ok h
    obtain ⟨⟨step, accounted⟩, haccounted, ⟨⟩⟩ := bind_pure_ok h
    exact haccount _ _ _ _ _ _ (htake hq htaken) haccounted
  unfold serviceStep at h
  split at h
  · cases h
    exact hqueue
  · cases h
    exact hqueue
  · obtain ⟨⟨payload, taken⟩, htaken, ⟨⟩⟩ := bind_pure_ok h
    exact htake hqueue htaken
  · obtain ⟨⟨served, taken⟩, htaken, ⟨⟩⟩ := bind_pure_ok h
    exact hserve hqueue htaken
  · obtain ⟨⟨selected, scheduler⟩, -, h⟩ := bind_ok h
    have hselected := hwrite queue queue.queue scheduler queue.inService hqueue
    dsimp only at h
    split at h
    · cases pure_eq_ok.1 h
      exact hselected
    · obtain ⟨selection, -, h⟩ := bind_ok h
      obtain ⟨⟨served, taken⟩, htaken, ⟨⟩⟩ := bind_pure_ok h
      exact hserve hselected htaken

theorem completeScheduler_like {scheduler after : SchedulerKind} {sent : PacketDescriptor} {rateBps : Nat}
    (h : completeScheduler c scheduler sent rateBps = .ok after) : scheduler.Like after := by
  cases scheduler with
  | weightedFairQueue wfq =>
    obtain ⟨_, -, h⟩ := bind_ok h
    rw [← Except.ok.inj h]
    trivial
  | _ =>
    rw [← Except.ok.inj h]
    exact SchedulerKind.Like.refl _

end Parts

/-! ## §5. Lookups of a step. -/

section Lookups

variable {c : Ctx} {s s' : TransitionState} {entry : SwitchEntry}

theorem switchSpInsertionPosition_ok {arriving : PacketDescriptor} {result : Option Nat}
    (hs : Names desc s.packets) (harriving : arriving.SameUnmarked (desc c.event.payload))
    (h : run c (switchSpInsertionPosition c entry egress arriving.flow) s = .ok (result, s')) :
    ∃ slot queue, entry.queueFor c.node.id egress = .ok (slot, queue) ∧
      InsertsAt desc queue c.event.payload result := by
  obtain ⟨⟨slot, queue⟩, t, hlookup, h⟩ := run_bind_ok.1 h
  obtain ⟨hqueue, rfl⟩ := run_lift_ok.1 hlookup
  refine ⟨slot, queue, hqueue, fun priorities hscheduler => ?_⟩
  simp only [hscheduler] at h
  obtain ⟨incomingClass, t, hclassRun, h⟩ := run_bind_ok.1 h
  obtain ⟨hclass, rfl⟩ := run_lift_ok.1 hclassRun
  obtain ⟨position, t, hposition, h⟩ := run_bind_ok.1 h
  have hpriority : spPriority desc priorities c.event.payload = priorities.getD incomingClass 0 := by
    unfold spPriority
    rw [← harriving.2.1, okOr_eq_ok.1 hclass]
    rfl
  rw [hpriority, ← spInsertionPosition_ok hs hposition]
  exact (run_pure_ok.1 h).1.symm

theorem arrivalInfo_ok {arriving : PacketDescriptor} (hs : Names desc s.packets)
    (harriving : arriving.SameUnmarked (desc c.event.payload))
    (h : run c (arrivalInfo c entry arriving egress) s = .ok (info, s')) :
    ∃ slot queue, entry.queueFor c.node.id egress = .ok (slot, queue) ∧
      InsertsAt desc queue c.event.payload info.spPosition ∧
      (queue.pfc.isSome = true → c.image.packetPfcClass (desc c.event.payload) = .ok info.priority) ∧
      info.packet = arriving := by
  obtain ⟨rateBps, t, hrate, h⟩ := run_bind_ok.1 h
  obtain ⟨-, rfl⟩ := run_lift_ok.1 hrate
  obtain ⟨spPosition, t, hposition, h⟩ := run_bind_ok.1 h
  obtain ⟨slot, queue, hqueue, hsp⟩ := switchSpInsertionPosition_ok hs harriving hposition
  obtain ⟨⟨slot', queue'⟩, t', hlookup, h⟩ := run_bind_ok.1 h
  obtain ⟨hqueue', rfl⟩ := run_lift_ok.1 hlookup
  cases hqueue.symm.trans hqueue'
  refine ⟨slot, queue, hqueue, ?_⟩
  by_cases hpfc : queue.pfc.isSome = true
  · simp only [hpfc, if_true] at h
    obtain ⟨priority, t', hclassRun, h⟩ := run_bind_ok.1 h
    obtain ⟨hclass, rfl⟩ := run_lift_ok.1 hclassRun
    obtain ⟨incoming, t', hincoming, h⟩ := run_bind_ok.1 h
    obtain ⟨rfl, -⟩ := run_pure_ok.1 h
    exact ⟨hsp, fun _ => harriving.packetPfcClass ▸ hclass, rfl⟩
  · simp only [hpfc] at h
    obtain ⟨rfl, -⟩ := run_pure_ok.1 h
    exact ⟨hsp, fun hsome => absurd hsome hpfc, rfl⟩

/-- What the eligible list says about its first packet: where it waits, and what the lookups of a
    selection give. -/
structure FirstSelection (c : Ctx) (s : TransitionState) (position : Nat) (payload : PayloadId)
    (selection : PfcSelection) : Prop where
  position : selection.position = position
  packet : Prog.run c (packet payload) s = .ok (selection.packet, s)
  priority : c.image.packetPfcClass selection.packet = .ok selection.priority
  incoming : c.image.packetIncomingLinkAt selection.packet c.node.id = .ok selection.incomingLink

/-- One turn of the eligible list: the packet is skipped or listed first. -/
theorem eligibleSelections_cons {pfc : Option PfcQueueState} {start : Nat} {id : PayloadId}
    {rest : List PayloadId} {selections : List PfcSelection}
    (h : run c (eligibleSelections c pfc start (id :: rest)) s = .ok (selections, s')) :
    ∃ p priority, run c (packet id) s = .ok (p, s) ∧ c.image.packetPfcClass p = .ok priority ∧
      ((pfc.any fun pfc => pfc.isPaused priority) = true ∧
          run c (eligibleSelections c pfc (start + 1) rest) s = .ok (selections, s') ∨
        (pfc.any fun pfc => pfc.isPaused priority) = false ∧ ∃ selection others,
          selections = selection :: others ∧ FirstSelection c s start id selection ∧
          run c (eligibleSelections c pfc (start + 1) rest) s = .ok (others, s')) := by
  rw [eligibleSelections] at h
  obtain ⟨p, t, hp, h⟩ := run_bind_ok.1 h
  obtain ⟨hfound, rfl⟩ := run_packet_ok.1 hp
  obtain ⟨priority, t, hclassRun, h⟩ := run_bind_ok.1 h
  obtain ⟨hclass, rfl⟩ := run_lift_ok.1 hclassRun
  refine ⟨p, priority, hp, hclass, ?_⟩
  by_cases hpaused : (pfc.any fun pfc => pfc.isPaused priority) = true
  · rw [if_pos hpaused] at h
    exact .inl ⟨hpaused, h⟩
  · rw [if_neg hpaused] at h
    obtain ⟨incoming, t, hincomingRun, h⟩ := run_bind_ok.1 h
    obtain ⟨hincoming, rfl⟩ := run_lift_ok.1 hincomingRun
    obtain ⟨others, t, hothers, h⟩ := run_bind_ok.1 h
    obtain ⟨rfl, rfl⟩ := run_pure_ok.1 h
    exact .inr ⟨by simpa using hpaused, ⟨start, p, priority, incoming⟩, others, rfl,
      ⟨rfl, hp, hclass, hincoming⟩, hothers⟩

/-- Every eligible packet is the one waiting at its position. -/
theorem eligibleSelections_named {pfc : Option PfcQueueState} {start : Nat}
    {selections : List PfcSelection} (hs : Names desc s.packets)
    (h : run c (eligibleSelections c pfc start ids) s = .ok (selections, s')) :
    ∀ selection ∈ selections, ∃ i id, selection.position = start + i ∧ ids[i]? = some id ∧
      selection.packet.SameUnmarked (desc id) := by
  induction ids generalizing start selections with
  | nil =>
    obtain ⟨rfl, -⟩ := run_pure_ok.1 h
    simp
  | cons id rest ih =>
    -- A packet further back waits one position later in the whole queue.
    have hlater {others} (htail : run c (eligibleSelections c pfc (start + 1) rest) s = .ok (others, s')) :
        ∀ selection ∈ others, ∃ i id', selection.position = start + i ∧ (id :: rest)[i]? = some id' ∧
          selection.packet.SameUnmarked (desc id') := by
      intro selection hmem
      obtain ⟨i, id', hposition, hid, hdesc⟩ := ih htail selection hmem
      exact ⟨i + 1, id', by omega, hid, hdesc⟩
    obtain ⟨p, priority, -, -, ⟨-, htail⟩ | ⟨-, selection, others, rfl, hfirst, htail⟩⟩ :=
      eligibleSelections_cons h
    · exact hlater htail
    · intro chosen hmem
      rcases mem_cons.1 hmem with rfl | hmem
      · exact ⟨0, id, hfirst.position, rfl, (hs.packet hfirst.packet).1⟩
      · exact hlater htail chosen hmem

theorem search_ok {start : Nat}
    (h : run c (pfcFirstEligibleBySearch c pfc start ids) s = .ok (some (position, payload), s')) :
    s = s' ∧ ∃ i, position = start + i ∧ ids[i]? = some payload := by
  induction ids generalizing start with
  | nil => cases (run_pure_ok.1 h).1
  | cons id rest ih =>
    rw [pfcFirstEligibleBySearch] at h
    obtain ⟨p, t, hp, h⟩ := run_bind_ok.1 h
    obtain ⟨-, rfl⟩ := run_packet_ok.1 hp
    obtain ⟨priority, t, hclassRun, h⟩ := run_bind_ok.1 h
    obtain ⟨-, rfl⟩ := run_lift_ok.1 hclassRun
    split at h
    · obtain ⟨heq, hs⟩ := run_pure_ok.1 h
      obtain ⟨rfl, rfl⟩ := Prod.mk.inj (some.inj heq)
      exact ⟨hs, 0, rfl, rfl⟩
    · obtain ⟨hs, i, rfl, hi⟩ := ih h
      exact ⟨hs, i + 1, by omega, by simpa using hi⟩

/-- What the first eligible packet is. -/
theorem pfcFirstEligible_ok {queue : SwitchQueueState} {order : Option PfcClassOrder}
    (h : run c (pfcFirstEligible c queue pfc order) s = .ok (some (position, payload), s')) :
    s = s' ∧ queue.queue[position]? = some payload ∧ (pfcAnyPaused pfc = false → position = 0) ∧
      ∀ known, order = some known → position = 0 ∨ known.firstUnpausedPosition pfc = some position := by
  unfold pfcFirstEligible at h
  cases hqueue : queue.queue with
  | nil =>
    simp only [hqueue] at h
    cases (run_pure_ok.1 h).1
  | cons head rest =>
    simp only [hqueue] at h
    by_cases hpaused : pfcAnyPaused pfc = true
    · simp only [hpaused] at h ⊢
      cases order with
      | none =>
        obtain ⟨hs, i, rfl, hi⟩ := search_ok h
        exact ⟨hs, by simpa using hi, by simp, by simp⟩
      | some known =>
        cases hfirst : known.firstUnpausedPosition pfc with
        | none =>
          simp only [hfirst] at h
          cases (run_pure_ok.1 h).1
        | some found =>
          simp only [hfirst] at h
          obtain ⟨id, t, hlookup, h⟩ := run_bind_ok.1 h
          obtain ⟨hid, rfl⟩ := run_lift_ok.1 hlookup
          obtain ⟨heq, hs⟩ := run_pure_ok.1 h
          obtain ⟨rfl, rfl⟩ := Prod.mk.inj (some.inj heq)
          refine ⟨hs, okOr_eq_ok.1 hid, by simp, fun other hother => .inr ?_⟩
          rw [← some.inj hother]
          exact hfirst
    · simp only [hpaused] at h
      obtain ⟨heq, hs⟩ := run_pure_ok.1 h
      obtain ⟨rfl, rfl⟩ := Prod.mk.inj (some.inj heq)
      exact ⟨hs, rfl, fun _ => rfl, fun _ _ => .inl rfl⟩

/-- The selection of a PFC queue that serves its first eligible packet. -/
theorem servicePlan_first_ok {queue : SwitchQueueState} (hs : Names desc s.packets)
    (hpfc : queue.pfc = some pfc) (hserves : schedulerServesHead queue.scheduler = true)
    (h : run c (switchServicePlan c entry slot queue) s = .ok (plan, s')) :
    plan = .pfcFirst none ∨ ∃ selection payload, plan = .pfcFirst (some selection) ∧
      queue.queue[selection.position]? = some payload ∧ selection.packet.SameUnmarked (desc payload) ∧
      c.image.packetPfcClass (desc payload) = .ok selection.priority ∧
      (pfcAnyPaused pfc = false → selection.position = 0) ∧
      ∀ known, entry.pfcOrder slot = some known →
        selection.position = 0 ∨ known.firstUnpausedPosition pfc = some selection.position := by
  unfold switchServicePlan at h
  simp only [hpfc, hserves] at h
  obtain ⟨first, t, hfirst, h⟩ := run_bind_ok.1 h
  cases first with
  | none => exact .inl (run_pure_ok.1 h).1.symm
  | some found =>
    obtain ⟨position, payload⟩ := found
    obtain ⟨rfl, hpayload, hopen, horder⟩ := pfcFirstEligible_ok hfirst
    obtain ⟨p, t, hp, h⟩ := run_bind_ok.1 h
    obtain ⟨hdesc, rfl⟩ := hs.packet hp
    obtain ⟨priority, t, hclassRun, h⟩ := run_bind_ok.1 h
    obtain ⟨hclass, rfl⟩ := run_lift_ok.1 hclassRun
    obtain ⟨incoming, t, hincoming, h⟩ := run_bind_ok.1 h
    refine .inr ⟨⟨position, p, priority, incoming⟩, payload, (run_pure_ok.1 h).1.symm, hpayload,
      hdesc, hdesc.packetPfcClass ▸ hclass, hopen, horder⟩

theorem servicePlan_head_ok {queue : SwitchQueueState} (hs : Names desc s.packets)
    (hpfc : queue.pfc = none) (hserves : schedulerServesHead queue.scheduler = true)
    (h : run c (switchServicePlan c entry slot queue) s = .ok (plan, s')) :
    plan = .head none ∨ ∃ p payload, plan = .head (some p) ∧ queue.queue[0]? = some payload ∧
      p.SameUnmarked (desc payload) := by
  unfold switchServicePlan at h
  simp only [hpfc, hserves] at h
  cases hqueue : queue.queue with
  | nil =>
    simp only [hqueue] at h
    exact .inl (run_pure_ok.1 h).1.symm
  | cons id rest =>
    simp only [hqueue] at h
    obtain ⟨p, t, hp, h⟩ := run_bind_ok.1 h
    exact .inr ⟨p, id, (run_pure_ok.1 h).1.symm, rfl, (hs.packet hp).1⟩

theorem servicePlan_eligible_ok {queue : SwitchQueueState} (hs : Names desc s.packets)
    (hserves : schedulerServesHead queue.scheduler = false)
    (h : run c (switchServicePlan c entry slot queue) s = .ok (plan, s')) :
    ∃ selections, plan = .eligible selections ∧ ∀ selection ∈ selections, ∃ payload,
      queue.queue[selection.position]? = some payload ∧ selection.packet.SameUnmarked (desc payload) := by
  unfold switchServicePlan at h
  simp only [hserves] at h
  obtain ⟨selections, t, hselections, h⟩ := run_bind_ok.1 h
  refine ⟨selections, (run_pure_ok.1 h).1.symm, fun selection hmem => ?_⟩
  obtain ⟨i, payload, hposition, hpayload, hdesc⟩ := eligibleSelections_named hs hselections selection hmem
  rw [Nat.zero_add] at hposition
  exact ⟨payload, hposition ▸ hpayload, hdesc⟩

end Lookups

/-! ## §6. Every step is a step of each queue. -/

/-- The packet a label admits to a slot. -/
def admittedAt (slot : Nat) (label : Option (Nat × PayloadId)) : Option PayloadId :=
  (label.filter fun l => l.1 == slot).map (·.2)

theorem admittedAt_self (slot : Nat) (payload : PayloadId) :
    admittedAt slot (some (slot, payload)) = some payload := by
  simp [admittedAt, Option.filter]

theorem admittedAt_ne (h : other ≠ slot) (payload : PayloadId) :
    admittedAt slot (some (other, payload)) = none := by
  simp [admittedAt, Option.filter, h]

section Steps

variable {c : Ctx} {s s' : TransitionState} {entry next : SwitchEntry} {slot : Nat}
  {queue : SwitchQueueState}

theorem QueueStep.same (image : SimulationImage) (desc : PayloadId → PacketDescriptor)
    (queue : SwitchQueueState) (order : Option PfcClassOrder) :
    QueueStep image desc queue order none queue order :=
  .rest ⟨.refl _, rfl⟩ rfl

theorem serviceStep_idle_ok (h : serviceStep c slot queue plan = .ok (none, served)) :
    SameQueue queue served ∧ served.queue = queue.queue := by
  cases plan with
  | head p =>
    cases p with
    | none =>
      cases pure_eq_ok.1 h
      exact ⟨⟨.refl _, rfl⟩, rfl⟩
    | some p =>
      obtain ⟨_, -, ⟨⟩⟩ := bind_pure_ok h
  | pfcFirst selection =>
    cases selection with
    | none =>
      cases pure_eq_ok.1 h
      exact ⟨⟨.refl _, rfl⟩, rfl⟩
    | some selection =>
      obtain ⟨_, -, ⟨⟩⟩ := bind_pure_ok h
  | eligible selections =>
    obtain ⟨⟨choice, after⟩, hselect, h⟩ := bind_ok h
    cases choice with
    | none =>
      cases pure_eq_ok.1 h
      exact ⟨⟨schedulerSelectPosition_like hselect, rfl⟩, rfl⟩
    | some choice =>
      obtain ⟨_, -, h⟩ := bind_ok h
      obtain ⟨_, -, ⟨⟩⟩ := bind_pure_ok h

/-- Settling a service writes the queue back and takes the packet's class out of the order. -/
theorem settleService_ok (h : settleService c entry slot served outcome = .ok next) :
    next.state = (entry.setQueue slot served).state ∧
      next.pfcOrders = (match outcome.priority with
        | some priority => (entry.modifyPfcOrder slot (·.pop priority)).pfcOrders
        | none => entry.pfcOrders) := by
  obtain ⟨bytes, -, h⟩ := bind_ok h
  cases hpriority : outcome.priority with
  | none | some priority =>
    simp only [hpriority] at h
    rw [← Except.ok.inj h]
    exact ⟨rfl, rfl⟩

section

variable (hs : Names desc s.packets)
  (hplan : Prog.run c (switchServicePlan c entry slot queue) s = .ok (plan, s'))
  (hserve : serviceStep c slot { queue with txReadyPending := false } plan = .ok (some outcome, served))

include hs hplan hserve

/-- What a service takes from its queue and from the class order. -/
theorem service_ok :
    ∃ position, SameQueue queue served ∧ queue.queue[position]? = some outcome.payload ∧
      served.queue = queue.queue.eraseIdx position ∧
      outcome.packet.SameUnmarked (desc outcome.payload) ∧
      (schedulerServesHead queue.scheduler = true → (queue.pfc.all fun pfc => !pfcAnyPaused pfc) = true →
        position = 0) ∧
      ∀ known, entry.pfcOrder slot = some known → queue.scheduler.isFifo = true →
        queue.pfc.isSome = true →
        ∃ pfc priority, (position = 0 ∨ known.firstUnpausedPosition pfc = some position) ∧
          c.image.packetPfcClass (desc outcome.payload) = .ok priority ∧
          outcome.priority = some priority := by
  cases hserves : schedulerServesHead queue.scheduler with
  | false =>
    obtain ⟨selections, rfl, hnamed⟩ := servicePlan_eligible_ok hs hserves hplan
    obtain ⟨⟨choice, after⟩, hselect, h⟩ := bind_ok hserve
    cases choice with
    | none => cases pure_eq_ok.1 h
    | some choice =>
      obtain ⟨selection, hselection, h⟩ := bind_ok h
      obtain ⟨⟨result, served'⟩, hresult, ⟨⟩⟩ := bind_pure_ok h
      obtain ⟨hpayload, hqueue, hscheduler, hpfc, -, hpacket⟩ := serveSelection_ok hresult
      obtain ⟨payload, hwaiting, hdesc⟩ := hnamed selection (mem_of_getElem? (okOr_eq_ok.1 hselection))
      have hsame : payload = result.payload := some.inj (hwaiting.symm.trans hpayload)
      refine ⟨selection.position, ⟨hscheduler ▸ schedulerSelectPosition_like hselect, hpfc⟩, hpayload,
        hqueue, hpacket ▸ hsame ▸ hdesc, fun htrue => absurd htrue (by simp), ?_⟩
      intro known _ hfifo
      cases hscheduler' : queue.scheduler <;> simp_all [SchedulerKind.isFifo, schedulerServesHead]
  | true =>
    cases hpfc : queue.pfc with
    | none =>
      rcases servicePlan_head_ok hs hpfc hserves hplan with rfl | ⟨p, head, rfl, hhead, hdesc⟩
      · cases pure_eq_ok.1 hserve
      · obtain ⟨⟨payload, taken⟩, htaken, h⟩ := bind_ok hserve
        cases pure_eq_ok.1 h
        obtain ⟨hpayload, rfl⟩ := takeIntoService_ok htaken
        have hsame : head = payload := some.inj (hhead.symm.trans hpayload)
        refine ⟨0, ⟨.refl _, rfl⟩, hpayload, rfl, hsame ▸ hdesc, fun _ _ => rfl, fun known _ _ hsome => ?_⟩
        exact absurd hsome (by simp)
    | some pfc =>
      rcases servicePlan_first_ok hs hpfc hserves hplan with rfl |
        ⟨selection, payload, rfl, hselected, hdesc, hclass, hopen, horder⟩
      · cases pure_eq_ok.1 hserve
      · obtain ⟨⟨result, served'⟩, hresult, h⟩ := bind_ok hserve
        cases pure_eq_ok.1 h
        obtain ⟨hpayload, hqueue, hscheduler, hsome, hpriority, hpacket⟩ := serveSelection_ok hresult
        have hsame : payload = outcome.payload := some.inj (hselected.symm.trans hpayload)
        exact ⟨selection.position, ⟨.of_eq hscheduler, hsome⟩, hpayload, hqueue, hpacket ▸ hsame ▸ hdesc,
          fun _ hall => hopen (by simpa using hall),
          fun known hknown _ _ => ⟨pfc, selection.priority, horder known hknown, hsame ▸ hclass, hpriority⟩⟩

/-- A service is a step of its queue. -/
theorem queueStep_service :
    QueueStep c.image desc queue (entry.pfcOrder slot) none served (match outcome.priority with
      | some priority => (entry.pfcOrder slot).map (·.pop priority)
      | none => entry.pfcOrder slot) := by
  obtain ⟨position, hsame, hpayload, hqueue, -, hhead, horder⟩ := service_ok hs hplan hserve
  refine .serve hsame hpayload hqueue (fun hnone => ?_) hhead (fun known hknown hfifo hpfc => ?_)
  · rw [hnone]
    cases outcome.priority <;> rfl
  · obtain ⟨pfc, priority, hfirst, hclass, hpriority⟩ := horder known hknown hfifo hpfc
    exact ⟨pfc, priority, hfirst, hclass, by rw [hpriority, hknown]; rfl⟩

end

/-- An admission is a step of its queue; a drop leaves every queue as it is. -/
theorem arrivalStep_ok {queueBytes : Nat} {plan : ArrivalPlan}
    (hqueue : entry.queueFor c.node.id egress = .ok (slot, queue))
    (hsp : InsertsAt desc queue c.event.payload info.spPosition)
    (hclass : queue.pfc.isSome = true → c.image.packetPfcClass (desc c.event.payload) = .ok info.priority)
    {slot' : Nat} (h : arrivalStep c entry egress info = .ok (slot', queueBytes, plan, next)) :
    slot' = slot ∧ (plan.disposition ≠ .admitted ∧ next.state.queues = entry.state.queues ∧
        next.pfcOrders = entry.pfcOrders ∨
      plan.disposition = .admitted ∧ ∃ placed, next.state.queues = entry.state.queues.set slot placed ∧
        QueueStep c.image desc queue (entry.pfcOrder slot) (some c.event.payload) placed
          (next.pfcOrder slot) ∧
        ∀ other, slot ≠ other → next.pfcOrder other = entry.pfcOrder other) := by
  obtain ⟨arrived, -, h⟩ := bind_ok h
  obtain ⟨_, hlookup, h⟩ := bind_ok h
  cases hlookup.symm.trans hqueue
  obtain ⟨⟨action, aqm⟩, -, h⟩ := bind_ok h
  dsimp only at h
  by_cases hdrop : action = .drop
  · rw [if_pos hdrop] at h
    obtain ⟨dropped, -, ⟨⟩⟩ := bind_pure_ok h
    exact ⟨rfl, .inl ⟨by simp, rfl, rfl⟩⟩
  · rw [if_neg hdrop] at h
    obtain ⟨placed, hplaced, h⟩ := bind_ok h
    obtain ⟨⟨step, accounted⟩, haccount, h⟩ := bind_ok h
    obtain ⟨bytes, -, ⟨⟩⟩ := bind_pure_ok h
    obtain ⟨hsame, hplace⟩ := enqueueArrival_ok hplaced hsp
    obtain ⟨pfc, haccounted, hpfc⟩ := account_ok haccount
    have hisSome : accounted.pfc.isSome = queue.pfc.isSome := haccounted ▸ hpfc.trans hsame.pfc
    refine ⟨rfl, .inr ⟨rfl, accounted, ?_, ?_, fun other hne => ?_⟩⟩
    · split <;> rfl
    · have hstep : QueueStep c.image desc queue (entry.pfcOrder slot) (some c.event.payload) accounted
          (if queue.pfc.isSome then (entry.pfcOrder slot).map (·.push info.priority)
            else entry.pfcOrder slot) :=
        .arrive ⟨haccounted ▸ hsame.scheduler, hisSome⟩ (haccounted ▸ hplace) hclass
      rw [hisSome]
      split
      · next hsome =>
        rw [if_pos hsome] at hstep
        rw [pfcOrder_modify_self]
        exact hstep
      · next hnone =>
        rw [if_neg hnone] at hstep
        exact hstep
    · split
      · exact pfcOrder_modify_ne hne _
      · rfl

/-- Building a missing class order changes nothing else. -/
theorem orderIfPaused_ok {pause : Bool} (hs : Names desc s.packets)
    (hqueue : entry.state.queues[slot]? = some queue)
    (h : run c (orderIfPaused c slot pause entry) s = .ok (next, s')) :
    next.state = entry.state ∧ (next.pfcOrders = entry.pfcOrders ∨
      queue.scheduler.isFifo = true ∧ queue.pfc.isSome = true ∧
        ∃ classes, ClassesOf c.image desc queue.queue classes ∧
          next.pfcOrders = entry.pfcOrders.set slot (some (classes.foldl PfcClassOrder.push .new))) := by
  cases pause with
  | false =>
    obtain ⟨rfl, -⟩ := run_pure_ok.1 h
    exact ⟨rfl, .inl rfl⟩
  | true =>
    simp only [orderIfPaused, if_true] at h
    unfold ensurePfcOrder at h
    simp only [hqueue] at h
    split at h
    · obtain ⟨rfl, -⟩ := run_pure_ok.1 h
      exact ⟨rfl, .inl rfl⟩
    · next hmissing =>
      obtain ⟨order, t, horder, h⟩ := run_bind_ok.1 h
      obtain ⟨rfl, -⟩ := run_pure_ok.1 h
      obtain ⟨classes, hclasses, rfl⟩ := pfcOrderOf_ok hs horder
      simp only [Bool.or_eq_true, not_or, Bool.not_eq_true, Bool.not_eq_false'] at hmissing
      refine ⟨rfl, .inr ⟨hmissing.1.2, ?_, classes, hclasses, rfl⟩⟩
      cases hpfc : queue.pfc with
      | none => simp [hpfc] at hmissing
      | some pfc => rfl

end Steps

/-- A step writes one queue and its class order, or none. -/
theorem SwitchStep.written {entry next : SwitchEntry} {label : Option (Nat × PayloadId)}
    (h : SwitchStep image desc entry label next) :
    (label = none ∧ next.state.queues = entry.state.queues ∧ next.pfcOrders = entry.pfcOrders) ∨
      ∃ slot queue served, entry.state.queues[slot]? = some queue ∧
        next.state.queues = entry.state.queues.set slot served ∧
        QueueStep image desc queue (entry.pfcOrder slot) (admittedAt slot label) served (next.pfcOrder slot) ∧
        ∀ other, slot ≠ other → admittedAt other label = none ∧ next.pfcOrder other = entry.pfcOrder other := by
  cases h with
  | @arrival _ slot queueBytes plan info c s s' arriving egress hc hs harriving hinfo hstep =>
    subst hc
    obtain ⟨found, target, htarget, hsp, hclass, -⟩ := arrivalInfo_ok hs harriving hinfo
    obtain ⟨rfl, ⟨hnot, hqueues, horders⟩ | ⟨hadmitted, placed, hqueues, hplaced, hothers⟩⟩ :=
      arrivalStep_ok htarget hsp hclass hstep
    · exact .inl ⟨if_neg hnot, hqueues, horders⟩
    · rw [if_pos hadmitted]
      refine .inr ⟨slot, target, placed, queueFor_ok htarget, hqueues, ?_, fun other hne =>
        ⟨admittedAt_ne hne _, hothers other hne⟩⟩
      rw [admittedAt_self]
      exact hplaced
  | @serve _ slot target served plan outcome c s s' egress hc hs hqueue hplan hserve hsettle =>
    subst hc
    obtain ⟨hstate, horders⟩ := settleService_ok hsettle
    refine .inr ⟨slot, target, served, queueFor_ok hqueue, congrArg (·.queues) hstate, ?_,
      fun other hne => ⟨rfl, ?_⟩⟩
    · have horder : next.pfcOrder slot = (match outcome.priority with
          | some priority => (entry.pfcOrder slot).map (·.pop priority)
          | none => entry.pfcOrder slot) := by
        unfold SwitchEntry.pfcOrder
        rw [horders]
        cases outcome.priority with
        | none => rfl
        | some priority => exact pfcOrder_modify_self _
      rw [horder]
      exact queueStep_service hs hplan hserve
    · unfold SwitchEntry.pfcOrder
      rw [horders]
      cases outcome.priority with
      | none => rfl
      | some priority => exact pfcOrder_modify_ne hne _
  | idle c s s' egress hc hs hqueue hplan hserve =>
    obtain ⟨hsame, hids⟩ := serviceStep_idle_ok hserve
    exact .inr ⟨_, _, _, queueFor_ok hqueue, rfl, .rest ⟨hsame.scheduler, hsame.pfc⟩ hids,
      fun _ _ => ⟨rfl, rfl⟩⟩
  | complete c egress sent rateBps pending hqueue hscheduler =>
    exact .inr ⟨_, _, _, queueFor_ok hqueue, rfl, .rest ⟨completeScheduler_like hscheduler, rfl⟩ rfl,
      fun _ _ => ⟨rfl, rfl⟩⟩
  | @control ordered slot target pfc c s s' header pending hc hs hqueue hpfc horder =>
    subst hc
    have htarget := queueFor_ok hqueue
    obtain ⟨hstate, horders⟩ := orderIfPaused_ok hs (setQueue_self htarget) horder
    have hsomePfc : target.pfc.isSome = true := by rw [hpfc]; rfl
    have hqueues (q : SwitchQueueState) :
        (ordered.setQueue slot q).state.queues = entry.state.queues.set slot q := by
      show ordered.state.queues.set slot q = _
      rw [hstate]
      exact set_set ..
    refine .inr ⟨slot, target, _, htarget, hqueues _, ?_, fun other hne => ⟨rfl, ?_⟩⟩
    · rw [pfcOrder_setQueue]
      rcases horders with horders | ⟨hfifo, -, classes, hclasses, horders⟩
      · have hkept : ordered.pfcOrder slot = entry.pfcOrder slot := by
          unfold SwitchEntry.pfcOrder
          rw [horders]
          rfl
        rw [hkept]
        exact .rest ⟨.refl _, hsomePfc.symm⟩ rfl
      · have hbuilt : ordered.pfcOrder slot = some (classes.foldl PfcClassOrder.push .new) ∨
            ordered.pfcOrder slot = entry.pfcOrder slot := by
          unfold SwitchEntry.pfcOrder
          rw [horders]
          exact join_set_cases entry.pfcOrders slot _
        rcases hbuilt with hbuilt | hkept
        · rw [hbuilt]
          exact .build ⟨.refl _, hsomePfc.symm⟩ rfl hfifo hsomePfc hclasses
        · rw [hkept]
          exact .rest ⟨.refl _, hsomePfc.symm⟩ rfl
    · rw [pfcOrder_setQueue]
      unfold SwitchEntry.pfcOrder
      rcases horders with horders | ⟨-, -, classes, -, horders⟩
      · rw [horders]
        rfl
      · rw [horders, getElem?_set_ne hne]
        rfl
  | count state queueBytes hqueues => exact .inl ⟨rfl, hqueues, rfl⟩

/-- What a step does, seen from one queue. -/
theorem SwitchStep.queue {entry next : SwitchEntry} {label : Option (Nat × PayloadId)}
    (h : SwitchStep image desc entry label next) {queue : SwitchQueueState}
    (hq : entry.state.queues[slot]? = some queue) :
    ∃ queue', next.state.queues[slot]? = some queue' ∧
      QueueStep image desc queue (entry.pfcOrder slot) (admittedAt slot label) queue' (next.pfcOrder slot) := by
  rcases h.written with ⟨rfl, hqueues, horders⟩ | ⟨at_, target, served, htarget, hqueues, hstep, hothers⟩
  · refine ⟨queue, hqueues ▸ hq, ?_⟩
    rw [show next.pfcOrder slot = entry.pfcOrder slot by unfold SwitchEntry.pfcOrder; rw [horders]]
    exact QueueStep.same ..
  · rw [hqueues]
    by_cases heq : at_ = slot
    · subst heq
      rw [htarget] at hq
      obtain rfl := some.inj hq
      exact ⟨served, getElem?_set_self (List.getElem?_eq_some_iff.1 htarget).1, hstep⟩
    · obtain ⟨hlabel, horder⟩ := hothers slot heq
      rw [getElem?_set_ne heq, hlabel, horder]
      exact ⟨queue, hq, QueueStep.same ..⟩

/-- Queues are neither added nor removed. -/
theorem SwitchStep.length {entry next : SwitchEntry} {label : Option (Nat × PayloadId)}
    (h : SwitchStep image desc entry label next) :
    next.state.queues.length = entry.state.queues.length := by
  rcases h.written with ⟨-, hqueues, -⟩ | ⟨_, _, _, -, hqueues, -, -⟩
  · rw [hqueues]
  · rw [hqueues, length_set]

/-- The induction rule for a queue of a switch: what holds of every queue at the start and is kept by
    each step of a queue holds of every queue reached. -/
theorem SwitchRun.queue_induction {P : Nat → List PayloadId → SwitchQueueState → Option PfcClassOrder → Prop}
    {first entry : SwitchEntry} {admitted : List (Nat × PayloadId)}
    (hrun : SwitchRun image desc first admitted entry)
    (hstart : ∀ slot queue, first.state.queues[slot]? = some queue → P slot [] queue (first.pfcOrder slot))
    (hstep : ∀ slot arrived queue order label next order', P slot arrived queue order →
      QueueStep image desc queue order label next order' → P slot (arrived ++ label.toList) next order')
    {queue : SwitchQueueState} (hqueue : entry.state.queues[slot]? = some queue) :
    P slot ((admitted.filter fun a => a.1 == slot).map (·.2)) queue (entry.pfcOrder slot) := by
  induction hrun generalizing slot queue with
  | start => exact hstart slot queue hqueue
  | @step admitted entry next label hrun hswitch ih =>
    have hlt : slot < entry.state.queues.length := by
      rw [← hswitch.length]
      exact (List.getElem?_eq_some_iff.1 hqueue).1
    obtain ⟨queue', hnext, hqueueStep⟩ := hswitch.queue (getElem?_eq_getElem hlt)
    obtain rfl := some.inj (hqueue.symm.trans hnext)
    have hlast := hstep _ _ _ _ _ _ _ (ih (getElem?_eq_getElem hlt)) hqueueStep
    have hlabel : ((label.toList.filter fun a => a.1 == slot).map (·.2)) =
        (admittedAt slot label).toList := by
      unfold admittedAt
      cases label with
      | none => rfl
      | some l => by_cases hl : l.1 = slot <;> simp [Option.filter, hl]
    rw [filter_append, map_append, hlabel]
    exact hlast

/-- What is loaded for a queue. -/
theorem loadQueues_ok {node : NodeId} {store : Std.ExtTreeMap PayloadId ResidentPacket}
    {queues : List SwitchQueueState} {bytes : List Nat} {orders : List (Option PfcClassOrder)}
    (h : loadQueues image node store queues = .ok (bytes, orders)) {queue : SwitchQueueState}
    (hqueue : queues[slot]? = some queue) :
    ∃ depth, bytes[slot]? = some depth ∧ derivedQueueBytes node store queue.queue 0 = .ok depth ∧
      loadClassOrder image store queue = .ok (orders[slot]?).join := by
  induction queues generalizing slot bytes orders with
  | nil => cases hqueue
  | cons first rest ih =>
    obtain ⟨depth, hdepth, h⟩ := bind_ok h
    obtain ⟨order, horder, h⟩ := bind_ok h
    obtain ⟨⟨restBytes, restOrders⟩, hrest, ⟨⟩⟩ := bind_pure_ok h
    cases slot with
    | zero =>
      cases hqueue
      exact ⟨depth, rfl, hdepth, horder⟩
    | succ slot =>
      have hlater := ih hrest hqueue
      exact hlater

/-! ## §7. A switch with two packets waiting. -/

/-- One switch between two hosts, with a flow in each of two PFC classes. -/
def sampleSwitchImage : SimulationImage where
  stopTimeNs := 1000000
  nodes := [⟨0, .host, 0⟩, ⟨1, .switch, 0⟩, ⟨2, .host, 1⟩]
  hostStates := []
  switchStates := []
  flows := [⟨0, 0, 2, 3, 3, [0, 1], [2, 3]⟩, ⟨1, 0, 2, 5, 5, [0, 1], [2, 3]⟩]
  initialPackets := []
  links := [⟨0, 0, 1, 8000000000, 10⟩, ⟨1, 1, 2, 8000000000, 10⟩, ⟨2, 2, 1, 8000000000, 10⟩,
    ⟨3, 1, 0, 8000000000, 10⟩]
  channels := []
  initialEvents := []
  seed := 0
  stageJoins := []

/-- Packets with even ids belong to the first flow, the others to the second. -/
def sampleFrame (id : PayloadId) : PacketDescriptor := ⟨id, id % 2, 1000, false, .data⟩

def sampleStore : Std.ExtTreeMap PayloadId ResidentPacket :=
  (∅ : Std.ExtTreeMap PayloadId ResidentPacket).insert 0 ⟨sampleFrame 0, none, 0, false⟩
    |>.insert 1 ⟨sampleFrame 1, none, 0, false⟩ |>.insert 2 ⟨sampleFrame 2, none, 0, false⟩

theorem sampleStore_names : Names sampleFrame sampleStore := by
  have hinsert {store : Std.ExtTreeMap PayloadId ResidentPacket} (h : Names sampleFrame store)
      (id : PayloadId) : Names sampleFrame (store.insert id ⟨sampleFrame id, none, 0, false⟩) := by
    intro other r hr
    rw [Std.ExtTreeMap.getElem?_insert] at hr
    split at hr
    · next heq =>
      obtain rfl := Std.LawfulEqCmp.eq_of_compare heq
      rw [← some.inj hr]
      exact ⟨rfl, rfl, rfl, rfl⟩
    · exact h other r hr
  refine hinsert (hinsert (hinsert (fun id r hr => ?_) 0) 1) 2
  simp at hr

def sampleQueue (scheduler : SchedulerKind) (pfc : Option PfcQueueState) : SwitchQueueState where
  egressLink := some 1
  scheduler := scheduler
  queueCapacityPackets := 0
  dropMark := .tailDrop
  pfc := pfc
  queue := [0, 1]
  inService := none
  txReadyPending := true

/-- A controller pauses one class. -/
def pausedClass (paused : Nat) : PfcQueueState := ⟨fun priority => if priority = paused then {2} else ∅, []⟩

def sampleCtx : Ctx := ⟨sampleSwitchImage, .summary, ⟨1, .switch, 0⟩, ⟨⟨100, 3, 1, 0⟩, 1, .txReady, 0⟩⟩

def sampleState : TransitionState := loadedState [] [] none sampleStore ∅

/-- The switch with one queue of both packets. -/
def sampleEntry (scheduler : SchedulerKind) (pfc : Option PfcQueueState) : SwitchEntry :=
  ⟨⟨[sampleQueue scheduler pfc], 0, 2, 0, 0⟩, [2000], [none]⟩

/-- The arrival of packet 2. -/
def arrivalCtx : Ctx :=
  ⟨sampleSwitchImage, .summary, ⟨1, .switch, 0⟩, ⟨⟨90, 3, 0, 0⟩, 1, .remoteArrival, 2⟩⟩

/-- Admit packet 2, then serve a packet. -/
def admitAndServe (first : SwitchEntry) : Except ExecutionError SwitchEntry := do
  let (info, _) ← run arrivalCtx (arrivalInfo arrivalCtx first (sampleFrame 2) (some 1)) sampleState
  let (slot, _, plan, entry) ← liftPlain (arrivalStep arrivalCtx first (some 1) info)
  liftPlain (require (slot = 0 ∧ plan.disposition = .admitted) (.invalidSchedulerState 1))
  let (slot, queue) ← liftPlain (entry.queueFor 1 (some 1))
  let (plan, _) ← run sampleCtx (switchServicePlan sampleCtx entry slot queue) sampleState
  let (outcome, served) ← liftPlain
    (serviceStep sampleCtx slot { queue with txReadyPending := false } plan)
  let outcome ← liftPlain (okOr outcome (.invalidSchedulerState 1))
  liftPlain (settleService sampleCtx entry slot served outcome)

/-- It is a run of the switch. -/
theorem admitAndServe_run {first entry : SwitchEntry} (h : admitAndServe first = .ok entry) :
    SwitchRun sampleSwitchImage sampleFrame first [(0, 2)] entry := by
  obtain ⟨⟨info, s⟩, hinfo, h⟩ := bind_ok h
  obtain ⟨⟨slot, bytes, plan, admitted⟩, hstep, h⟩ := bind_ok h
  obtain ⟨_, hadmitted, hservice⟩ := bind_ok h
  rw [liftPlain_eq_ok] at hstep hadmitted
  obtain ⟨rfl, hdisposition⟩ := require_eq_ok.1 hadmitted
  obtain ⟨⟨slot, queue⟩, hqueue, h⟩ := bind_ok hservice
  obtain ⟨⟨service, s'⟩, hplan, h⟩ := bind_ok h
  obtain ⟨⟨outcome, served⟩, hserve, h⟩ := bind_ok h
  obtain ⟨found, hfound, hsettle⟩ := bind_ok h
  rw [liftPlain_eq_ok] at hqueue hserve hfound hsettle
  rw [okOr_eq_ok] at hfound
  subst hfound
  have hfirst := (@SwitchRun.start _ _ first).step
    (.arrival arrivalCtx sampleState s (sampleFrame 2) (some 1) rfl sampleStore_names
      ⟨rfl, rfl, rfl, rfl⟩ hinfo hstep)
  rw [if_pos hdisposition] at hfirst
  exact hfirst.step (.serve sampleCtx sampleState s' 1 rfl sampleStore_names hqueue hplan hserve hsettle)

end Days
