/-
  Days.Logic.ServicePlan — the shortcuts of `switch_tx_ready` and of the PFC
  class order choose the packet the general plan would choose.
-/
import Days.Logic.ClassOrder
import Days.Logic.SwitchRun

namespace Days

variable {id : PayloadId}

open List Prog

variable {start : Nat}

variable {ids : List PayloadId} {queue : SwitchQueueState} {selections : List PfcSelection}

/-! ## §1. The class order of a reachable queue. -/

/-- Every class of the image is one of the eight of PFC. -/
def SimulationImage.PfcClassesBelow (image : SimulationImage) : Prop :=
  ∀ f ∈ image.flows, f.priority < 8 ∧ f.feedbackPriority < 8

variable {image : SimulationImage} {desc : PayloadId → PacketDescriptor}

theorem indexedLookup_mem {α : Type} {table : List α} {id : Nat} {p : α → Bool} {a : α}
    (h : indexedLookup table id p = some a) : a ∈ table := by
  unfold indexedLookup at h
  cases hslot : (table[id]?).filter p with
  | some b =>
    simp only [hslot] at h
    rw [← Option.some.inj h]
    exact mem_of_getElem? (Option.filter_eq_some_iff.1 hslot).1
  | none =>
    simp only [hslot] at h
    exact mem_of_find?_eq_some h

theorem SimulationImage.PfcClassesBelow.class_lt (h : image.PfcClassesBelow) {p : PacketDescriptor}
    {priority : Nat} (hclass : image.packetPfcClass p = .ok priority) : priority < 8 := by
  obtain ⟨flow, hflow, hpriority⟩ := bind_ok hclass
  rw [← Except.ok.inj hpriority]
  obtain ⟨hdata, hfeedback⟩ := h flow (indexedLookup_mem (okOr_eq_ok.1 hflow))
  unfold FlowDescriptor.packetPriority
  split
  · exact hfeedback
  · exact hfeedback
  · exact hfeedback
  · exact hdata

/-- A class order belongs to a FIFO queue with PFC and lists its packets. -/
def OrderOk (image : SimulationImage) (desc : PayloadId → PacketDescriptor) (queue : SwitchQueueState)
    (order : Option PfcClassOrder) : Prop :=
  ∀ known, order = some known → queue.scheduler.isFifo = true ∧ queue.pfc.isSome = true ∧
    ∃ classes entries, ClassesOf image desc queue.queue classes ∧ known.Indexes classes entries

theorem ClassesOf.eraseIdx {classes : List Nat} (h : ClassesOf image desc ids classes) (i : Nat) :
    ClassesOf image desc (ids.eraseIdx i) (classes.eraseIdx i) := by
  induction h generalizing i with
  | nil => exact .nil
  | cons hhead htail ih =>
    cases i with
    | zero => exact htail
    | succ i => exact .cons hhead (ih i)

theorem ClassesOf.getElem? {classes : List Nat} (h : ClassesOf image desc ids classes) {i : Nat}
    (hid : ids[i]? = some id) :
    ∃ priority, classes[i]? = some priority ∧ image.packetPfcClass (desc id) = .ok priority := by
  induction h generalizing i with
  | nil => simp at hid
  | @cons id' priority _ _ hhead htail ih =>
    cases i with
    | zero =>
      have heq : id' = id := by simpa using hid
      exact ⟨priority, rfl, heq ▸ hhead⟩
    | succ i => exact ih (by simpa using hid)

theorem ClassesOf.lt {classes : List Nat} (h : ClassesOf image desc ids classes)
    (h8 : image.PfcClassesBelow) : ∀ k ∈ classes, k < 8 := by
  induction h with
  | nil => simp
  | cons hhead htail ih =>
    intro k hk
    rcases mem_cons.1 hk with rfl | hk
    · exact h8.class_lt hhead
    · exact ih k hk

theorem indexes_foldl_push {order : PfcClassOrder} {before classes : List Nat} {entries : List (Nat × Nat)}
    (h : order.Indexes before entries) :
    ∃ entries', (classes.foldl PfcClassOrder.push order).Indexes (before ++ classes) entries' := by
  induction classes generalizing order before entries with
  | nil => exact ⟨entries, by simpa using h⟩
  | cons k rest ih =>
    obtain ⟨entries', hentries'⟩ := ih (h.push k)
    exact ⟨entries', by simpa using hentries'⟩

theorem indexes_built (classes : List Nat) :
    ∃ entries, (classes.foldl PfcClassOrder.push .new).Indexes classes entries :=
  indexes_foldl_push .new

/-- The packet the order selects is the first of its class. -/
theorem findIdx_class_of_first {classes : List Nat} {open_ : Nat → Bool} {position priority : Nat}
    (h : position = 0 ∨ classes.findIdx? open_ = some position) (hclass : classes[position]? = some priority) :
    classes.findIdx? (· == priority) = some position := by
  obtain ⟨hlt, heq⟩ := List.getElem?_eq_some_iff.1 hclass
  refine findIdx?_eq_some_iff_getElem.2 ⟨hlt, by simp [heq], fun j hj => ?_⟩
  rcases h with rfl | hfirst
  · omega
  · obtain ⟨_, hopen, hbefore⟩ := findIdx?_eq_some_iff_getElem.1 hfirst
    have hclosed := hbefore j hj
    intro hsame
    rw [beq_iff_eq.1 hsame, ← heq] at hclosed
    exact hclosed hopen

theorem SchedulerKind.Like.isFifo {k next : SchedulerKind} (h : k.Like next) : next.isFifo = k.isFifo := by
  cases k <;> cases next <;> simp_all [SchedulerKind.Like, SchedulerKind.isFifo]

/-- A step keeps the class order in line with the queue. -/
theorem QueueStep.orderOk {next : SwitchQueueState} {order order' : Option PfcClassOrder}
    {label : Option PayloadId} (h8 : image.PfcClassesBelow)
    (hstep : QueueStep image desc queue order label next order')
    (h : OrderOk image desc queue order) : OrderOk image desc next order' := by
  cases hstep with
  | rest hsame hqueue =>
    intro known hknown
    obtain ⟨hfifo, hpfc, hindex⟩ := h known hknown
    exact ⟨hsame.scheduler.isFifo.trans hfifo, hsame.pfc.trans hpfc, hqueue ▸ hindex⟩
  | @build _ classes hsame hqueue hfifo hpfc hclasses =>
    intro known hknown
    rw [← Option.some.inj hknown]
    obtain ⟨entries, hentries⟩ := indexes_built classes
    exact ⟨hsame.scheduler.isFifo.trans hfifo, hsame.pfc.trans hpfc, classes, entries,
      hqueue ▸ hclasses, hentries⟩
  | @arrive _ payload priority hsame hplaced hclass =>
    intro known hknown
    cases order with
    | none => cases hpfc : queue.pfc.isSome <;> simp [hpfc] at hknown
    | some before =>
      obtain ⟨hfifo, hpfc, classes, entries, hclasses, hindexes⟩ := h before rfl
      rw [if_pos hpfc] at hknown
      rw [← Option.some.inj hknown]
      have happend : next.queue = queue.queue ++ [payload] := by
        cases hscheduler : queue.scheduler <;> simp_all [SchedulerKind.isFifo, QueuedAt]
      refine ⟨hsame.scheduler.isFifo.trans hfifo, hsame.pfc.trans hpfc, _, _, ?_, hindexes.push priority⟩
      rw [happend]
      exact rel_append hclasses (.cons (hclass hpfc) .nil)
  | @serve _ position payload _ hsame hpayload hqueue hnone hhead horder =>
    intro known hknown
    cases order with
    | none =>
      rw [hnone rfl] at hknown
      cases hknown
    | some before =>
      obtain ⟨hfifo, hpfc, classes, entries, hclasses, hindexes⟩ := h before rfl
      obtain ⟨pfc, priority, hselected, hclass, heq⟩ := horder before rfl hfifo hpfc
      rw [heq] at hknown
      rw [← Option.some.inj hknown]
      obtain ⟨priority', hat, hclass'⟩ := hclasses.getElem? hpayload
      obtain rfl := Except.ok.inj (hclass.symm.trans hclass')
      rw [hindexes.firstUnpausedPosition (hclasses.lt h8)] at hselected
      have hfirst := findIdx_class_of_first hselected hat
      refine ⟨hsame.scheduler.isFifo.trans hfifo, hsame.pfc.trans hpfc, _, _, ?_, hindexes.pop hfirst⟩
      rw [hqueue]
      exact hclasses.eraseIdx position

/-- Loading derives the order of a queue that is paused. -/
theorem loadQueues_orderOk {node : NodeId} {store : Std.ExtTreeMap PayloadId ResidentPacket}
    (hstore : Names desc store) {queues : List SwitchQueueState} {bytes : List Nat}
    {orders : List (Option PfcClassOrder)}
    (h : loadQueues image node store queues = .ok (bytes, orders)) {slot : Nat}
    (hqueue : queues[slot]? = some queue) : OrderOk image desc queue (orders[slot]?).join := by
  obtain ⟨depth, -, -, horder⟩ := loadQueues_ok h hqueue
  intro known hknown
  rw [hknown] at horder
  unfold loadClassOrder at horder
  split at horder
  · next hpaused =>
    obtain ⟨built, hbuilt, ⟨⟩⟩ := bind_pure_ok horder
    obtain ⟨classes, hclasses, rfl⟩ := derivedClassOrder_ok hstore hbuilt
    obtain ⟨entries, hentries⟩ := indexes_built classes
    rw [Bool.and_eq_true] at hpaused
    refine ⟨hpaused.1, ?_, classes, entries, hclasses, hentries⟩
    cases hpfc : queue.pfc with
    | none => simp [hpfc] at hpaused
    | some pfc => rfl
  · cases horder

/-- Every queue of a reachable switch has a class order that lists its packets, or none. -/
theorem SwitchRun.orderOk {first entry : SwitchEntry} {admitted : List (Nat × PayloadId)} {node : NodeId}
    {store : Std.ExtTreeMap PayloadId ResidentPacket} {state : SwitchState} (h8 : image.PfcClassesBelow)
    (hstore : Names desc store) (hload : loadSwitch image node store state = .ok first)
    (hrun : SwitchRun image desc first admitted entry) :
    ∀ slot queue, entry.state.queues[slot]? = some queue →
      OrderOk image desc queue (entry.pfcOrder slot) := by
  have hstart : ∀ slot queue, first.state.queues[slot]? = some queue →
      OrderOk image desc queue (first.pfcOrder slot) := by
    intro slot queue hqueue
    obtain ⟨⟨bytes, orders⟩, hqueues, hfirst⟩ := bind_ok hload
    obtain rfl := Except.ok.inj hfirst
    exact loadQueues_orderOk hstore hqueues hqueue
  intro slot queue hqueue
  exact hrun.queue_induction (P := fun _ _ queue order => OrderOk image desc queue order) hstart
    (fun _ _ _ _ _ _ _ hok hstep => hstep.orderOk h8 hok) hqueue

/-! ## §2. The class order against the search. -/

section Search

variable {c : Ctx} {s s' : TransitionState}

/-- The packets are in the store and of known flows. -/
def Stored (image : SimulationImage) (desc : PayloadId → PacketDescriptor) (s : TransitionState)
    (ids : List PayloadId) : Prop :=
  ∀ id ∈ ids, (∃ r, s.packets[id]? = some r) ∧ ∃ priority, image.packetPfcClass (desc id) = .ok priority

theorem run_packet_of_names (hs : Names desc s.packets) (h : ∃ r, s.packets[id]? = some r) :
    ∃ p, run c (packet id) s = .ok (p, s) ∧ p.SameUnmarked (desc id) := by
  obtain ⟨r, hr⟩ := h
  exact ⟨r.descriptor, run_packet_ok.2 ⟨⟨r, hr, rfl⟩, rfl⟩, hs id r hr⟩

/-- The search finds the first packet of an unpaused class. -/
theorem search_run (pfc : PfcQueueState) {classes : List Nat} (hs : Names desc s.packets)
    (hstored : Stored c.image desc s ids) (hclasses : ClassesOf c.image desc ids classes)
    (start : Nat) :
    run c (pfcFirstEligibleBySearch c pfc start ids) s =
      .ok ((classes.findIdx? fun k => !pfc.isPaused k).bind fun i =>
        (ids[i]?).map fun id => (start + i, id), s) := by
  induction hclasses generalizing start with
  | nil => rfl
  | @cons id priority rest others hclass hclasses ih =>
    obtain ⟨p, hp, hdesc⟩ := run_packet_of_names (c := c) hs (hstored id mem_cons_self).1
    have hpriority : run c (liftM (c.image.packetPfcClass p)) s = .ok (priority, s) :=
      run_lift_ok.2 ⟨hdesc.packetPfcClass.trans hclass, rfl⟩
    rw [pfcFirstEligibleBySearch]
    refine run_bind_ok.2 ⟨p, s, hp, run_bind_ok.2 ⟨priority, s, hpriority, ?_⟩⟩
    rw [findIdx?_cons]
    by_cases hopen : pfc.isPaused priority = true
    · simp only [hopen, Bool.not_true]
      refine (ih (fun x hx => hstored x (mem_cons_of_mem _ hx)) (start + 1)).trans ?_
      cases hfind : findIdx? (fun k => !pfc.isPaused k) others with
      | none => simp
      | some i => simp [Nat.add_comm 1 i, Nat.add_assoc]
    · simp only [hopen, Bool.not_false, if_true]
      rfl

theorem Stored.classes (h : Stored image desc s ids) :
    ∃ classes, ClassesOf image desc ids classes := by
  induction ids with
  | nil => exact ⟨[], .nil⟩
  | cons id rest ih =>
    obtain ⟨-, priority, hclass⟩ := h id mem_cons_self
    obtain ⟨classes, hclasses⟩ := ih fun x hx => h x (mem_cons_of_mem _ hx)
    exact ⟨priority :: classes, .cons hclass hclasses⟩

theorem ClassesOf.unique {classes others : List Nat} (h : ClassesOf image desc ids classes)
    (h' : ClassesOf image desc ids others) : classes = others := by
  induction h generalizing others with
  | nil => cases h'; rfl
  | cons hhead htail ih =>
    cases h' with
    | cons hhead' htail' => rw [Except.ok.inj (hhead.symm.trans hhead'), ih htail']

/-- Under a class order that lists the queue, the first eligible packet is the one a search finds. -/
theorem pfcFirstEligible_eq_search {order : Option PfcClassOrder} (h8 : c.image.PfcClassesBelow)
    (hok : OrderOk c.image desc queue order) (hs : Names desc s.packets)
    (hstored : Stored c.image desc s queue.queue) (pfc : PfcQueueState) :
    run c (pfcFirstEligible c queue pfc order) s =
      run c (pfcFirstEligibleBySearch c pfc 0 queue.queue) s := by
  obtain ⟨classes, hclasses⟩ := hstored.classes
  have hsearch := search_run pfc hs hstored hclasses 0
  have hlength : classes.length = queue.queue.length := (Forall₂.length_eq hclasses).symm
  unfold pfcFirstEligible
  cases hqueue : queue.queue with
  | nil => rfl
  | cons head rest =>
    rw [hqueue] at hsearch hclasses
    dsimp only
    by_cases hpaused : pfcAnyPaused pfc = true
    · rw [if_neg (by simp [hpaused])]
      cases order with
      | none => rfl
      | some known =>
        obtain ⟨-, -, classes', entries, hclasses', hindexes⟩ := hok known rfl
        rw [hqueue] at hclasses'
        obtain rfl := hclasses.unique hclasses'
        rw [hsearch]
        dsimp only
        rw [hindexes.firstUnpausedPosition (hclasses.lt h8)]
        cases hfind : classes.findIdx? fun k => !pfc.isPaused k with
        | none => rfl
        | some position =>
          obtain ⟨hlt, -⟩ := findIdx?_eq_some_iff_getElem.1 hfind
          rw [hlength, hqueue] at hlt
          have hat := getElem?_eq_getElem hlt
          simp only [Option.bind_some, hat, Option.map_some, Nat.zero_add]
          rfl
    · rw [if_pos (by simp [hpaused]), hsearch]
      -- No class is paused, so the search stops at the head.
      cases hclasses with
      | @cons _ priority _ others hhead htail =>
        have hlt := h8.class_lt hhead
        have hopen : pfc.isPaused priority = false := by
          rw [Bool.not_eq_true, pfcAnyPaused, any_eq_false] at hpaused
          simpa using hpaused priority (mem_range.2 hlt)
        rw [findIdx?_cons, hopen]
        rfl

end Search

/-- The class order of every reachable queue answers as the search from the head does, whatever is
    paused. -/
theorem class_order_matches_search (image : SimulationImage) (h8 : image.PfcClassesBelow)
    (desc : PayloadId → PacketDescriptor) (node : NodeId)
    (store : Std.ExtTreeMap PayloadId ResidentPacket) (hstore : Names desc store) (state : SwitchState)
    (first entry : SwitchEntry) (hload : loadSwitch image node store state = .ok first)
    (admitted : List (Nat × PayloadId)) (hrun : SwitchRun image desc first admitted entry) (slot : Nat)
    (queue : SwitchQueueState) (hqueue : entry.state.queues[slot]? = some queue) (c : Ctx)
    (hc : c.image = image) (s : TransitionState) (hs : Names desc s.packets)
    (hstored : Stored image desc s queue.queue) (pfc : PfcQueueState) :
    Prog.run c (pfcFirstEligible c queue pfc (entry.pfcOrder slot)) s =
      Prog.run c (pfcFirstEligibleBySearch c pfc 0 queue.queue) s := by
  subst hc
  exact pfcFirstEligible_eq_search h8 (hrun.orderOk h8 hstore hload slot queue hqueue) hs hstored pfc

theorem sampleState_stored : Stored sampleSwitchImage sampleFrame sampleState [1, 2] := by
  intro id hid
  have : id = 1 ∨ id = 2 := by simpa using hid
  rcases this with rfl | rfl
  · exact ⟨⟨_, rfl⟩, 5, rfl⟩
  · exact ⟨⟨_, rfl⟩, 3, rfl⟩

theorem sampleSwitchImage_classes : sampleSwitchImage.PfcClassesBelow := by
  intro f hf
  have : f = ⟨0, 0, 2, 3, 3, [0, 1], [2, 3]⟩ ∨ f = ⟨1, 0, 2, 5, 5, [0, 1], [2, 3]⟩ := by
    simpa [sampleSwitchImage] using hf
  rcases this with rfl | rfl <;> decide

/-- The switch with one FIFO queue, the second flow's class paused. -/
def pausedSwitch : SwitchState := ⟨[sampleQueue .fifo (some (pausedClass 5))], 0, 2, 0, 0⟩

/-- The loaded switch admits packet 2 and serves packet 0, with the orders of its classes in use. -/
def PausedRun (first entry : SwitchEntry) (queue : SwitchQueueState) : Prop :=
  loadSwitch sampleSwitchImage 1 sampleStore pausedSwitch = .ok first ∧
    SwitchRun sampleSwitchImage sampleFrame first [(0, 2)] entry ∧
    entry.state.queues[0]? = some queue ∧ queue.queue = [1, 2] ∧ (entry.pfcOrder 0).isSome = true

/-- Of what is left, packet 2 may be served. -/
theorem pausedRun_eligible : ∃ first entry queue selections s', PausedRun first entry queue ∧
    Prog.run sampleCtx (eligibleSelections sampleCtx queue.pfc 0 queue.queue) sampleState =
      .ok (selections, s') ∧ selections.length = 1 :=
  ⟨_, _, _, _, _, ⟨rfl, admitAndServe_run rfl, rfl, rfl, rfl⟩, rfl, rfl⟩

theorem class_order_matches_search_two : ∃ first entry queue, PausedRun first entry queue ∧
    Prog.run sampleCtx (pfcFirstEligible sampleCtx queue (pausedClass 5) (entry.pfcOrder 0)) sampleState =
      Prog.run sampleCtx (pfcFirstEligibleBySearch sampleCtx (pausedClass 5) 0 queue.queue) sampleState := by
  obtain ⟨first, entry, queue, -, -, hpaused, -⟩ := pausedRun_eligible
  refine ⟨first, entry, queue, hpaused, ?_⟩
  obtain ⟨hfirst, hrun, hqueue, hids, -⟩ := hpaused
  exact class_order_matches_search sampleSwitchImage sampleSwitchImage_classes sampleFrame 1 sampleStore
    sampleStore_names pausedSwitch first entry hfirst _ hrun 0 queue hqueue sampleCtx rfl sampleState
    sampleStore_names (hids ▸ sampleState_stored) (pausedClass 5)

/-! ## §3. The plans of `switch_tx_ready`. -/

section Plans

variable {c : Ctx} {s s' : TransitionState}

/-- The eligible list only reads, and reads every packet of the queue. -/
theorem eligibleSelections_stored {pfc : Option PfcQueueState} (hs : Names desc s.packets)
    (h : run c (eligibleSelections c pfc start ids) s = .ok (selections, s')) :
    s = s' ∧ Stored c.image desc s ids := by
  induction ids generalizing start selections with
  | nil => exact ⟨(run_pure_ok.1 h).2, fun _ hid => by simp at hid⟩
  | cons id rest ih =>
    obtain ⟨p, priority, hp, hclass, hcases⟩ := eligibleSelections_cons h
    obtain ⟨⟨r, hr, hdescriptor⟩, -⟩ := run_packet_ok.1 hp
    have hdesc := (hs.packet hp).1
    have hrest : s = s' ∧ Stored c.image desc s rest := by
      rcases hcases with ⟨-, htail⟩ | ⟨-, selection, others, -, -, htail⟩
      · exact ih htail
      · exact ih htail
    refine ⟨hrest.1, fun x hx => ?_⟩
    rcases mem_cons.1 hx with rfl | hx
    · exact ⟨⟨r, hr⟩, priority, hdesc.packetPfcClass ▸ hclass⟩
    · exact hrest.2 x hx

/-- The search finds the first packet of the eligible list. -/
theorem search_eq_eligible {pfc : PfcQueueState}
    (h : run c (eligibleSelections c (some pfc) start ids) s = .ok (selections, s')) :
    (selections = [] ∧ run c (pfcFirstEligibleBySearch c pfc start ids) s = .ok (none, s)) ∨
      ∃ selection others position payload, selections = selection :: others ∧
        FirstSelection c s position payload selection ∧
        run c (pfcFirstEligibleBySearch c pfc start ids) s = .ok (some (position, payload), s) := by
  induction ids generalizing start selections with
  | nil => exact .inl ⟨(run_pure_ok.1 h).1.symm, rfl⟩
  | cons id rest ih =>
    obtain ⟨p, priority, hp, hclass, hcases⟩ := eligibleSelections_cons h
    have hturn {result : Option (Nat × PayloadId)}
        (htail : run c (if !pfc.isPaused priority then pure (some (start, id))
          else pfcFirstEligibleBySearch c pfc (start + 1) rest) s = .ok (result, s)) :
        run c (pfcFirstEligibleBySearch c pfc start (id :: rest)) s = .ok (result, s) := by
      rw [pfcFirstEligibleBySearch]
      exact run_bind_ok.2 ⟨p, s, hp, run_bind_ok.2 ⟨priority, s, run_lift_ok.2 ⟨hclass, rfl⟩, htail⟩⟩
    rcases hcases with ⟨hpaused, htail⟩ | ⟨hopen, selection, others, rfl, hfirst, -⟩
    · have hclosed : pfc.isPaused priority = true := by simpa using hpaused
      rcases ih htail with ⟨rfl, hsearch⟩ | ⟨selection, others, position, payload, rfl, hfirst, hsearch⟩
      · exact .inl ⟨rfl, hturn (by rw [hclosed]; exact hsearch)⟩
      · exact .inr ⟨selection, others, position, payload, rfl, hfirst,
          hturn (by rw [hclosed]; exact hsearch)⟩
    · have hunpaused : pfc.isPaused priority = false := by simpa using hopen
      exact .inr ⟨selection, others, start, id, rfl, hfirst, hturn (by rw [hunpaused]; rfl)⟩

/-- A head-serving discipline takes the first eligible packet and keeps its state. -/
theorem schedulerSelectPosition_head {scheduler : SchedulerKind}
    (h : schedulerServesHead scheduler = true) (p : PacketDescriptor) (packets : List PacketDescriptor)
    (node : NodeId) : schedulerSelectPosition scheduler (p :: packets) node = .ok (some (0, 0), scheduler) := by
  cases scheduler <;> first | rfl | simp [schedulerServesHead] at h

/-- The packet a service takes and the queue it leaves. -/
def picked (result : Option ServiceOutcome × SwitchQueueState) :
    Option (PayloadId × PacketDescriptor) × SwitchQueueState :=
  (result.1.map fun outcome => (outcome.payload, outcome.packet), result.2)

/-- The trace row of a service does not influence what is picked. -/
theorem serveSelection_picked (slot : Nat) (queue : SwitchQueueState) (before before' : SchedulerKind)
    (scanSteps scanSteps' : Nat) (eligible eligible' : List PacketDescriptor) (selection : PfcSelection) :
    (serveSelection c slot queue before scanSteps eligible selection).map
        (fun r => picked (some r.1, r.2)) =
      (serveSelection c slot queue before' scanSteps' eligible' selection).map
        (fun r => picked (some r.1, r.2)) := by
  unfold serveSelection
  cases htaken : takeIntoService c queue selection.position with
  | error e => rfl
  | ok taken =>
    simp only [bind, Except.bind]
    cases haccount : taken.2.account selection.incomingLink
        (PfcIngressState.drain c slot selection.priority selection.packet) with
    | error e => rfl
    | ok accounted => rfl

/-- A queue without PFC has nothing to account. -/
theorem serveSelection_head {slot : Nat} (hpfc : queue.pfc = none) (selection : PfcSelection)
    (before : SchedulerKind) (scanSteps : Nat) (eligible : List PacketDescriptor) :
    (serveSelection c slot queue before scanSteps eligible selection).map
        (fun r => picked (some r.1, r.2)) =
      (takeIntoService c queue selection.position).map
        fun r => (some (r.1, selection.packet), r.2) := by
  unfold serveSelection
  cases htaken : takeIntoService c queue selection.position with
  | error e => rfl
  | ok taken =>
    obtain ⟨payload, next⟩ := taken
    have hnext := (takeIntoService_ok htaken).2
    have hnone : next.pfc = none := by rw [hnext]; exact hpfc
    simp only [bind, Except.bind]
    unfold SwitchQueueState.account
    rw [hnone]
    rfl

theorem serviceStep_first_picked (slot : Nat) (queue : SwitchQueueState) (selection : PfcSelection) :
    (serviceStep c slot queue (.pfcFirst (some selection))).map picked =
      (serveSelection c slot queue .fifo 0 [] selection).map fun r => picked (some r.1, r.2) := by
  have hstep : serviceStep c slot queue (.pfcFirst (some selection)) =
      (serveSelection c slot queue .fifo 0 [] selection >>= fun r => pure (some r.1, r.2)) := rfl
  rw [hstep]
  cases serveSelection c slot queue .fifo 0 [] selection <;> rfl

theorem serviceStep_head_picked (slot : Nat) (queue : SwitchQueueState) (p : PacketDescriptor) :
    (serviceStep c slot queue (.head (some p))).map picked =
      (takeIntoService c queue 0).map fun r => (some (r.1, p), r.2) := by
  have hstep : serviceStep c slot queue (.head (some p)) =
      (takeIntoService c queue 0 >>= fun r => pure (some ⟨r.1, p, none, .none, none⟩, r.2)) := rfl
  rw [hstep]
  cases takeIntoService c queue 0 <;> rfl

theorem serviceStep_eligible_picked (hserves : schedulerServesHead queue.scheduler = true)
    (slot : Nat) (selection : PfcSelection) (others : List PfcSelection) :
    (serviceStep c slot queue (.eligible (selection :: others))).map picked =
      (serveSelection c slot queue queue.scheduler 0 ((selection :: others).map (·.packet)) selection).map
        fun r => picked (some r.1, r.2) := by
  have hselect : schedulerSelectPosition queue.scheduler ((selection :: others).map (·.packet)) c.node.id =
      .ok (some (0, 0), queue.scheduler) := schedulerSelectPosition_head hserves ..
  have hstep : serviceStep c slot queue (.eligible (selection :: others)) =
      (serveSelection c slot queue queue.scheduler 0 ((selection :: others).map (·.packet)) selection >>=
        fun r => pure (some r.1, r.2)) := by
    unfold serviceStep
    dsimp only
    rw [hselect]
    rfl
  rw [hstep]
  cases serveSelection c slot queue queue.scheduler 0 ((selection :: others).map (·.packet)) selection <;> rfl

/-- The plan of a queue whose class order lists it picks what the eligible list picks. -/
theorem servicePlan_agrees {entry : SwitchEntry} {slot : Nat} (current : SwitchQueueState)
    (h8 : c.image.PfcClassesBelow) (hok : OrderOk c.image desc queue (entry.pfcOrder slot))
    (hs : Names desc s.packets) (hscheduler : current.scheduler = queue.scheduler)
    (hmonitor : current.pfc = queue.pfc)
    (hgeneral : run c (eligibleSelections c queue.pfc 0 queue.queue) s = .ok (selections, s')) :
    ∃ plan, run c (switchServicePlan c entry slot queue) s = .ok (plan, s') ∧
      (serviceStep c slot current plan).map picked =
        (serviceStep c slot current (.eligible selections)).map picked := by
  obtain ⟨rfl, hstored⟩ := eligibleSelections_stored hs hgeneral
  unfold switchServicePlan
  cases hserves : schedulerServesHead queue.scheduler with
  | false =>
    refine ⟨.eligible selections, ?_, rfl⟩
    cases hpfc : queue.pfc with
    | none | some pfc =>
      rw [hpfc] at hgeneral
      exact run_bind_ok.2 ⟨selections, s, hgeneral, rfl⟩
  | true =>
    have hserves' : schedulerServesHead current.scheduler = true := by rw [hscheduler, hserves]
    cases hpfc : queue.pfc with
    | none =>
      rw [hpfc] at hgeneral
      cases hids : queue.queue with
      | nil =>
        rw [hids] at hgeneral
        obtain ⟨rfl, -⟩ := run_pure_ok.1 hgeneral
        exact ⟨.head none, rfl, rfl⟩
      | cons id rest =>
        rw [hids] at hgeneral
        obtain ⟨p, priority, hp, -, ⟨hpaused, -⟩ | ⟨-, selection, others, rfl, hfirst, -⟩⟩ :=
          eligibleSelections_cons hgeneral
        · cases hpaused
        · obtain ⟨hsame, -⟩ := Prod.mk.inj (Except.ok.inj (hp.symm.trans hfirst.packet))
          refine ⟨.head (some p), run_bind_ok.2 ⟨p, s, hp, rfl⟩, ?_⟩
          rw [serviceStep_head_picked, serviceStep_eligible_picked hserves',
            serveSelection_head (hmonitor.trans hpfc), hfirst.position, ← hsame]
    | some pfc =>
      rw [hpfc] at hgeneral
      have hsearch := pfcFirstEligible_eq_search h8 hok hs hstored pfc
      rcases search_eq_eligible hgeneral with ⟨rfl, hnone⟩ |
        ⟨selection, others, position, payload, rfl, hfirst, hfound⟩
      · refine ⟨.pfcFirst none, run_bind_ok.2 ⟨none, s, hsearch.trans hnone, rfl⟩, ?_⟩
        rfl
      · obtain ⟨at_, p, priority, incoming⟩ := selection
        obtain ⟨rfl, hp, hclass, hincoming⟩ := hfirst
        refine ⟨.pfcFirst (some ⟨at_, p, priority, incoming⟩),
          run_bind_ok.2 ⟨some (at_, payload), s, hsearch.trans hfound, ?_⟩, ?_⟩
        · exact run_bind_ok.2 ⟨p, s, hp, run_bind_ok.2 ⟨priority, s, run_lift_ok.2 ⟨hclass, rfl⟩,
            run_bind_ok.2 ⟨incoming, s, run_lift_ok.2 ⟨hincoming, rfl⟩, rfl⟩⟩⟩
        · rw [serviceStep_first_picked, serviceStep_eligible_picked hserves']
          exact serveSelection_picked ..

end Plans

/-- Whichever plan `switch_tx_ready` picks for a queue of a reachable switch, the packet taken and the
    queue left, with its scheduler, are those of the eligible list handed to the scheduler. -/
theorem service_plans_agree (image : SimulationImage) (h8 : image.PfcClassesBelow)
    (desc : PayloadId → PacketDescriptor) (node : NodeId)
    (store : Std.ExtTreeMap PayloadId ResidentPacket) (hstore : Names desc store) (state : SwitchState)
    (first entry : SwitchEntry) (hload : loadSwitch image node store state = .ok first)
    (admitted : List (Nat × PayloadId)) (hrun : SwitchRun image desc first admitted entry) (slot : Nat)
    (queue : SwitchQueueState) (hqueue : entry.state.queues[slot]? = some queue) (c : Ctx)
    (hc : c.image = image) (s s' : TransitionState) (hs : Names desc s.packets)
    (selections : List PfcSelection)
    (hgeneral : Prog.run c (eligibleSelections c queue.pfc 0 queue.queue) s = .ok (selections, s')) :
    ∃ plan, Prog.run c (switchServicePlan c entry slot queue) s = .ok (plan, s') ∧
      (serviceStep c slot { queue with txReadyPending := false } plan).map picked =
        (serviceStep c slot { queue with txReadyPending := false } (.eligible selections)).map picked := by
  subst hc
  exact servicePlan_agrees { queue with txReadyPending := false } h8
    (hrun.orderOk h8 hstore hload slot queue hqueue) hs rfl rfl hgeneral

/-- After an admission and a service, with packet 1 paused. -/
theorem service_plans_agree_two : ∃ first entry queue selections s' plan, PausedRun first entry queue ∧
    Prog.run sampleCtx (eligibleSelections sampleCtx queue.pfc 0 queue.queue) sampleState =
      .ok (selections, s') ∧ selections.length = 1 ∧
    Prog.run sampleCtx (switchServicePlan sampleCtx entry 0 queue) sampleState = .ok (plan, s') ∧
    (serviceStep sampleCtx 0 { queue with txReadyPending := false } plan).map picked =
      (serviceStep sampleCtx 0 { queue with txReadyPending := false } (.eligible selections)).map picked := by
  obtain ⟨first, entry, queue, selections, s', hpaused, hselections, hlength⟩ := pausedRun_eligible
  obtain ⟨plan, hplan, hpicked⟩ := service_plans_agree sampleSwitchImage sampleSwitchImage_classes
    sampleFrame 1 sampleStore sampleStore_names pausedSwitch first entry hpaused.1 _ hpaused.2.1 0 queue
    hpaused.2.2.1 sampleCtx rfl sampleState s' sampleStore_names selections hselections
  exact ⟨first, entry, queue, selections, s', plan, hpaused, hselections, hlength, hplan, hpicked⟩

end Days
