/-
  Days.Logic.EcnRamp — the ECN ramp of a switch queue.

  The ramp compares a truncated product with a bound; the truncation loses nothing.
  An admission checks the capacity first and counts the packet's bytes, and a service
  takes them out again, so over every run the counter is the sum of the waiting sizes.
-/
import Days.Logic.RoundRobin
import Days.Logic.SwitchHandlers
import Days.Logic.SenderStart

namespace Days

open List TransitionState Prog

variable {queued size : Nat} {orders : List (Option PfcClassOrder)} {next : SwitchEntry}

/-! ## §1. The decision. -/

/-- Enqueue, mark, drop, in the order of rising depth. -/
def EcnRampAction.rank : EcnRampAction → Nat
  | .enqueue => 0
  | .mark => 1
  | .drop => 2

/-- A checked policy of 64-bit fields. -/
structure EcnRampPolicy.Checked (policy : EcnRampPolicy) : Prop where
  kmin : 0 < policy.kminBytes
  ordered : policy.kminBytes ≤ policy.kmaxBytes
  within : policy.kmaxBytes ≤ policy.capacityBytes
  numerator : policy.pmaxNumerator ≤ policy.pmaxDenominator
  span : policy.pmaxDenominator * (policy.kmaxBytes - policy.kminBytes) < width 64

theorem EcnRampPolicy.checked_of_check {policy : EcnRampPolicy}
    (h : ecnRampPolicyCheck policy = .ok ()) : policy.Checked := by
  unfold ecnRampPolicyCheck at h
  split at h
  · cases h
  split at h
  · cases h
  split at h
  · cases h
  split at h
  · cases h
  split at h
  · cases h
  split at h
  · cases h
  · next hthresholds hpmax _ _ hspan =>
    have hfits : policy.pmaxDenominator * (policy.kmaxBytes - policy.kminBytes) < width 64 := by
      by_contra hnot
      exact hspan (by simp [ecnRampSpan, checkedMul, hnot])
    exact ⟨by omega, by omega, by omega, by omega, hfits⟩

section Decision

variable {policy : EcnRampPolicy}

/-- The decision reads the depth after admission only. -/
theorem ecnRampDecision_eq (hcapacity : policy.capacityBytes < width 64) (queued size : Nat)
    (capable : Bool) (draw : Nat) :
    ecnRampDecision policy queued size capable draw =
      if queued + size > policy.capacityBytes then .drop
      else if !capable || queued + size < policy.kminBytes then .enqueue
      else if queued + size ≥ policy.kmaxBytes then .mark
      else if draw * (policy.pmaxDenominator * (policy.kmaxBytes - policy.kminBytes)) / 2 ^ 64 <
          policy.pmaxNumerator * (queued + size - policy.kminBytes) then .mark
      else .enqueue := by
  unfold ecnRampDecision checkedAdd
  by_cases hfits : queued + size < width 64
  · simp only [if_pos hfits]
  · simp only [if_neg hfits]
    rw [if_pos (by omega)]

/-- Truncating the high product loses nothing. -/
theorem high_product_lt_iff (draw span bound : Nat) :
    draw * span / 2 ^ 64 < bound ↔ draw * span < 2 ^ 64 * bound := by
  rw [Nat.div_lt_iff_lt_mul (Nat.two_pow_pos 64), mul_comm bound]

/-- Inside the ramp the decision is the exact comparison of the draw with the marking
probability. -/
theorem ecnRampDecision_mark_iff (hcapacity : policy.capacityBytes < width 64)
    (hchecked : policy.Checked) (hlow : policy.kminBytes ≤ queued + size)
    (hhigh : queued + size < policy.kmaxBytes) (draw : Nat) :
    ecnRampDecision policy queued size true draw = .mark ↔
      draw * policy.pmaxDenominator * (policy.kmaxBytes - policy.kminBytes) <
        2 ^ 64 * policy.pmaxNumerator * (queued + size - policy.kminBytes) := by
  have hwithin := hchecked.within
  rw [ecnRampDecision_eq hcapacity, if_neg (by omega), if_neg (by simp; omega), if_neg (by omega),
    mul_assoc draw, mul_assoc (2 ^ 64), ← high_product_lt_iff]
  split
  · next h => exact ⟨fun _ => h, fun _ => rfl⟩
  · next h => exact ⟨fun hmark => (by cases hmark), fun hlt => absurd hlt h⟩

/-- Every intermediate value of the comparison has its width. -/
theorem ecnRamp_widths (hchecked : policy.Checked) {depth draw : Nat}
    (hlow : policy.kminBytes ≤ depth) (hhigh : depth < policy.kmaxBytes) (hdraw : draw < width 64) :
    policy.pmaxDenominator * (policy.kmaxBytes - policy.kminBytes) < width 64 ∧
      policy.pmaxNumerator * (depth - policy.kminBytes) < width 64 ∧
      draw * (policy.pmaxDenominator * (policy.kmaxBytes - policy.kminBytes)) < width 128 := by
  have hspan := hchecked.span
  refine ⟨hspan, lt_of_le_of_lt (Nat.mul_le_mul hchecked.numerator (by omega)) hspan, ?_⟩
  calc draw * (policy.pmaxDenominator * (policy.kmaxBytes - policy.kminBytes))
      ≤ draw * width 64 := Nat.mul_le_mul_left _ hspan.le
    _ < width 64 * width 64 := Nat.mul_lt_mul_of_pos_right hdraw (by decide)
    _ = width 128 := by decide

/-- For one draw the decision rises with the depth. -/
theorem ecnRampDecision_mono (hcapacity : policy.capacityBytes < width 64) (capable : Bool)
    (draw : Nat) {queued' size' : Nat} (hdepth : queued + size ≤ queued' + size') :
    (ecnRampDecision policy queued size capable draw).rank ≤
      (ecnRampDecision policy queued' size' capable draw).rank := by
  rw [ecnRampDecision_eq hcapacity, ecnRampDecision_eq hcapacity]
  generalize queued + size = depth at *
  generalize queued' + size' = depth' at *
  have hbound : policy.pmaxNumerator * (depth - policy.kminBytes) ≤
      policy.pmaxNumerator * (depth' - policy.kminBytes) :=
    Nat.mul_le_mul_left _ (by omega)
  by_cases hdrop' : depth' > policy.capacityBytes
  · rw [if_pos hdrop']
    have htop (action : EcnRampAction) : action.rank ≤ EcnRampAction.drop.rank := by
      cases action <;> decide
    exact htop _
  · rw [if_neg hdrop', if_neg (by omega)]
    by_cases hbelow : (!capable || decide (depth < policy.kminBytes)) = true
    · rw [if_pos hbelow]
      exact Nat.zero_le _
    · have hnot : ¬ (!capable || decide (depth' < policy.kminBytes)) = true := by
        simp only [Bool.or_eq_true, Bool.not_eq_true', decide_eq_true_eq, not_or] at hbelow ⊢
        exact ⟨hbelow.1, by omega⟩
      rw [if_neg hbelow, if_neg hnot]
      by_cases hmark' : depth' ≥ policy.kmaxBytes
      · rw [if_pos hmark']
        split
        · exact le_rfl
        · split <;> decide
      · rw [if_neg hmark', if_neg (by omega)]
        split
        · next hmark => rw [if_pos (hmark.trans_le hbound)]
        · exact Nat.zero_le _

/-- What is not dropped fits the capacity. -/
theorem ecnRampDecision_within {capable : Bool} {draw : Nat}
    (h : ecnRampDecision policy queued size capable draw ≠ .drop) :
    queued + size ≤ policy.capacityBytes := by
  unfold ecnRampDecision at h
  split at h
  · exact absurd rfl h
  · next depth hdepth =>
    obtain ⟨rfl, -⟩ := checkedAdd_eq_some hdepth
    by_contra hover
    exact h (if_pos (by omega))

end Decision

/-! ## §2. The bytes that wait. -/

/-- The bytes of the packets that some ids name. -/
def waitingBytes (desc : PayloadId → PacketDescriptor) (ids : List PayloadId) : Nat :=
  (ids.map fun id => (desc id).sizeBytes).sum

section Waiting

variable {desc : PayloadId → PacketDescriptor} {ids : List PayloadId} {id : PayloadId} {position : Nat}

theorem waitingBytes_perm {others : List PayloadId} (h : ids.Perm others) :
    waitingBytes desc ids = waitingBytes desc others :=
  (h.map _).sum_eq

theorem waitingBytes_insertIdx (h : position ≤ ids.length) :
    waitingBytes desc (ids.insertIdx position id) = waitingBytes desc ids + (desc id).sizeBytes := by
  rw [waitingBytes_perm (perm_insertIdx id ids h), Nat.add_comm]
  rfl

theorem waitingBytes_eraseIdx (h : ids[position]? = some id) :
    waitingBytes desc ids = waitingBytes desc (ids.eraseIdx position) + (desc id).sizeBytes := by
  obtain ⟨hlt, rfl⟩ := List.getElem?_eq_some_iff.1 h
  rw [← waitingBytes_perm (getElem_cons_eraseIdx_perm hlt), Nat.add_comm]
  rfl

theorem insertionPosition_le {wfq : WfqSchedulerState} {finish : Rat} {node : NodeId}
    (h : wfq.insertionPosition finish node ids = .ok position) : position ≤ ids.length := by
  induction ids generalizing position with
  | nil =>
    cases h
    exact le_rfl
  | cons queued rest ih =>
    obtain ⟨tag, -, h⟩ := bind_ok h
    split at h
    · cases h
      exact Nat.zero_le _
    · obtain ⟨later, hlater, ⟨⟩⟩ := bind_pure_ok h
      exact Nat.succ_le_succ (ih hlater)

/-- Every discipline puts the arriving packet, and it alone, among those that wait. -/
theorem enqueueArrival_waiting {c : Ctx} {queue placed : SwitchQueueState} {info : ArrivalInfo}
    (h : enqueueArrival c queue info = .ok placed)
    (hsp : InsertsAt desc queue c.event.payload info.spPosition)
    (hpacket : info.packet.SameUnmarked (desc c.event.payload)) (hid : (desc c.event.payload).id = c.event.payload) :
    waitingBytes desc placed.queue =
      waitingBytes desc queue.queue + (desc c.event.payload).sizeBytes := by
  obtain ⟨-, hplaced⟩ := enqueueArrival_ok h hsp
  unfold QueuedAt at hplaced
  unfold enqueueArrival at h
  cases hscheduler : queue.scheduler with
  | fifo | deficitRoundRobin _ | weightedRoundRobin _ =>
    simp only [hscheduler] at hplaced
    simp [hplaced, waitingBytes]
  | staticPriority priorities =>
    simp only [hscheduler] at hplaced
    rw [hplaced]
    exact waitingBytes_insertIdx ((takeWhile_sublist _).length_le)
  | weightedFairQueue wfq =>
    simp only [hscheduler] at h
    obtain ⟨rateBps, -, h⟩ := bind_ok h
    obtain ⟨⟨wfq', waiting⟩, hwaiting, ⟨⟩⟩ := bind_pure_ok h
    obtain ⟨priority, -, hwaiting⟩ := bind_ok hwaiting
    obtain ⟨_, -, hwaiting⟩ := bind_ok hwaiting
    obtain ⟨_, -, hwaiting⟩ := bind_ok hwaiting
    obtain ⟨caught, -, hwaiting⟩ := bind_ok hwaiting
    obtain ⟨position, hposition, hwaiting⟩ := bind_ok hwaiting
    obtain ⟨_, -, hwaiting⟩ := bind_ok hwaiting
    obtain ⟨active, -, ⟨⟩⟩ := bind_pure_ok hwaiting
    rw [hpacket.1, hid]
    exact waitingBytes_insertIdx (insertionPosition_le hposition)

/-- A service takes the served packet, and it alone, from those that wait. -/
theorem service_waiting {c : Ctx} {s s' : TransitionState} {e : SwitchEntry} {slot : Nat}
    {queue served : SwitchQueueState} {plan : SwitchServicePlan} {outcome : ServiceOutcome}
    (hs : Names desc s.packets) (hplan : run c (switchServicePlan c e slot queue) s = .ok (plan, s'))
    (hserve : serviceStep c slot { queue with txReadyPending := false } plan = .ok (some outcome, served)) :
    waitingBytes desc queue.queue = waitingBytes desc served.queue + outcome.packet.sizeBytes := by
  obtain ⟨position, -, hpayload, hqueue, hdesc, -, -⟩ := service_ok hs hplan hserve
  rw [hqueue, hdesc.2.2.1]
  exact waitingBytes_eraseIdx hpayload

end Waiting

/-! ## §3. The depth of a queue. -/

/-- A byte counter that stands for the packets of its queue: under a ramp it is within the capacity,
and where ids name packets it is the sum of the waiting sizes. -/
structure Depth (desc : PayloadId → PacketDescriptor) (named : Prop) (queue : SwitchQueueState)
    (bytes : Nat) : Prop where
  within : ∀ policy, queue.dropMark = .ecnRamp policy → bytes ≤ policy.capacityBytes
  counted : named → bytes = waitingBytes desc queue.queue

/-- Every queue has such a counter. -/
def Depths (desc : PayloadId → PacketDescriptor) (named : Prop) (e : SwitchEntry) : Prop :=
  ∀ (slot : Nat) (queue : SwitchQueueState), e.state.queues[slot]? = some queue →
    ∃ bytes, e.queueBytes[slot]? = some bytes ∧ Depth desc named queue bytes

section Depth

variable {desc : PayloadId → PacketDescriptor} {named : Prop} {c : Ctx} {e : SwitchEntry} {slot : Nat}
  {queue placed : SwitchQueueState}

theorem Depths.of_same (h : Depths desc named e) {e' : SwitchEntry}
    (hqueues : e'.state.queues = e.state.queues) (hbytes : e'.queueBytes = e.queueBytes) :
    Depths desc named e' := by
  intro slot queue hqueue
  rw [hbytes]
  exact h slot queue (hqueues ▸ hqueue)

section Write

variable (h : Depths desc named e) {state : SwitchState}
  (hqueue : e.state.queues[slot]? = some queue)
  (hstate : state.queues = e.state.queues.set slot placed)

include h hqueue hstate

/-- Writing a queue together with its counter. -/
theorem Depths.set {bytes : Nat} (hdepth : Depth desc named placed bytes) :
    Depths desc named ⟨state, e.queueBytes.set slot bytes, orders⟩ := by
  intro at_ found hfound
  rw [hstate] at hfound
  by_cases hat : slot = at_
  · subst hat
    rw [getElem?_set_self (List.getElem?_eq_some_iff.1 hqueue).1] at hfound
    cases hfound
    obtain ⟨old, hold, -⟩ := h slot queue hqueue
    exact ⟨bytes, getElem?_set_self (List.getElem?_eq_some_iff.1 hold).1, hdepth⟩
  · rw [getElem?_set_ne hat] at hfound
    obtain ⟨other, hother, hdepth⟩ := h at_ found hfound
    exact ⟨other, (getElem?_set_ne hat).trans hother, hdepth⟩

/-- Writing a queue with the same packets under its own policy. -/
theorem Depths.setQueue (hids : placed.queue = queue.queue) (hpolicy : placed.dropMark = queue.dropMark) :
    Depths desc named ⟨state, e.queueBytes, orders⟩ := by
  obtain ⟨bytes, hbytes, hdepth⟩ := h slot queue hqueue
  obtain ⟨hlt, rfl⟩ := List.getElem?_eq_some_iff.1 hbytes
  have hset : Depths desc named ⟨state, e.queueBytes.set slot _, orders⟩ := h.set hqueue hstate
    ⟨fun policy hramp => hdepth.within policy (hpolicy ▸ hramp), fun hnamed => hids ▸ hdepth.counted hnamed⟩
  rwa [set_getElem_self hlt] at hset

end Write

theorem serviceStep_dropMark {plan : SwitchServicePlan} {outcome : Option ServiceOutcome}
    (h : serviceStep c slot queue plan = .ok (outcome, placed)) :
    placed.dropMark = queue.dropMark := by
  refine serviceStep_keeps (P := (·.dropMark = queue.dropMark)) h (fun _ _ _ _ hq => hq) ?_ rfl
  intro q incoming priority packet step q' hq haccount
  obtain ⟨pfc, rfl, -⟩ := account_ok haccount
  exact hq

/-- An admission fits the capacity of its queue and is counted. -/
theorem Depths.arrivalStep (h : Depths desc named e) {egress : Option LinkId}
    {info : ArrivalInfo} {slot queueBytes : Nat} {plan : ArrivalPlan}
    (hinfo : named → ∃ slot queue, e.queueFor c.node.id egress = .ok (slot, queue) ∧
      InsertsAt desc queue c.event.payload info.spPosition ∧
      info.packet.SameUnmarked (desc c.event.payload) ∧ (desc c.event.payload).id = c.event.payload)
    (hstep : arrivalStep c e egress info = .ok (slot, queueBytes, plan, next)) :
    Depths desc named next := by
  obtain ⟨arrived, -, hstep⟩ := bind_ok hstep
  obtain ⟨⟨at_, queue⟩, hlookup, hstep⟩ := bind_ok hstep
  have hqueue : e.state.queues[at_]? = some queue := queueFor_ok hlookup
  obtain ⟨depth, hdepth, hold⟩ := h at_ queue hqueue
  have hcounter : e.queueBytes.getD at_ 0 = depth := by rw [getD_eq_getElem?_getD, hdepth]; rfl
  obtain ⟨⟨action, aqm⟩, haction, hstep⟩ := bind_ok hstep
  dsimp only at hstep haction
  rw [hcounter] at hstep haction
  by_cases hdrop : action = .drop
  · rw [if_pos hdrop] at hstep
    obtain ⟨dropped, -, hstep⟩ := bind_ok hstep
    cases Except.ok.inj hstep
    exact h.of_same rfl rfl
  · rw [if_neg hdrop] at hstep
    obtain ⟨placed, hplaced, hstep⟩ := bind_ok hstep
    obtain ⟨⟨step, accounted⟩, haccount, hstep⟩ := bind_ok hstep
    obtain ⟨bytes, hbytes, hstep⟩ := bind_ok hstep
    obtain ⟨rfl, -⟩ := checkedAdd_eq_some (okOr_eq_ok.1 hbytes)
    have hcounted : named → depth + info.packet.sizeBytes = waitingBytes desc placed.queue := by
      intro hnamed
      obtain ⟨_, _, hfound, hsp, hpacket, hid⟩ := hinfo hnamed
      cases hlookup.symm.trans hfound
      rw [enqueueArrival_waiting hplaced hsp hpacket hid, hold.counted hnamed, hpacket.2.2.1]
    obtain ⟨ids, scheduler, rfl⟩ := enqueueArrival_frame hplaced
    obtain ⟨pfc, rfl, -⟩ := account_ok haccount
    have hfits : ∀ policy, queue.dropMark = .ecnRamp policy →
        depth + info.packet.sizeBytes ≤ policy.capacityBytes := by
      intro policy hramp
      unfold admissionAction at haction
      rw [hramp] at haction
      dsimp only at haction
      split at haction
      · cases haction
        exact absurd rfl hdrop
      · cases haction
        have hkept : ecnRampDecision policy depth info.packet.sizeBytes
            info.packet.kind.isData (ecnDraw (ecnQueueKey c.image.seed c.node.id at_) c.event.payload) ≠
              .drop :=
          fun hdecide => hdrop (by simp only [ecnRampAction, hdecide])
        exact ecnRampDecision_within hkept
    cases Except.ok.inj hstep
    split
    · refine h.set hqueue rfl ?_
      exact ⟨hfits, hcounted⟩
    · refine h.set hqueue rfl ?_
      exact ⟨hfits, hcounted⟩

/-- A service takes its bytes out. -/
theorem Depths.settleService (h : Depths desc named e)
    (hqueue : e.state.queues[slot]? = some queue) {served : SwitchQueueState}
    (hpolicy : served.dropMark = queue.dropMark) {outcome : ServiceOutcome}
    (hwaiting : named →
      waitingBytes desc queue.queue = waitingBytes desc served.queue + outcome.packet.sizeBytes)
    (hsettle : settleService c e slot served outcome = .ok next) : Depths desc named next := by
  obtain ⟨depth, hdepth, hold⟩ := h slot queue hqueue
  obtain ⟨bytes, hbytes, hsettle⟩ := bind_ok hsettle
  rw [okOr_eq_ok, getD_eq_getElem?_getD, hdepth] at hbytes
  obtain ⟨hle, rfl⟩ := checkedSub_eq_some hbytes
  simp only [Option.getD_some] at hle hsettle
  have hleft : Depth desc named served (depth - outcome.packet.sizeBytes) := by
    refine ⟨fun policy hramp => ?_, fun hnamed => ?_⟩
    · exact (Nat.sub_le _ _).trans (hold.within policy (hpolicy ▸ hramp))
    · rw [hold.counted hnamed, hwaiting hnamed, Nat.add_sub_cancel]
  split at hsettle
  · cases pure_eq_ok.1 hsettle
    exact h.set hqueue rfl hleft
  · cases pure_eq_ok.1 hsettle
    exact h.set hqueue rfl hleft

end Depth

/-! ## §4. Handlers. -/

/-- The entry of the node keeps its queues and byte counters. -/
abbrev KeepsDepths (c : Ctx) {α : Type} (prog : Prog α) : Prop :=
  KeepsView (fun e => (e.state.queues, e.queueBytes)) c prog

theorem KeepsDepths.closed {c : Ctx} : ClosedClass (@KeepsDepths c) := KeepsView.closed fun _ _ => rfl

section Handlers

variable {desc : PayloadId → PacketDescriptor} {named : Prop} {c : Ctx} {s s' : TransitionState}
  {e : SwitchEntry}

/-- Write an entry with its counters, then leave its queues alone. -/
theorem Depths.write (h : Depths desc named next) (hwrite : EndsWriting c next s') :
    ∃ e', s'.switchAt c.node = .ok e' ∧ Depths desc named e' := by
  obtain ⟨e', he', hview⟩ := hwrite.view KeepsDepths.closed
  obtain ⟨hqueues, hbytes⟩ := Prod.mk.inj hview
  exact ⟨e', he', h.of_same hqueues hbytes⟩

variable (h : Depths desc named e) (he : s.switchAt c.node = .ok e)

include h he

theorem switchPacketArrival_depths {arriving : PacketDescriptor}
    (hnames : named → Names desc s.packets)
    (harriving : named → arriving.SameUnmarked (desc c.event.payload) ∧
      (desc c.event.payload).id = c.event.payload)
    (hrun : run c (switchPacketArrival c arriving) s = .ok ((), s')) :
    ∃ e', s'.switchAt c.node = .ok e' ∧ Depths desc named e' := by
  obtain ⟨egress, info, t, slot, queueBytes, plan, next, hinfo, hstep, hwrite⟩ :=
    switchPacketArrival_writes he hrun
  refine (h.arrivalStep (fun hnamed => ?_) hstep).write hwrite
  obtain ⟨hdesc, hid⟩ := harriving hnamed
  obtain ⟨slot, queue, hqueue, hsp, -, rfl⟩ := arrivalInfo_ok (hnames hnamed) hdesc hinfo
  exact ⟨slot, queue, hqueue, hsp, hdesc, hid⟩

theorem switchTxReady_depths (hnames : named → Names desc s.packets)
    (hrun : run c (switchTxReady c) s = .ok ((), s')) :
    ∃ e', s'.switchAt c.node = .ok e' ∧ Depths desc named e' := by
  obtain ⟨egress, slot, queue, plan, t, outcome, served, next, hqueue, hplan, hserve, hnext, hwrite⟩ :=
    switchTxReady_writes he hrun
  have hpolicy : served.dropMark = queue.dropMark := (serviceStep_dropMark hserve :)
  refine Depths.write ?_ hwrite
  cases outcome with
  | none =>
    subst hnext
    exact h.setQueue (queueFor_ok hqueue) rfl (serviceStep_idle_ok hserve).2 hpolicy
  | some outcome =>
    exact h.settleService (queueFor_ok hqueue) hpolicy
      (fun hnamed => service_waiting (hnames hnamed) hplan hserve) hnext

theorem switchTxComplete_depths
    (hrun : run c (switchTxComplete c) s = .ok ((), s')) :
    ∃ e', s'.switchAt c.node = .ok e' ∧ Depths desc named e' := by
  obtain ⟨egress, slot, queue, sent, rateBps, scheduler, pending, next, hqueue, -, hqueues, hbytes,
    -, hwrite⟩ := switchTxComplete_writes he hrun
  have hplaced : Depths desc named (e.setQueue slot
      { queue with scheduler, inService := none, txReadyPending := pending }) :=
    h.setQueue (queueFor_ok hqueue) rfl rfl rfl
  exact (hplaced.of_same hqueues hbytes).write hwrite

theorem switchPfcRemoteArrival_depths {header : PfcHeader}
    (hrun : run c (switchPfcRemoteArrival c header) s = .ok ((), s')) :
    ∃ e', s'.switchAt c.node = .ok e' ∧ Depths desc named e' := by
  obtain ⟨slot, queue, pfc, ordered, t, pending, hqueue, -, horder, hwrite⟩ :=
    switchPfcRemoteArrival_writes he hrun
  obtain ⟨hstate, hbytes⟩ := orderIfPaused_keeps horder
  have hordered : Depths desc named ordered := by
    refine Depths.of_same ?_ (hstate ▸ rfl) hbytes
    exact h.setQueue (queueFor_ok hqueue) rfl rfl rfl
  have hplaced : ordered.state.queues[slot]? = some { queue with
      pfc := some (pfc.control header.priority header.pause c.event.key.originNode).2 } := by
    rw [hstate]
    exact setQueue_self (queueFor_ok hqueue)
  refine Depths.write ?_ hwrite
  exact hordered.setQueue hplaced rfl rfl rfl

/-- Every event at a switch keeps its counters. -/
theorem switch_handler_depths {kind : EventKind} {handler : TransitionHandler}
    (hnames : named → Names desc s.packets ∧ ∀ id, (desc id).id = id) (hc : c.node.kind = .switch)
    (hhandler : resolveTransition c.node.kind kind = some handler)
    (hrun : run c (handlerProg c handler) s = .ok ((), s')) :
    ∃ e', s'.switchAt c.node = .ok e' ∧ Depths desc named e' := by
  rw [hc] at hhandler
  cases kind with
  | txReady =>
    cases hhandler
    exact switchTxReady_depths h he (fun hnamed => (hnames hnamed).1) hrun
  | txComplete =>
    cases hhandler
    exact switchTxComplete_depths h he hrun
  | remoteArrival =>
    cases hhandler
    obtain ⟨arriving, t, hpacket, hrest⟩ := run_bind_ok.1 hrun
    obtain ⟨⟨r, hr, rfl⟩, rfl⟩ := run_packet_ok.1 hpacket
    split at hrest
    · exact switchPfcRemoteArrival_depths h he hrest
    · exact switchPacketArrival_depths h he (fun hnamed => (hnames hnamed).1)
        (fun hnamed => ⟨(hnames hnamed).1 _ r hr, (hnames hnamed).2 _⟩) hrest
  | packetArrival | retransmissionTimeout | pacingTimer => cases hhandler

end Handlers

/-- Over any events the counters of a switch stand for its queues. -/
theorem SwitchEvents.depths {image : SimulationImage} {desc : PayloadId → PacketDescriptor} {named : Prop}
    {known : Std.ExtTreeMap PayloadId ResidentPacket → Prop} {node : NodeDescriptor}
    {start s : TransitionState} {first : SwitchEntry} (h : SwitchEvents image known node start s)
    (hnames : ∀ store, known store → named → Names desc store ∧ ∀ id, (desc id).id = id)
    (hkind : node.kind = .switch) (hfirst : start.switchAt node = .ok first)
    (hdepths : Depths desc named first) : ∃ e, s.switchAt node = .ok e ∧ Depths desc named e := by
  refine h.invariant hfirst hdepths ?_
  rintro c kind handler s s' e - rfl hhandler hknown he hdepths hhandled
  exact switch_handler_depths hdepths he (hnames _ hknown) hkind hhandler hhandled

/-! ## §5. The start. -/

section Start

variable {image : SimulationImage} {store : Std.ExtTreeMap PayloadId ResidentPacket}
  {desc : PayloadId → PacketDescriptor} {named : Prop}

/-- The loaded depth of a queue is the validated one. -/
theorem derivedQueueBytes_eq {node : NodeId} {ids : List PayloadId} {total bytes bytes' : Nat}
    (hstore : ∀ id r p, store[id]? = some r → image.initialPacket id = some p → r.descriptor = p)
    (h : derivedQueueBytes node store ids total = .ok bytes)
    (h' : image.queuedBytes ids total = some bytes') : bytes = bytes' := by
  induction ids generalizing total with
  | nil =>
    cases h
    cases h'
    rfl
  | cons id rest ih =>
    obtain ⟨r, hr, h⟩ := bind_ok h
    obtain ⟨sum, hsum, h⟩ := bind_ok h
    unfold SimulationImage.queuedBytes at h'
    simp only [Option.bind_eq_bind, Option.bind_eq_some_iff] at h'
    obtain ⟨p, hp, sum', hsum', h'⟩ := h'
    have hsize := hstore id r p (okOr_eq_ok.1 hr) hp
    rw [okOr_eq_ok, hsize, hsum'] at hsum
    cases hsum
    exact ih h h'

/-- The loaded depth of a queue is the sum of the waiting sizes. -/
theorem derivedQueueBytes_waiting {node : NodeId} {ids : List PayloadId} {total bytes : Nat}
    (hs : Names desc store) (h : derivedQueueBytes node store ids total = .ok bytes) :
    bytes = total + waitingBytes desc ids := by
  induction ids generalizing total with
  | nil =>
    cases h
    rfl
  | cons id rest ih =>
    obtain ⟨r, hr, h⟩ := bind_ok h
    obtain ⟨sum, hsum, h⟩ := bind_ok h
    obtain ⟨rfl, -⟩ := checkedAdd_eq_some (okOr_eq_ok.1 hsum)
    rw [ih h, (hs id r (okOr_eq_ok.1 hr)).2.2.1, Nat.add_assoc]
    rfl

theorem loadQueues_depth {node : NodeId} {queues : List SwitchQueueState} {bytes : List Nat}
    (hstore : ∀ id r p, store[id]? = some r → image.initialPacket id = some p → r.descriptor = p)
    (hnames : named → Names desc store)
    (hvalid : ∀ queue ∈ queues, validateDropMarkPolicy image queue = true)
    (h : loadQueues image node store queues = .ok (bytes, orders)) (slot : Nat)
    (queue : SwitchQueueState) (hqueue : queues[slot]? = some queue) :
    ∃ depth, bytes[slot]? = some depth ∧ Depth desc named queue depth := by
  obtain ⟨depth, hslot, hdepth, -⟩ := loadQueues_ok h hqueue
  refine ⟨depth, hslot, fun policy hramp => ?_, fun hnamed => ?_⟩
  · have hcheck := hvalid queue (mem_of_getElem? hqueue)
    unfold validateDropMarkPolicy at hcheck
    split at hcheck
    · cases hcheck
    · next queued hqueued =>
      rw [hramp] at hcheck
      simp only [Bool.and_eq_true, decide_eq_true_eq] at hcheck
      rw [derivedQueueBytes_eq hstore hdepth hqueued]
      exact hcheck.2
  · rw [derivedQueueBytes_waiting (hnames hnamed) hdepth, Nat.zero_add]

theorem loadSwitches_depths {first : Nat} {states : List SwitchState} {entries : List SwitchEntry}
    (hstore : ∀ id r p, store[id]? = some r → image.initialPacket id = some p → r.descriptor = p)
    (hnames : named → Names desc store)
    (hvalid : ∀ state ∈ states, ∀ queue ∈ state.queues, validateDropMarkPolicy image queue = true)
    (h : loadSwitches image store first states = .ok entries) :
    ∀ e ∈ entries, Depths desc named e := by
  induction states generalizing first entries with
  | nil =>
    cases h
    simp
  | cons state rest ih =>
    obtain ⟨node, -, h⟩ := bind_ok h
    obtain ⟨entry, hentry, h⟩ := bind_ok h
    obtain ⟨others, hothers, ⟨⟩⟩ := bind_pure_ok h
    intro e he
    rcases mem_cons.1 he with rfl | he
    · unfold loadSwitch at hentry
      obtain ⟨⟨bytes, orders⟩, hload, ⟨⟩⟩ := bind_pure_ok hentry
      exact fun slot queue hqueue =>
        loadQueues_depth hstore hnames (hvalid state mem_cons_self) hload slot queue hqueue
    · exact ih (fun s hs => hvalid s (mem_cons_of_mem _ hs)) hothers e he

/-- What is loaded lies under its own id. -/
theorem loadPackets_keyed {packets : List PacketDescriptor}
    {store store' : Std.ExtTreeMap PayloadId ResidentPacket}
    (h : loadPackets store packets = .ok store')
    (hkeyed : ∀ (id : PayloadId) (r : ResidentPacket), store[id]? = some r → r.descriptor.id = id)
    {id : PayloadId} {r : ResidentPacket} (hr : store'[id]? = some r) : r.descriptor.id = id := by
  induction packets generalizing store with
  | nil =>
    cases h
    exact hkeyed id r hr
  | cons p rest ih =>
    unfold loadPackets at h
    split at h
    · cases h
    · refine ih h fun other r' hother => ?_
      rw [Std.ExtTreeMap.getElem?_insert] at hother
      split at hother
      · next heq =>
        cases hother
        simpa using heq
      · exact hkeyed other r' hother

/-- With advancing ids a packet is the one its id finds. -/
theorem initialPacket_unique (hids : validatePacketIds image = true) {p q : PacketDescriptor}
    {id : PayloadId} (hp : p ∈ image.initialPackets) (hid : p.id = id)
    (hq : image.initialPacket id = some q) : p = q := by
  have hnodup : (image.initialPackets.map (·.id)).Nodup := by
    exact ((isChain_iff_pairwise.1 (of_decide_eq_true hids)).imp fun hlt => Nat.ne_of_lt hlt)
  have hqid : q.id = id := by simpa using find?_some hq
  exact inj_on_of_nodup_map hnodup hp (mem_of_find?_eq_some hq) (hid.trans hqid.symm)

/-- What a started executor stores under an id is an initial packet of that id. -/
theorem start_packet {start : TransitionState} (hstart : new image = .ok start) {id : PayloadId}
    {r : ResidentPacket} (hr : start.packets[id]? = some r) :
    r.descriptor ∈ image.initialPackets ∧ r.descriptor.id = id := by
  obtain ⟨ledger, -, hstart⟩ := bind_ok hstart
  obtain ⟨store, hstore, hstart⟩ := bind_ok hstart
  obtain ⟨store', hstore', hstart⟩ := bind_ok hstart
  obtain ⟨switches, -, hstart⟩ := bind_ok hstart
  rw [liftPlain_eq_ok] at hstore hstore'
  cases pure_eq_ok.1 hstart
  obtain ⟨r₀, hr₀, hsame⟩ := loadTransmitters_descriptor hstore' hr
  rw [← hsame]
  rcases loadPackets_mem hstore hr₀ with hold | hmem
  · simp at hold
  · exact ⟨(mem_filter.1 hmem).1, loadPackets_keyed hstore (by simp) hr₀⟩

/-- So at the start an id names one packet. -/
theorem start_names {start : TransitionState} (hstart : new image = .ok start)
    (hdesc : ∀ p ∈ image.initialPackets, p.SameUnmarked (desc p.id)) : Names desc start.packets := by
  intro id r hr
  obtain ⟨hmem, rfl⟩ := start_packet hstart hr
  exact hdesc _ hmem

/-- The counters a validated image starts with stand for its queues. -/
theorem start_depths {start : TransitionState} (hids : validatePacketIds image = true)
    (hvalid : ∀ state ∈ image.switchStates, ∀ queue ∈ state.queues,
      validateDropMarkPolicy image queue = true)
    (hstart : new image = .ok start) (hnames : named → Names desc start.packets)
    {node : NodeDescriptor} {first : SwitchEntry} (hfirst : start.switchAt node = .ok first) :
    Depths desc named first := by
  have hstored : ∀ id r p, start.packets[id]? = some r → image.initialPacket id = some p →
      r.descriptor = p := fun id r p hr hp =>
    have hpacket := start_packet hstart hr
    initialPacket_unique hids hpacket.1 hpacket.2 hp
  obtain ⟨ledger, -, hstart⟩ := bind_ok hstart
  obtain ⟨store, -, hstart⟩ := bind_ok hstart
  obtain ⟨store', -, hstart⟩ := bind_ok hstart
  obtain ⟨switches, hswitches, hstart⟩ := bind_ok hstart
  rw [liftPlain_eq_ok] at hswitches
  cases pure_eq_ok.1 hstart
  obtain ⟨slot, -, hfirst⟩ := bind_ok hfirst
  exact loadSwitches_depths hstored hnames hvalid hswitches first
    (mem_of_getElem? (okOr_eq_ok.1 hfirst))

end Start

/-! ## §6. The ramp. -/

/-- For a checked policy of 64-bit fields and every 64-bit draw: the values the comparison goes
through have their widths; inside the ramp a packet is marked exactly if
`draw * pmax_den * (kmax - kmin) < 2 ^ 64 * pmax_num * (depth - kmin)`; and for one draw the
decision rises with the depth from enqueue over mark to drop.  Over every run of a validated image
the byte counter of a queue with a ramp stays within its capacity; and where an id names one packet
all along, every counter is the sum of the waiting sizes, so these stay within it too. -/
theorem ecn_ramp_exact (policy : EcnRampPolicy) (hcheck : ecnRampPolicyCheck policy = .ok ())
    (hcapacity : policy.capacityBytes < width 64) (draw : Nat) (hdraw : draw < width 64) :
    (∀ depth, policy.kminBytes ≤ depth → depth < policy.kmaxBytes →
      policy.pmaxDenominator * (policy.kmaxBytes - policy.kminBytes) < width 64 ∧
      policy.pmaxNumerator * (depth - policy.kminBytes) < width 64 ∧
      draw * (policy.pmaxDenominator * (policy.kmaxBytes - policy.kminBytes)) < width 128) ∧
    (∀ queued size, policy.kminBytes ≤ queued + size → queued + size < policy.kmaxBytes →
      (ecnRampDecision policy queued size true draw = .mark ↔
        draw * policy.pmaxDenominator * (policy.kmaxBytes - policy.kminBytes) <
          2 ^ 64 * policy.pmaxNumerator * (queued + size - policy.kminBytes))) ∧
    (∀ (capable : Bool) (queued size queued' size' : Nat), queued + size ≤ queued' + size' →
      (ecnRampDecision policy queued size capable draw).rank ≤
        (ecnRampDecision policy queued' size' capable draw).rank) ∧
    ∀ (image : SimulationImage) (node : NodeDescriptor) (start s : TransitionState) (first : SwitchEntry),
      validatePacketIds image = true →
      (∀ state ∈ image.switchStates, ∀ queue ∈ state.queues,
        validateDropMarkPolicy image queue = true) →
      TransitionState.new image = .ok start → node.kind = .switch → start.switchAt node = .ok first →
      (SwitchEvents image (fun _ => True) node start s → ∃ e, s.switchAt node = .ok e ∧
        ∀ (slot : Nat) (queue : SwitchQueueState) (policy : EcnRampPolicy),
          e.state.queues[slot]? = some queue → queue.dropMark = .ecnRamp policy →
          e.queueBytes.getD slot 0 ≤ policy.capacityBytes) ∧
      ∀ desc : PayloadId → PacketDescriptor, (∀ id, (desc id).id = id) → Names desc start.packets →
        SwitchEvents image (Names desc) node start s → ∃ e, s.switchAt node = .ok e ∧
          ∀ (slot : Nat) (queue : SwitchQueueState), e.state.queues[slot]? = some queue →
            e.queueBytes[slot]? = some (waitingBytes desc queue.queue) ∧
            ∀ policy, queue.dropMark = .ecnRamp policy →
              waitingBytes desc queue.queue ≤ policy.capacityBytes := by
  have hchecked := EcnRampPolicy.checked_of_check hcheck
  refine ⟨fun depth hlow hhigh => ecnRamp_widths hchecked hlow hhigh hdraw,
    fun queued size hlow hhigh => ecnRampDecision_mark_iff hcapacity hchecked hlow hhigh draw,
    fun capable queued size queued' size' hdepth => ecnRampDecision_mono hcapacity capable draw hdepth,
    fun image node start s first hids hvalid hstart hkind hfirst => ⟨fun hevents => ?_,
      fun desc hdesc hnames hevents => ?_⟩⟩
  · -- Without names the counters alone are followed.
    have hdepths : Depths (fun id => ⟨id, 0, 0, false, .data⟩) False first :=
      start_depths hids hvalid hstart (fun hfalse => hfalse.elim) hfirst
    obtain ⟨e, he, hdepths⟩ := hevents.depths (fun _ _ hfalse => hfalse.elim) hkind hfirst hdepths
    refine ⟨e, he, fun slot queue policy hqueue hramp => ?_⟩
    obtain ⟨bytes, hbytes, hdepth⟩ := hdepths slot queue hqueue
    rw [getD_eq_getElem?_getD, hbytes]
    exact hdepth.within policy hramp
  · have hdepths : Depths desc True first :=
      start_depths hids hvalid hstart (fun _ => hnames) hfirst
    obtain ⟨e, he, hdepths⟩ := hevents.depths (fun _ hknown _ => ⟨hknown, hdesc⟩) hkind hfirst hdepths
    refine ⟨e, he, fun slot queue hqueue => ?_⟩
    obtain ⟨bytes, hbytes, hdepth⟩ := hdepths slot queue hqueue
    rw [← hdepth.counted trivial]
    exact ⟨hbytes, hdepth.within⟩

/-- A ramp from 1000 to 3000 bytes with a marking probability of one fifth at the top. -/
def sampleRamp : EcnRampPolicy := ⟨4000, 1000, 3000, 1, 5⟩

/-- The sample switch with a packet waiting under that ramp and another about to arrive. -/
def sampleRampImage : SimulationImage :=
  { sampleSwitchImage with
    initialPackets := [sampleFrame 0, sampleFrame 2]
    switchStates := [⟨[{ sampleQueue .fifo none with queue := [0], dropMark := .ecnRamp sampleRamp }],
      0, 1, 0, 0⟩] }

/-- Start the executor and handle the arrival. -/
def sampleRampRun : Except ExecutionError (TransitionState × TransitionState × SwitchEntry) := do
  let start ← TransitionState.new sampleRampImage
  let _ ← liftPlain (start.switchAt arrivalCtx.node)
  let s ← dispatch sampleRampImage .summary arrivalCtx.event start
  let e ← liftPlain (s.switchAt arrivalCtx.node)
  return (start, s, e)

/-- The ramp decides on the second kilobyte, and after the arrival the counter is what waits. -/
theorem ecn_ramp_exact_sample :
    (ecnRampDecision sampleRamp 1000 1000 true (2 ^ 60) = .mark ↔
        2 ^ 60 * 5 * (3000 - 1000) < 2 ^ 64 * 1 * (1000 + 1000 - 1000)) ∧
      ∃ (start s : TransitionState) (e : SwitchEntry) (queue : SwitchQueueState),
        SwitchEvents sampleRampImage (Names sampleFrame) arrivalCtx.node start s ∧
        s.switchAt arrivalCtx.node = .ok e ∧ e.state.queues[0]? = some queue ∧ queue.queue = [0, 2] ∧
        e.queueBytes[0]? = some (waitingBytes sampleFrame queue.queue) := by
  obtain ⟨⟨start, s, e⟩, hrun, hleft⟩ := exists_ok sampleRampRun
    (fun ran => ran.2.2.state.queues[0]?.any fun queue => queue.queue == [0, 2]) (by decide +kernel)
  obtain ⟨_, hstart, hrun⟩ := bind_ok hrun
  obtain ⟨first, hfirst, hrun⟩ := bind_ok hrun
  obtain ⟨_, hdispatch, hrun⟩ := bind_ok hrun
  obtain ⟨_, he, ⟨⟩⟩ := bind_pure_ok hrun
  rw [liftPlain_eq_ok] at he hfirst
  obtain ⟨queue, hqueue, hids⟩ := (Option.any_eq_true _ _).1 hleft
  obtain ⟨hmark, -, hevents⟩ := (ecn_ramp_exact sampleRamp rfl (by decide) (2 ^ 60) (by decide)).2
  have hnames : Names sampleFrame start.packets := start_names hstart
    (by simp [sampleRampImage, PacketDescriptor.SameUnmarked, sampleFrame])
  have hvisits : SwitchEvents sampleRampImage (Names sampleFrame) arrivalCtx.node start s :=
    .event .start (c := { arrivalCtx with image := sampleRampImage }) rfl rfl hnames hdispatch
  obtain ⟨e', he', hcounted⟩ := (hevents sampleRampImage arrivalCtx.node start s first rfl (by decide)
    hstart rfl hfirst).2 sampleFrame (fun _ => rfl) hnames hvisits
  cases he.symm.trans he'
  exact ⟨hmark 1000 1000 (by decide) (by decide), start, s, e, queue, hvisits, he, hqueue,
    eq_of_beq hids, (hcounted 0 queue hqueue).1⟩

end Days
