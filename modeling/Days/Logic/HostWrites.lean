/-
  Days.Logic.HostWrites — what the state halves of the handlers write.

  A generator is written with the flow it had, a receiver with the flow it had,
  a stage record with its role and its predecessors; outside the handlers of TCP
  the TCP part of a generator is left alone.  What a host keeps over its
  handlers is derived from these writes.
-/
import Days.Logic.SenderView

namespace Days

open HostEntry

variable {g g' : FlowGeneratorState} {position : Nat} {causes : PendingCauses}
  {p : PacketDescriptor} {flow : FlowId} {c : Ctx} {e e' : HostEntry} {free : Prop}

/-! ## §1. Writes. -/

/-- The entry after some writes; TCP senders only change if they are `free` to. -/
inductive Writes (free : Prop) : HostEntry → HostEntry → Prop
  | same {e e' : HostEntry} (hg : e'.state.generators = e.state.generators)
      (hs : e'.state.stages = e.state.stages)
      (hr : e'.state.tcpReceivers.map (·.flow) = e.state.tcpReceivers.map (·.flow))
      (hi : e'.index = e.index) : Writes free e e'
  | generator {e : HostEntry} {position : Nat} {g g' : FlowGeneratorState}
      (hg : e.state.generators[position]? = some g) (hflow : g'.flow = g.flow)
      (hpart : free ∨ g'.tcpPart = g.tcpPart) : Writes free e (e.setGenerator position g')
  | stage {e : HostEntry} {position : Nat} {g : FlowGeneratorState} {stage stage' : CollectiveStage}
      (hg : e.state.generators[position]? = some g) (hs : e.state.stage position = some stage)
      (hrole : stage'.role = stage.role)
      (hlocal : stage'.dependencies.localPredecessors = stage.dependencies.localPredecessors)
      (hinbound : stage'.dependencies.inbound = stage.dependencies.inbound) :
      Writes free e (e.setStage position stage')
  | trans {e e' e'' : HostEntry} (h : Writes free e e') (h' : Writes free e' e'') :
      Writes free e e''

theorem FlowGeneratorState.tcpPart_of (h : ∀ tcp, g.kind ≠ .tcp tcp) : g.tcpPart = none := by
  unfold tcpPart
  split
  · next tcp hkind => exact absurd hkind (h tcp)
  · rfl

theorem tcpPart_same (hbefore : ∀ tcp, g.kind ≠ .tcp tcp) (hafter : ∀ tcp, g'.kind ≠ .tcp tcp) :
    g'.tcpPart = g.tcpPart :=
  (FlowGeneratorState.tcpPart_of hafter).trans (FlowGeneratorState.tcpPart_of hbefore).symm

/-- The compute stages belong to sources without TCP. -/
def HostEntry.ComputeOk (e : HostEntry) : Prop :=
  ∀ (position : Nat) stage g, e.state.stage position = some stage →
    (∃ compute, stage.role = .compute compute) → e.state.generators[position]? = some g →
    ∀ tcp, g.kind ≠ .tcp tcp

/-- The TCP sender of `flow` is written, then other things. -/
def TcpWrites (flow : FlowId) (e e' : HostEntry) : Prop :=
  ∃ position g g' tcp tcp', (∀ free, Writes free (e.setGenerator position g') e') ∧ g'.flow = g.flow ∧
    g'.kind = .tcp tcp' ∧ g.kind = .tcp tcp ∧ e.state.generators[position]? = some g ∧
    (e.Sole flow → e.index.firstGenerator flow = some position)

theorem TcpWrites.writes (h : TcpWrites flow e e') : Writes True e e' := by
  obtain ⟨position, g, g', tcp, tcp', hrest, hflow, -, -, hg, -⟩ := h
  exact .trans (.generator hg hflow (.inl trivial)) (hrest True)

namespace Writes

theorem refl (e : HostEntry) : Writes free e e := .same rfl rfl rfl rfl

/-- A generator without TCP, written back without TCP. -/
theorem writeOther (hg : e.state.generators[position]? = some g) (hflow : g'.flow = g.flow)
    (hbefore : ∀ tcp, g.kind ≠ .tcp tcp) (hafter : ∀ tcp, g'.kind ≠ .tcp tcp) :
    Writes free e (e.setGenerator position g') :=
  .generator hg hflow (.inr (tcpPart_same hbefore hafter))

/-- The same after a change of what is no generator. -/
theorem thenWrite (h : Writes free e e') (hg' : e'.state.generators = e.state.generators)
    (hg : e.state.generators[position]? = some g) (hflow : g'.flow = g.flow)
    (hbefore : ∀ tcp, g.kind ≠ .tcp tcp) (hafter : ∀ tcp, g'.kind ≠ .tcp tcp) :
    Writes free e (e'.setGenerator position g') :=
  h.trans (.writeOther (by rw [hg']; exact hg) hflow hbefore hafter)

/-- A queue pair, written back. -/
theorem writeRoce {roce roce' : RoceGenerator} {status : GeneratorStatus} (h : Writes free e e')
    (hg' : e'.state.generators = e.state.generators) (hg : e.state.generators[position]? = some g)
    (hkind : g.kind = .roce roce) (hflow : g'.flow = g.flow) :
    Writes free e (e'.setGenerator position (settleRoceSender g' roce' status)) :=
  h.thenWrite hg' hg hflow (by simp [hkind]) (by simp [settleRoceSender])

theorem setReadyPending (e : HostEntry) (b : Bool) : Writes free e (e.setReadyPending b) :=
  .same rfl rfl rfl rfl

theorem setPfc (e : HostEntry) (pfc : Option HostPfcState) : Writes free e (e.setPfc pfc) :=
  .same rfl rfl rfl rfl

theorem release (e : HostEntry) (departed : Nat) : Writes free e (e.release departed) :=
  .same rfl rfl rfl rfl

theorem claim (e : HostEntry) : Writes free e e.claim.2 := .same rfl rfl rfl rfl

theorem countSourcedPackets {n : Nat} (h : e.countSourcedPackets c n = .ok e') :
    Writes free e e' := by
  obtain ⟨_, rfl⟩ := countSourcedPackets_eq_ok h
  exact .same rfl rfl rfl rfl

theorem allocatePayload {payload : PayloadId} (h : e.allocatePayload c = .ok (payload, e')) :
    Writes free e e' := by
  obtain ⟨-, rfl⟩ := allocatePayload_eq_ok h
  exact .same rfl rfl rfl rfl

/-! ## §2. Stages. -/

theorem completeLocalSuccessor (completed : FlowId) (completion : CompletionSignal)
    (acc : HostEntry × PendingCauses) (position : Nat) :
    Writes free acc.1 (completeLocalSuccessor completed completion acc position).1 := by
  obtain ⟨entry, causes⟩ := acc
  unfold Days.completeLocalSuccessor
  dsimp only
  split
  · next g stage hg hstage =>
    split
    · exact .refl _
    · exact .stage hg hstage rfl rfl rfl
  · exact .refl _

theorem completeLocalSuccessors (e : HostEntry) (completed : FlowId)
    (completion : CompletionSignal) (causes : PendingCauses) :
    Writes free e (completeLocalSuccessors e completed completion causes).1 := by
  have hfold : ∀ (positions : List Nat) (acc : HostEntry × PendingCauses),
      Writes free acc.1
        (positions.foldl (Days.completeLocalSuccessor completed completion) acc).1 := by
    intro positions
    induction positions with
    | nil => exact fun acc => .refl acc.1
    | cons position rest ih =>
      exact fun acc => (completeLocalSuccessor _ _ acc position).trans (ih _)
  unfold Days.completeLocalSuccessors
  split
  · exact .refl e
  · exact hfold _ (e, causes)

theorem recordInboundSuccessors {node : NodeId} {inbound : FlowId} {sequence bytes advance : Nat}
    {positions : List Nat} {causes' : PendingCauses}
    (h : recordInboundSuccessors node inbound sequence bytes advance positions e causes =
      .ok (e', causes')) : Writes free e e' := by
  induction positions generalizing e causes with
  | nil =>
    cases h
    exact .refl _
  | cons position rest ih =>
    unfold Days.recordInboundSuccessors at h
    split at h
    · next g stage hg hstage =>
      dsimp only at h
      split at h
      · exact ih h
      · obtain ⟨received, -, h⟩ := bind_ok h
        obtain ⟨_, -, h⟩ := bind_ok h
        have hwrite : Writes free e (e.setStage position { stage with
            dependencies := { stage.dependencies with inboundBytesReceived := received } }) :=
          .stage hg hstage rfl rfl rfl
        exact hwrite.trans (ih h)
    · exact ih h

theorem recordInboundProgress {node : NodeId} {inbound : FlowId} {sequence bytes advance : Nat}
    {causes' : PendingCauses}
    (h : recordInboundProgress node e inbound sequence bytes advance causes = .ok (e', causes')) :
    Writes free e e' := by
  unfold Days.recordInboundProgress at h
  split at h
  · cases h
    exact .refl _
  · exact recordInboundSuccessors h

/-! ## §3. Sources without TCP. -/

theorem constantEmission {next : Option (PacketDescriptor × Nat)}
    (h : constantEmission c p e = .ok (next, e')) :
    Writes free e e' ∧ ∀ q t, next = some (q, t) → q.kind = .data := by
  obtain ⟨position, g, hposition, hg, h⟩ := generatorFor_bind h
  obtain ⟨_, -, h⟩ := bind_ok h
  obtain ⟨emitted, -, h⟩ := bind_ok h
  obtain ⟨bytes, -, h⟩ := bind_ok h
  dsimp only at h
  split at h
  · next constant hkind =>
    obtain ⟨candidate, -, h⟩ := bind_ok h
    split at h
    · obtain ⟨⟨payload, e₁⟩, halloc, ⟨⟩⟩ := bind_pure_ok h
      have hwrites : Writes free e e₁ := allocatePayload halloc
      obtain ⟨-, rfl⟩ := allocatePayload_eq_ok halloc
      refine ⟨hwrites.thenWrite rfl hg rfl (by simp [hkind]) (by simp [hkind]), ?_⟩
      rintro q t ⟨⟩
      rfl
    · cases pure_eq_ok.1 h
      refine ⟨.writeOther hg rfl (by simp [hkind]) (by simp [hkind]), ?_⟩
      rintro q t ⟨⟩
  · cases h

theorem scheduleStageToken {deadlineNs : Nat} {token : Option PayloadId}
    (h : scheduleStageToken c flow deadlineNs e = .ok (token, e'))
    (hother : free ∨ ∀ g, e.sender flow = some g → ∀ tcp, g.kind ≠ .tcp tcp) :
    Writes free e e' := by
  obtain ⟨⟨token', e₁⟩, htoken, h⟩ := bind_ok h
  obtain ⟨⟨position, g⟩, hfor, ⟨⟩⟩ := bind_pure_ok h
  obtain ⟨hposition, hg⟩ := generatorFor_eq hfor
  have hsame : Writes free e e₁ ∧ e₁.state.generators = e.state.generators ∧
      e₁.index = e.index := by
    unfold stageToken at htoken
    split at htoken
    · obtain ⟨⟨payload, e₂⟩, halloc, htoken⟩ := bind_ok htoken
      cases pure_eq_ok.1 htoken
      have hwrites : Writes free e e₁ := allocatePayload halloc
      obtain ⟨-, rfl⟩ := allocatePayload_eq_ok halloc
      exact ⟨hwrites, rfl, rfl⟩
    · cases htoken
      exact ⟨.refl e, rfl, rfl⟩
  obtain ⟨hwrites, hgenerators, hindex⟩ := hsame
  rw [hgenerators] at hg
  rw [hindex] at hposition
  have hg₁ : e₁.state.generators[position]? = some g := by
    rw [hgenerators]
    exact hg
  refine hwrites.trans (.generator hg₁ rfl ?_)
  refine hother.imp_right fun hnone => ?_
  have hkind := hnone g (sender_eq_some.2 ⟨position, hposition, hg⟩)
  exact tcpPart_same hkind hkind

/-- Finishing a stage, also one of TCP where that is allowed. -/
theorem finishStage {durationNs : Nat} {g₀ : FlowGeneratorState}
    (hg : e.state.generators[position]? = some g₀) (hflow : g.flow = g₀.flow)
    (hother : free ∨ (∀ tcp, g₀.kind ≠ .tcp tcp) ∧ ∀ tcp, g.kind ≠ .tcp tcp) :
    Writes free e (finishStage c flow position g durationNs e).1 := by
  refine Writes.trans ?_ (completeLocalSuccessors _ _ _ _)
  exact .generator hg hflow (hother.imp_right fun h => tcpPart_same h.1 h.2)

theorem notifyTimer {laneNs : Nat} (h : notifyTimer c flow e = .ok (laneNs, e', causes)) :
    Writes free e e' := by
  obtain ⟨position, g, hposition, hg, h⟩ := generatorFor_bind h
  dsimp only at h
  split at h
  · next constant hkind =>
    obtain ⟨_, -, h⟩ := bind_ok h
    obtain ⟨-, hstage⟩ := Prod.mk.inj (pure_eq_ok.1 h)
    have hentry : _ = e' := congrArg Prod.fst hstage
    rw [← hentry]
    exact finishStage hg rfl (.inr ⟨by simp [hkind], by simp [hkind]⟩)
  · cases h

theorem computeTimer (h : computeTimer c flow e = .ok (e', causes)) (hroles : free ∨ e.ComputeOk) :
    Writes free e e' := by
  obtain ⟨position, g, hposition, hg, h⟩ := generatorFor_bind h
  obtain ⟨_, -, h⟩ := bind_ok h
  split at h
  · next compute rest activated hstage =>
    have hentry : _ = e' := congrArg Prod.fst (pure_eq_ok.1 h)
    rw [← hentry]
    refine finishStage hg rfl (hroles.imp_right fun hcompute => ?_)
    have hkind := hcompute position _ g hstage ⟨compute, rfl⟩ hg
    exact ⟨hkind, hkind⟩
  · cases h

/-- A tick of a paced source counts the packet and takes a payload id. -/
theorem paceStep {rate : RateGenerator} {rateBps : Nat} {paced : Paced} {after : FlowGeneratorState}
    (h : paceStep c p rate rateBps e g = .ok paced) (hg : e.state.generators[position]? = some g)
    (hflow : after.flow = paced.generator.flow) (hbefore : ∀ tcp, g.kind ≠ .tcp tcp)
    (hafter : ∀ tcp, after.kind ≠ .tcp tcp) :
    Writes free e (paced.entry.setGenerator position after) := by
  obtain ⟨hticked, sourced, seq, hentry⟩ := paceStep_ticked h
  refine Writes.thenWrite ?_ hticked.generators hg (hflow.trans hticked.flow) hbefore hafter
  rw [hentry]
  exact .same rfl rfl rfl rfl

theorem dcqcnDataArrival {cnp : Option (PacketDescriptor × Bool)}
    (h : dcqcnDataArrival c p e = .ok (cnp, e')) :
    Writes free e e' ∧ ∀ q ready, cnp = some (q, ready) → q.kind = .dcqcnCnp p.id := by
  obtain ⟨position, -, h⟩ := bind_ok h
  obtain ⟨receiver, -, h⟩ := bind_ok h
  obtain ⟨count, -, h⟩ := bind_ok h
  dsimp only at h
  split at h
  · obtain ⟨⟨payload, e₁⟩, halloc, h⟩ := bind_ok h
    obtain ⟨e₂, hcount, ⟨⟩⟩ := bind_pure_ok h
    obtain ⟨-, rfl⟩ := allocatePayload_eq_ok halloc
    obtain ⟨sourced, rfl⟩ := countSourcedPackets_eq_ok hcount
    refine ⟨.same rfl rfl rfl rfl, ?_⟩
    rintro q ready ⟨⟩
    rfl
  · cases pure_eq_ok.1 h
    refine ⟨.same rfl rfl rfl rfl, ?_⟩
    rintro q ready ⟨⟩

theorem cnpReaction {row : Option MechanismTransitionRecord} (h : cnpReaction c p e = .ok (row, e')) :
    Writes free e e' := by
  obtain ⟨position, g, hposition, hg, h⟩ := generatorFor_bind h
  obtain ⟨arrivals, h⟩ := applyGeneratorFeedback_bind h
  dsimp only at h
  split at h
  · next dcqcn hkind =>
    split at h
    · cases pure_eq_ok.1 h
      exact .writeOther hg rfl (by simp [hkind]) (by simp [hkind])
    · cases pure_eq_ok.1 h
      exact .writeOther hg rfl (by simp [hkind]) (by simp)
  · next roce hkind =>
    split at h
    · cases pure_eq_ok.1 h
      exact .writeOther hg rfl (by simp [hkind]) (by simp [hkind])
    · cases pure_eq_ok.1 h
      exact (refl e).writeRoce rfl hg hkind rfl
  · cases h

/-- Counting feedback is not TCP's business. -/
theorem plainArrival {flow : FlowDescriptor} {disposition : ArrivalDisposition}
    (h : plainArrival c p flow e = .ok (disposition, e')) : Writes free e e' := by
  unfold Days.plainArrival at h
  dsimp only at h
  split at h
  · obtain ⟨g, hg, h⟩ := bind_ok h
    obtain ⟨arrivals, h⟩ := applyGeneratorFeedback_bind h
    rw [okOr_eq_ok] at hg
    cases pure_eq_ok.1 h
    exact .generator hg rfl (.inr rfl)
  · obtain ⟨_, -, h⟩ := bind_ok h
    obtain ⟨received, -, ⟨⟩⟩ := bind_pure_ok h
    exact .same rfl rfl rfl rfl

/-! ## §4. TCP. -/

theorem tcpDataArrival {ack : PacketDescriptor} {header : TcpDataHeader}
    (h : tcpDataArrival c p header e = .ok (ack, e', causes)) :
    Writes free e e' ∧ ∃ reply, ack.kind = .tcpAck reply := by
  obtain ⟨position, -, h⟩ := bind_ok h
  obtain ⟨r, hr, h⟩ := bind_ok h
  rw [okOr_eq_ok] at hr
  obtain ⟨stop, -, h⟩ := bind_ok h
  obtain ⟨⟨e₁, causes₁⟩, hprogress, h⟩ := bind_ok h
  obtain ⟨⟨payload, e₂⟩, halloc, h⟩ := bind_ok h
  obtain ⟨count, -, h⟩ := bind_ok h
  obtain ⟨e₃, hcount, ⟨⟩⟩ := bind_pure_ok h
  have hprogressed : Writes free e e₁ := by
    refine Writes.trans ?_ (recordInboundProgress hprogress)
    refine same rfl rfl (map_set_eq hr ?_) rfl
    unfold tcpReceiveRange
    split <;> rfl
  have hcounted : Writes free e₂ e' := by
    refine Writes.trans ?_ (countSourcedPackets hcount)
    exact same rfl rfl rfl rfl
  exact ⟨(hprogressed.trans (allocatePayload halloc)).trans hcounted, _, rfl⟩

/-- A retransmission takes a payload id. -/
theorem retransmitFirst {retransmit : Option (Nat × Nat)} {s s' : TcpSending}
    (h : retransmitFirst c flow retransmit s = .ok s') :
    (∃ n, s'.entry = { s.entry with state := { s.entry.state with nextPayloadSeq := n } }) ∧
      s'.generator.flow = s.generator.flow := by
  unfold Days.retransmitFirst at h
  split at h
  · split at h
    · unfold retransmitAttempt at h
      obtain ⟨⟨payload, e₁⟩, halloc, ⟨⟩⟩ := bind_pure_ok h
      obtain ⟨-, rfl⟩ := allocatePayload_eq_ok halloc
      exact ⟨⟨_, rfl⟩, rfl⟩
    · cases h
      exact ⟨⟨_, rfl⟩, rfl⟩
  · cases h
    exact ⟨⟨_, rfl⟩, rfl⟩

theorem tcpAttempts {retransmit : Option (Nat × Nat)} {fill preserve : Bool} {plan : TcpSendPlan}
    (h : tcpAttempts c flow retransmit fill preserve e = .ok (plan, e')) : TcpWrites flow e e' := by
  obtain ⟨position, g, hposition, hg, h⟩ := generatorFor_bind h
  dsimp only at h
  split at h
  · next tcp hkind =>
    obtain ⟨s₁, hretransmit, h⟩ := bind_ok h
    obtain ⟨s₂, hfill, h⟩ := bind_ok h
    obtain ⟨⟨timer, tcp'⟩, -, h⟩ := bind_ok h
    obtain ⟨e₁, hcount, ⟨⟩⟩ := bind_pure_ok h
    obtain ⟨⟨n, hentry₁⟩, hflow₁⟩ := retransmitFirst hretransmit
    obtain ⟨_, hsent, -⟩ := @fillIf_sent fill c flow (fun _ => none) s₁ s₂ hfill
    obtain ⟨m, hentry₂⟩ := hsent.entry
    rw [hentry₂, hentry₁] at hcount
    refine ⟨position, g, settleTcp preserve tcp' s₂.generator, tcp, tcp', fun _ => ?_,
      hsent.generator.1.trans hflow₁, rfl, hkind, hg, fun _ => hposition⟩
    refine Writes.trans ?_ (countSourcedPackets hcount)
    exact same rfl rfl rfl rfl
  · cases h

theorem tcpAckArrival {header : TcpAckHeader} {plan : TcpAckPlan}
    (h : tcpAckArrival c p header e = .ok (plan, e')) : TcpWrites p.flow e e' := by
  obtain ⟨position, g, hposition, hg, h⟩ := generatorFor_bind h
  dsimp only at h
  split at h
  · next tcp hkind =>
    obtain ⟨arrivals, h⟩ := applyGeneratorFeedback_bind h
    split at h
    · obtain ⟨delay, -, ⟨⟩⟩ := bind_pure_ok h
      exact ⟨position, g, _, tcp, _, fun _ => completeLocalSuccessors _ _ _ _, rfl, rfl, hkind, hg,
        fun _ => hposition⟩
    · cases pure_eq_ok.1 h
      exact ⟨position, g, _, tcp, _, fun _ => .refl _, rfl, rfl, hkind, hg, fun _ => hposition⟩
  · cases h

theorem expireTimer {sequence : Nat} {record : TcpTransitionRecord}
    (h : expireTimer c e = some (flow, sequence, record, e')) : TcpWrites flow e e' := by
  obtain ⟨position, -, h⟩ := Option.bind_eq_some_iff.1 h
  obtain ⟨g, hg, h⟩ := Option.bind_eq_some_iff.1 h
  obtain ⟨⟨tcp, timer⟩, hfired, h⟩ := Option.bind_eq_some_iff.1 h
  cases h
  unfold firedTimer at hfired
  split at hfired
  · next tcp' hkind =>
    obtain ⟨t, -, ⟨⟩⟩ := Option.map_eq_some_iff.1 hfired
    exact ⟨position, g, _, tcp, _, fun _ => .refl _, rfl, rfl, hkind, hg,
      fun hsole => hsole position (flows_getElem? hg)⟩
  · cases hfired

theorem tcpInitialSend {header : TcpDataHeader} (h : tcpInitialSend c p header e = .ok e') :
    TcpWrites p.flow e e' := by
  obtain ⟨position, g, hposition, hg, h⟩ := generatorFor_bind h
  dsimp only at h
  split at h
  · next tcp hkind =>
    obtain ⟨_, -, h⟩ := bind_ok h
    obtain ⟨emitted, -, h⟩ := bind_ok h
    obtain ⟨bytes, -, h⟩ := bind_ok h
    obtain ⟨next, -, h⟩ := bind_ok h
    obtain ⟨flight, -, h⟩ := bind_ok h
    exact ⟨position, g, _, tcp, _, fun _ => countSourcedPackets h, rfl, rfl, hkind, hg, fun _ => hposition⟩
  · cases h

/-! ## §5. Queue pairs. -/

theorem roceTick {tick : RoceTick} (h : roceTick c flow e = .ok tick) :
    Writes free e tick.entry := by
  obtain ⟨position, hposition, h⟩ := bind_ok h
  obtain ⟨g, hg, h⟩ := bind_ok h
  rw [okOr_eq_ok] at hposition hg
  split at h
  · next roce hkind =>
    obtain ⟨_, -, h⟩ := bind_ok h
    dsimp only at h
    obtain ⟨paused, -, h⟩ := bind_ok h
    split at h
    · cases pure_eq_ok.1 h
      exact (setPfc e _).writeRoce rfl hg hkind rfl
    · split at h
      · obtain ⟨priority, -, ⟨⟩⟩ := bind_pure_ok h
        exact (refl e).writeRoce rfl hg hkind rfl
      · obtain ⟨sent, hsent, h⟩ := bind_ok h
        obtain ⟨⟨parked, g', roce'⟩, hnext, h⟩ := bind_ok h
        obtain ⟨priority, -, ⟨⟩⟩ := bind_pure_ok h
        have hs := (roceSending_sent hsent).1
        obtain ⟨n, sourced, -, hentry⟩ := hs.entry
        have hflow : g'.flow = g.flow := (roceNextTick_spec hnext).1.trans hs.flow
        have hwrites : Writes free e sent.entry := by
          rw [hentry]
          exact same rfl rfl rfl rfl
        exact hwrites.writeRoce (by rw [hentry]) hg hkind hflow
  · cases h

theorem roceFeedback {header : RoceAckHeader} {nack : Bool} {dataClass : Nat}
    {reaction : RoceReaction} (h : roceFeedback c p header nack dataClass e = .ok reaction) :
    Writes free e reaction.entry := by
  obtain ⟨position, g, hposition, hg, h⟩ := generatorFor_bind h
  dsimp only at h
  split at h
  · next roce hkind =>
    obtain ⟨arrivals, h⟩ := applyGeneratorFeedback_bind h
    obtain ⟨_, -, h⟩ := bind_ok h
    obtain ⟨window, hwindow, ⟨⟩⟩ := bind_pure_ok h
    have hflow : window.generator.flow = g.flow := by
      rw [(roceAcknowledge_spec hwindow).1]
    exact ((refl e).writeRoce rfl hg hkind hflow).trans (setPfc _ _)
  · cases h

theorem roceTimeout {dataClass : Nat} {reaction : RoceReaction}
    (h : roceTimeout c flow dataClass e = .ok (some reaction)) : Writes free e reaction.entry := by
  obtain ⟨position, g, hposition, hg, h⟩ := generatorFor_bind h
  dsimp only at h
  split at h
  · next roce hkind =>
    split at h
    · obtain ⟨deadline, -, h⟩ := bind_ok h
      obtain ⟨⟨tick, g', roce'⟩, hrestart, ⟨⟩⟩ := bind_pure_ok h
      have hflow := (restartRocePacer_spec hrestart).1
      exact ((refl e).writeRoce rfl hg hkind hflow).trans (setPfc _ _)
    · cases pure_eq_ok.1 h
  · cases h

theorem roceDelivery {header : RoceDataHeader} {delivery : RoceDelivery}
    (h : roceDelivery c p header e = .ok delivery) :
    Writes free e delivery.entry ∧
      ∀ reply, delivery.reply = some reply → ∀ data, reply.kind ≠ .tcpData data := by
  obtain ⟨receivers, -, h⟩ := bind_ok h
  obtain ⟨position, -, h⟩ := bind_ok h
  obtain ⟨receiver, -, h⟩ := bind_ok h
  obtain ⟨_, -, h⟩ := bind_ok h
  dsimp only at h
  obtain ⟨⟨e₁, causes⟩, hprogress, h⟩ := bind_ok h
  obtain ⟨count, -, h⟩ := bind_ok h
  obtain ⟨⟨reply, ready, e₂⟩, hanswer, ⟨⟩⟩ := bind_pure_ok h
  have hprogressed : Writes free e e₁ := by
    refine Writes.trans ?_ (recordInboundProgress hprogress)
    exact same rfl rfl rfl rfl
  have hcounted := hprogressed.trans (same rfl rfl rfl rfl :
    Writes free e₁ { e₁ with state := { e₁.state with receivedPackets := count } })
  unfold roceAnswer at hanswer
  split at hanswer
  · obtain ⟨⟨payload, e₃⟩, halloc, hanswer⟩ := bind_ok hanswer
    obtain ⟨e₄, hcount, ⟨⟩⟩ := bind_pure_ok hanswer
    refine ⟨((hcounted.trans (allocatePayload halloc)).trans (countSourcedPackets hcount)).trans
      (claim _), ?_⟩
    rintro reply ⟨⟩ data
    unfold roceReply
    split <;> simp
  · cases hanswer
    refine ⟨hcounted, ?_⟩
    rintro reply ⟨⟩

theorem restartParked {acc acc' : RoceRestarts} (h : restartParked c position acc = .ok acc') :
    Writes free acc.entry acc'.entry := by
  obtain ⟨g, hg, h⟩ := bind_ok h
  rw [okOr_eq_ok] at hg
  split at h
  · next roce hkind =>
    obtain ⟨⟨tick, g', roce'⟩, hrestart, h⟩ := bind_ok h
    obtain ⟨priority, -, ⟨⟩⟩ := bind_pure_ok h
    exact (refl _).writeRoce rfl hg hkind (restartRocePacer_spec hrestart).1
  · cases h

theorem restartAll {positions : List Nat} {acc acc' : RoceRestarts}
    (h : restartAll c positions acc = .ok acc') : Writes free acc.entry acc'.entry := by
  induction positions generalizing acc with
  | nil =>
    cases h
    exact .refl _
  | cons position rest ih =>
    obtain ⟨acc₁, hstep, h⟩ := bind_ok h
    exact (restartParked hstep).trans (ih h)

theorem restartPaused {priority : Nat} {restarts : RoceRestarts}
    (h : restartPaused c priority e = .ok restarts) : Writes free e restarts.entry := by
  obtain ⟨pfc, -, h⟩ := bind_ok h
  exact (setPfc e _).trans (restartAll h)

end Writes

end Days
