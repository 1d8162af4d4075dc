/-
  Days.Logic.SenderRun — the TCP senders and the ledger along a run.

  One event runs a handler on one node: its view is that node's entry and the
  ledger.  What the handler keeps of the view, the event keeps of the state.
-/
import Days.Logic.SenderHost

namespace Days

open List Prog TransitionState Std.ExtTreeMap

variable {image : SimulationImage} {mode : ObservationMode} {horizonNs : Option Nat}
  {sizes : FlowId → Nat} {c : Ctx} {s s' : TransitionState} {v : LocalView} {hosts : List HostEntry}
  {start : HostEntry}

/-! ## §1. The state an event begins with. -/

/-- Every TCP sender is in order, no flow has two hosts, and whatever is stored at a
reserved byte is the segment it is reserved for. -/
structure SendersInv (sizes : FlowId → Nat) (s : TransitionState) : Prop where
  single : s.localNode = none
  named : ∀ e ∈ s.hosts, e.Named
  compute : ∀ e ∈ s.hosts, e.ComputeOk
  ok : ∀ e ∈ s.hosts, ∀ flow g tcp, e.tcpSender flow = some (g, tcp) →
    TcpOk g tcp (s.tcpSentSegments.block flow) (sizes flow)
  apart : ∀ (i j : Nat) (e e' : HostEntry) (flow : FlowId), s.hosts[i]? = some e →
    s.hosts[j]? = some e' → flow ∈ e.flows.1 → flow ∈ e'.flows.1 → i = j
  store : ∀ (id : PayloadId) (r : ResidentPacket), s.packets[id]? = some r →
    ∀ e ∈ s.hosts, Harmless sizes e r.descriptor

/-! ## §2. The state while a handler runs. -/

/-- Whose entry the handler may change. -/
def Ctx.owns (c : Ctx) (slot : Nat) : Prop := c.node.kind = .host ∧ slot = c.node.stateSlot

/-- The state of an event on `hosts`, where the node's own entry was `start`. -/
structure Running (sizes : FlowId → Nat) (c : Ctx) (hosts : List HostEntry) (start : HostEntry)
    (s : TransitionState) (v : LocalView) : Prop where
  single : s.localNode = none
  mine : c.node.kind = .host → s.hosts = hosts.set c.node.stateSlot v.entry
  same : c.node.kind = .switch → s.hosts = hosts
  ledger : s.tcpSentSegments = v.ledger
  flows : v.entry.flows = start.flows
  held : c.node.kind = .host → ∀ (id : PayloadId) (r : ResidentPacket),
    s.packets[id]? = some r → Harmless sizes v.entry r.descriptor
  others : ∀ (id : PayloadId) (r : ResidentPacket), s.packets[id]? = some r →
    ∀ (i : Nat) (e : HostEntry), hosts[i]? = some e → ¬ c.owns i → Harmless sizes e r.descriptor

theorem Harmless.congr {e : HostEntry} {p q : PacketDescriptor} (h : Harmless sizes e p)
    (hwire : q.wire = p.wire) : Harmless sizes e q := by
  obtain ⟨hflow, hsize, hkind⟩ : q.flow = p.flow ∧ q.sizeBytes = p.sizeBytes ∧ q.kind = p.kind := by
    simpa [PacketDescriptor.wire] using hwire
  intro header g tcp
  rw [hflow, hsize, hkind]
  exact h header g tcp

namespace Running

section

variable (h : Running sizes c hosts start s v)

include h

/-- An operation that touches neither entries nor ledger and stores nothing new. -/
theorem frame (hnode : s'.localNode = s.localNode)
    (hhosts : s'.hosts = s.hosts) (hledger : s'.tcpSentSegments = s.tcpSentSegments)
    (hstore : Stores s s') : Running sizes c hosts start s' v where
  single := hnode.trans h.single
  mine := fun hc => hhosts.trans (h.mine hc)
  same := fun hc => hhosts.trans (h.same hc)
  ledger := hledger.trans h.ledger
  flows := h.flows
  held := by
    intro hc id r hr
    obtain ⟨id', r', hr', hwire⟩ := hstore id r hr
    exact (h.held hc id' r' hr').congr hwire
  others := by
    intro id r hr i e he hown
    obtain ⟨id', r', hr', hwire⟩ := hstore id r hr
    exact (h.others id' r' hr' i e he hown).congr hwire

theorem localStateSlot : s.localStateSlot c.node = .ok c.node.stateSlot := by
  unfold TransitionState.localStateSlot
  rw [h.single]

theorem hostAt (hc : c.node.kind = .host) {e : HostEntry}
    (he : s.hostAt c.node = .ok e) : e = v.entry := by
  unfold TransitionState.hostAt at he
  rw [h.localStateSlot] at he
  obtain ⟨slot, hslot, he⟩ := bind_ok he
  cases hslot
  rw [okOr_eq_ok, h.mine hc, getElem?_set_self'] at he
  obtain ⟨_, -, heq⟩ := Option.map_eq_some_iff.1 he
  exact heq.symm

/-- The entry is written back. -/
theorem setHostAt (hc : c.node.kind = .host) {e' : HostEntry} (hstep : Yields v.entry e') :
    Running sizes c hosts start (s.setHostAt c.node e') { v with entry := e' } := by
  unfold TransitionState.setHostAt
  rw [h.localStateSlot]
  refine ⟨h.single, fun _ => ?_, fun hswitch => ?_, h.ledger, hstep.flows.trans h.flows, ?_,
    h.others⟩
  · show s.hosts.set c.node.stateSlot e' = _
    rw [h.mine hc, set_set]
  · rw [hc] at hswitch
    cases hswitch
  · intro _ id r hr
    exact (h.held hc id r hr).yields hstep

theorem setSwitchAt (e' : SwitchEntry) :
    Running sizes c hosts start (s.setSwitchAt c.node e') v := by
  unfold TransitionState.setSwitchAt
  rw [h.localStateSlot]
  exact h.frame rfl rfl rfl (.of_eq rfl)

theorem setLedger (ledger : TcpSegmentLedger) :
    Running sizes c hosts start { s with tcpSentSegments := ledger } { v with ledger } :=
  ⟨h.single, h.mine, h.same, rfl, h.flows, h.held, h.others⟩

theorem insertPacket (hnamed : start.Named)
    (hapart : ∀ (i : Nat) (e : HostEntry), hosts[i]? = some e → ¬ c.owns i →
      ∀ flow ∈ e.flows.1, flow ∉ start.flows.1)
    (hall : ∀ e ∈ hosts, e.Named) {p : PacketDescriptor} {t : Option Nat}
    (hplaced : Placed v.entry p) :
    Running sizes c hosts start (s.setResident p.id ⟨p, t, 0, false⟩) v := by
  refine ⟨h.single, h.mine, h.same, h.ledger, h.flows, fun hc id r hr => ?_,
    fun id r hr i e he hown => ?_⟩
  all_goals
    unfold setResident at hr
    rw [Std.ExtTreeMap.getElem?_insert] at hr
    split at hr
  · cases hr
    exact hplaced.harmless
  · exact h.held hc id r hr
  · cases hr
    -- The flow of a new segment is one of this node's, so no other host sends it.
    intro header g tcp hkind hs
    obtain ⟨g', tcp', hs', -⟩ := hplaced header hkind
    have hmine := (hnamed.congr h.flows).mem hs'
    rw [h.flows] at hmine
    have htheirs := (hall e (mem_of_getElem? he)).mem hs
    exact absurd hmine (hapart i e he hown p.flow htheirs)
  · exact h.others id r hr i e he hown

end

end Running

/-! ## §3. Failures. -/

/-- The computation fails on no segment. -/
def SegmentSafe {α : Type} (x : Except ExecutionError α) : Prop := ∀ e, x = .error e → LedgerFree e

namespace SegmentSafe

variable {α β : Type}

theorem ok (a : α) : SegmentSafe (.ok a : Except ExecutionError α) := by
  rintro e ⟨⟩

theorem error {e : ExecutionError} (h : LedgerFree e) :
    SegmentSafe (.error e : Except ExecutionError α) := by
  rintro e' ⟨⟩
  exact h

theorem bind {x : Except ExecutionError α} {f : α → Except ExecutionError β}
    (hx : SegmentSafe x) (hf : ∀ a, x = .ok a → SegmentSafe (f a)) : SegmentSafe (x >>= f) := by
  cases x with
  | ok a => exact hf a rfl
  | error e => exact .error (hx e rfl)

theorem lift (x : Except PlainError α) : SegmentSafe (liftPlain x) := by
  cases x with
  | ok a => exact .ok a
  | error e => exact .error trivial

theorem lift_ok {x : Except PlainError α} {f : α → β} :
    SegmentSafe (liftPlain x >>= fun a => .ok (f a)) :=
  .bind (.lift x) fun _ _ => .ok _

end SegmentSafe

theorem emitChild_safe (c : Ctx) (target : NodeId) (kind : EventKind) (payload : PayloadId)
    (timeNs : Nat) (s : TransitionState) :
    SegmentSafe (emitChild c target kind payload timeNs s) := by
  have hinsert : ∀ child s, SegmentSafe (insertChild c child s) := by
    intro child s
    unfold insertChild
    split
    · exact .error trivial
    · exact .ok _
  unfold emitChild
  split
  · exact .bind (.lift _) fun _ _ => .bind (.lift _) fun _ _ => hinsert _ _
  · exact .bind (.lift _) fun _ _ => .bind (.lift _) fun _ _ => hinsert _ _

theorem finishResident_safe (c : Ctx) (id : PayloadId) (s : TransitionState) :
    SegmentSafe (finishResident c id s) := by
  refine .bind (.lift _) fun r _ => ?_
  split
  · exact .error trivial
  · split <;> exact .ok _

section

variable (h : Running sizes c hosts start s v)

include h

/-- Within the specification no operation fails on a segment. -/
theorem Op.exec_safe {o : Op} (hpre : localPre c o v) : SegmentSafe (Op.exec c o s) := by
  cases o with
  | seedTcpSegment p =>
    obtain ⟨ledger, hseed⟩ := hpre
    rw [← h.ledger] at hseed
    refine .bind ?_ fun _ _ => .ok _
    rw [hseed]
    exact .ok _
  | acknowledgeTcpSegments flow acknowledgment =>
    obtain ⟨ledger, hcut⟩ := hpre
    rw [← h.ledger] at hcut
    refine .bind ?_ fun _ _ => .ok _
    rw [hcut]
    exact .ok _
  | insertPacket p t =>
    simp only [Op.exec]
    split
    · exact .error trivial
    · exact .ok _
  | markTerminal id =>
    refine .bind (.lift _) fun r _ => ?_
    split <;> exact .ok _
  | finishTransmission id => exact .bind (finishResident_safe c id s) fun _ _ => .ok _
  | emit target kind payload timeNs =>
    exact .bind (emitChild_safe c target kind payload timeNs s) fun _ _ => .ok _
  | startTransmission | countDeparted => exact .bind (.lift _) fun _ _ => .lift_ok
  | getHost | getSwitch | packet | header | setSourceTime | setPacketMarked | countSourced
  | countArrival => exact .lift_ok
  | _ => exact .ok _

/-! ## §4. Answers. -/

theorem Running.emitChild {target : NodeId} {kind : EventKind} {payload : PayloadId} {timeNs : Nat}
    (hemit : emitChild c target kind payload timeNs s = .ok s') :
    Running sizes c hosts start s' { v with entry := v.entry.bump } := by
  obtain ⟨t, child, rfl, -, ⟨hc, e, he, rfl⟩ | ⟨hc, e, next, -, rfl⟩⟩ := emitChild_ok hemit
  · obtain rfl := h.hostAt hc he
    exact (h.setHostAt hc (Keeps.bump v.entry).yields).frame rfl rfl rfl (.of_eq rfl)
  · have hrun := (h.setSwitchAt { e with state := { e.state with nextOriginSeq := next } }).frame
      rfl rfl rfl (.of_eq rfl)
    have hno : c.node.kind ≠ .host := by rw [hc]; simp
    exact ⟨hrun.single, fun hhost => absurd hhost hno, hrun.same, hrun.ledger, hrun.flows,
      fun hhost => absurd hhost hno, hrun.others⟩

end

section Answers

variable (hnamed : start.Named)
  (hapart : ∀ (i : Nat) (e : HostEntry), hosts[i]? = some e → ¬ c.owns i →
    ∀ flow ∈ e.flows.1, flow ∉ start.flows.1)
  (hall : ∀ e ∈ hosts, e.Named)

include hnamed hapart hall

/-- Every operation answers as specified and keeps the relation. -/
theorem Op.exec_answers (h : Running sizes c hosts start s v) {o : Op} (hpre : localPre c o v)
    {r : Resp o} (hexec : Op.exec c o s = .ok (r, s')) :
    localResp sizes c o v r ∧ Running sizes c hosts start s' (localNext o r v) := by
  cases o with
  | getHost =>
    obtain ⟨e, he, ⟨⟩⟩ := bind_pure_ok hexec
    rw [liftPlain_eq_ok] at he
    exact ⟨h.hostAt hpre he, h⟩
  | setHost e' =>
    cases hexec
    exact ⟨trivial, h.setHostAt hpre.1 hpre.2⟩
  | setSwitch e' =>
    cases hexec
    exact ⟨trivial, h.setSwitchAt e'⟩
  | packet id =>
    obtain ⟨r, hr, ⟨⟩⟩ := bind_pure_ok hexec
    rw [liftPlain_eq_ok] at hr
    unfold resident at hr
    rw [okOr_eq_ok] at hr
    exact ⟨fun hc => h.held hc id r hr, h⟩
  | insertPacket p t =>
    simp only [Op.exec] at hexec
    split at hexec
    · cases hexec
    · cases hexec
      exact ⟨trivial, h.insertPacket hnamed hapart hall hpre.1⟩
  | tcpSegment flow sequence =>
    cases hexec
    refine ⟨?_, h⟩
    show _ = v.ledger.segment flow sequence
    rw [h.ledger]
  | seedTcpSegment p =>
    obtain ⟨ledger, hseed, ⟨⟩⟩ := bind_pure_ok hexec
    rw [liftConflict_eq_ok, h.ledger] at hseed
    refine ⟨trivial, ?_⟩
    show Running _ _ _ _ _ (v.settle (v.ledger.seed p))
    rw [hseed]
    exact h.setLedger ledger
  | acknowledgeTcpSegments flow acknowledgment =>
    obtain ⟨ledger, hcut, ⟨⟩⟩ := bind_pure_ok hexec
    rw [liftConflict_eq_ok, h.ledger] at hcut
    refine ⟨trivial, ?_⟩
    show Running _ _ _ _ _ (v.settle (v.ledger.acknowledge flow acknowledgment))
    rw [hcut]
    exact h.setLedger ledger
  | emit target kind payload timeNs =>
    obtain ⟨t, ht, ⟨⟩⟩ := bind_pure_ok hexec
    exact ⟨trivial, h.emitChild ht⟩
  | _ =>
    obtain ⟨hsame, -, hquiet⟩ := Op.exec_entries hexec trivial
    obtain ⟨hledger, hstore⟩ := hquiet trivial
    exact ⟨trivial, h.frame hsame.localNode hsame.hosts hledger hstore⟩

theorem Op.exec_respects :
    Lib.Program.Respects (localSpec sizes c) LedgerFree (Op.exec c)
      (Running sizes c hosts start) := by
  intro o s v h hpre
  cases hexec : Op.exec c o s with
  | ok answer => exact Op.exec_answers hnamed hapart hall h hpre hexec
  | error e => exact Op.exec_safe h hpre e hexec

end Answers

/-! ## §5. One event. -/

/-- A host without flows, in the place of one that is not there. -/
def idleHost : HostEntry := ⟨emptyHost, ⟨[], [], none⟩⟩

/-- The entry an event works on. -/
def Ctx.entry (c : Ctx) (s : TransitionState) : HostEntry :=
  match c.node.kind with
  | .host => (s.hosts[c.node.stateSlot]?).getD idleHost
  | .switch => idleHost

/-- The entry is that of the node's slot, or the idle one. -/
theorem Ctx.entry_cases (c : Ctx) (s : TransitionState) :
    c.node.kind = .host ∧ s.hosts[c.node.stateSlot]? = some (c.entry s) ∨
      c.entry s = idleHost ∧ (c.node.kind = .host → s.hosts[c.node.stateSlot]? = none) := by
  unfold entry
  cases hc : c.node.kind with
  | host =>
    cases he : s.hosts[c.node.stateSlot]? with
    | some e => exact .inl ⟨rfl, rfl⟩
    | none => exact .inr ⟨rfl, fun _ => rfl⟩
  | switch =>
    refine .inr ⟨rfl, ?_⟩
    intro hhost
    cases hhost

namespace SendersInv

theorem entry_apart (h : SendersInv sizes s) (c : Ctx) (i : Nat) (e : HostEntry)
    (he : s.hosts[i]? = some e) (hown : ¬ c.owns i) :
    ∀ flow ∈ e.flows.1, flow ∉ (c.entry s).flows.1 := by
  intro flow hmem hmine
  rcases c.entry_cases s with ⟨hc, hentry⟩ | ⟨hentry, -⟩
  · exact hown ⟨hc, h.apart i _ e _ flow he hentry hmem hmine⟩
  · rw [hentry] at hmine
    cases hmine

theorem entry_ok (h : SendersInv sizes s) (c : Ctx) :
    SendersOk sizes (c.entry s).flows s.tcpSentSegments ⟨c.entry s, s.tcpSentSegments⟩ := by
  rcases c.entry_cases s with ⟨-, hentry⟩ | ⟨hentry, -⟩
  · have hmem := mem_of_getElem? hentry
    exact ⟨rfl, h.named _ hmem, h.compute _ hmem, h.ok _ hmem, fun _ _ => rfl⟩
  · rw [hentry]
    refine ⟨rfl, ?_, ?_, ?_, fun _ _ => rfl⟩
    · intro flow position
      simp [idleHost, emptyHost, HostEntry.flows, HostStageIndex.firstGenerator, HostStageIndex.generatorsOf]
    · intro position stage g hstage
      cases hstage
    · intro flow g tcp hs
      cases hs

theorem entry_running (h : SendersInv sizes s) (c : Ctx) :
    Running sizes c s.hosts (c.entry s) s ⟨c.entry s, s.tcpSentSegments⟩ where
  single := h.single
  mine := by
    intro hc
    rcases c.entry_cases s with ⟨-, hentry⟩ | ⟨-, hnone⟩
    · obtain ⟨hlt, hget⟩ := List.getElem?_eq_some_iff.1 hentry
      rw [← hget, set_getElem_self]
    · rw [set_eq_of_length_le (List.getElem?_eq_none_iff.1 (hnone hc))]
  same := fun _ => rfl
  ledger := rfl
  flows := rfl
  held := by
    intro _ id r hr
    rcases c.entry_cases s with ⟨-, hentry⟩ | ⟨hentry, -⟩
    · exact h.store id r hr _ (mem_of_getElem? hentry)
    · rw [hentry]
      intro header g tcp _ hs
      cases hs
  others := fun id r hr i e he _ => h.store id r hr e (mem_of_getElem? he)

end SendersInv

/-- Each host after the event is one from before, or the one the event worked on. -/
theorem Running.getElem? (hrun : Running sizes c hosts start s v) {i : Nat} {e : HostEntry}
    (he : s.hosts[i]? = some e) : hosts[i]? = some e ∧ ¬ c.owns i ∨ c.owns i ∧ e = v.entry := by
  cases hc : c.node.kind with
  | host =>
    rw [hrun.mine hc, getElem?_set] at he
    split at he
    · next heq =>
      split at he
      · cases he
        exact .inr ⟨⟨hc, heq.symm⟩, rfl⟩
      · cases he
    · next hne => exact .inl ⟨he, fun hown => hne hown.2.symm⟩
  | switch =>
    rw [hrun.same hc] at he
    refine .inl ⟨he, fun hown => ?_⟩
    have hhost := hown.1
    rw [hc] at hhost
    cases hhost

/-- What the handler kept of its view, the event kept of the state. -/
theorem SendersInv.of_running (h : SendersInv sizes s)
    (hview : SendersOk sizes (c.entry s).flows s.tcpSentSegments v)
    (hrun : Running sizes c s.hosts (c.entry s) s' v) : SendersInv sizes s' := by
  have hcases : ∀ e ∈ s'.hosts,
      (∃ i : Nat, s.hosts[i]? = some e ∧ ¬ c.owns i) ∨ c.node.kind = .host ∧ e = v.entry := by
    intro e he
    obtain ⟨i, hi⟩ := mem_iff_getElem?.1 he
    rcases hrun.getElem? hi with ⟨hold, hown⟩ | ⟨hown, heq⟩
    · exact .inl ⟨i, hold, hown⟩
    · exact .inr ⟨hown.1, heq⟩
  refine ⟨hrun.single, ?_, ?_, ?_, ?_, ?_⟩
  · intro e he
    rcases hcases e he with ⟨i, hold, -⟩ | ⟨-, rfl⟩
    · exact h.named e (mem_of_getElem? hold)
    · exact hview.named
  · intro e he
    rcases hcases e he with ⟨i, hold, -⟩ | ⟨-, rfl⟩
    · exact h.compute e (mem_of_getElem? hold)
    · exact hview.compute
  · intro e he flow g tcp hs
    rw [hrun.ledger]
    rcases hcases e he with ⟨i, hold, hown⟩ | ⟨-, rfl⟩
    · have hmem := mem_of_getElem? hold
      have hflow := (h.named e hmem).mem hs
      rw [hview.frame flow (h.entry_apart c i e hold hown flow hflow)]
      exact h.ok e hmem flow g tcp hs
    · exact hview.ok flow g tcp hs
  · intro i j e e' flow hi hj hflow hflow'
    rcases hrun.getElem? hi with ⟨hold, hown⟩ | ⟨hown, rfl⟩
    · rcases hrun.getElem? hj with ⟨hold', hown'⟩ | ⟨hown', rfl⟩
      · exact h.apart i j e e' flow hold hold' hflow hflow'
      · rw [hview.flows] at hflow'
        exact absurd hflow' (h.entry_apart c i e hold hown flow hflow)
    · rcases hrun.getElem? hj with ⟨hold', hown'⟩ | ⟨hown', rfl⟩
      · rw [hview.flows] at hflow
        exact absurd hflow (h.entry_apart c j e' hold' hown' flow hflow')
      · exact hown.2.trans hown'.2.symm
  · intro id r hr e he
    rcases hcases e he with ⟨i, hold, hown⟩ | ⟨hc, rfl⟩
    · exact hrun.others id r hr i e hold hown
    · exact hrun.held hc id r hr

/-- One event keeps the senders in order and fails on no segment. -/
theorem SendersInv.dispatch (h : SendersInv sizes s) (image : SimulationImage)
    (mode : ObservationMode) (event : Event) :
    SegmentSafe (dispatch image mode event s) ∧
      ∀ s', Days.dispatch image mode event s = .ok s' → SendersInv sizes s' := by
  unfold Days.dispatch
  cases hresolve : resolveEvent image mode event with
  | error e => exact ⟨.error trivial, by rintro s' ⟨⟩⟩
  | ok resolved =>
    obtain ⟨c, handler⟩ := resolved
    have hhandler : resolveTransition c.node.kind event.kind = some handler := by
      obtain ⟨node, -, hresolve⟩ := bind_ok hresolve
      obtain ⟨found, hfound, ⟨⟩⟩ := bind_pure_ok hresolve
      rw [okOr_eq_ok] at hfound
      exact hfound
    have hview := h.entry_ok c
    have hall := Lib.Program.run_of_wp
      (Op.exec_respects hview.named (h.entry_apart c) h.named)
      (handlerProg_local hhandler _ hview) (h.entry_running c)
    show SegmentSafe ((handlerProg c handler).run c s >>= fun answer => pure answer.2) ∧
      ∀ s', ((handlerProg c handler).run c s >>= fun answer => pure answer.2) = .ok s' → _
    unfold run
    cases hrun : Lib.Program.run (Op.exec c) (handlerProg c handler) s with
    | error e =>
      rw [hrun] at hall
      exact ⟨.error hall, by rintro s' ⟨⟩⟩
    | ok answer =>
      rw [hrun] at hall
      obtain ⟨v', hview', hrunning⟩ := hall
      refine ⟨.ok _, ?_⟩
      rintro s' ⟨⟩
      exact h.of_running hview' hrunning

/-! ## §6. Runs. -/

theorem SendersInv.settle (h : SendersInv sizes s) :
    SendersInv sizes { s with supersededTimers := [], children := [] } :=
  ⟨h.single, h.named, h.compute, h.ok, h.apart, h.store⟩

theorem removeSupersededTimers_safe (timers : List SupersededTimer) (events : List Event) :
    SegmentSafe (removeSupersededTimers events timers) := by
  induction timers generalizing events with
  | nil => exact .ok _
  | cons timer rest ih =>
    refine .bind ?_ fun events _ => ih events
    unfold removeSupersededTimer
    split
    · exact .ok _
    · exact .error trivial

namespace FutureEvents

theorem insert_safe (f : FutureEvents) (event : Event) : SegmentSafe (f.insert event) := by
  unfold insert
  split
  · split
    · exact .error trivial
    · exact .ok _
  · exact .ok _

theorem insertAll_safe (events : List Event) (f : FutureEvents) :
    SegmentSafe (f.insertAll events) := by
  induction events generalizing f with
  | nil => exact .ok _
  | cons event rest ih => exact .bind (insert_safe f event) fun f _ => ih f

theorem pop_safe (f : FutureEvents) : SegmentSafe f.pop := by
  unfold pop
  split
  · exact .ok _
  · split
    · exact .error trivial
    · exact .ok _

theorem intoSortedVec_safe (f : FutureEvents) : SegmentSafe f.intoSortedVec := by
  unfold intoSortedVec
  dsimp only
  split
  · exact .error trivial
  · exact .ok _

end FutureEvents

theorem initialEventQueue_safe (events : List Event) (keys : List EventKey) (f : FutureEvents) :
    SegmentSafe (initialEventQueue keys f events) := by
  induction events generalizing keys f with
  | nil => exact .ok _
  | cons event rest ih =>
    unfold initialEventQueue
    split
    · exact .error trivial
    · exact .bind (f.insert_safe event) fun f _ => ih _ f

theorem settleDispatch_safe (s : TransitionState) (events : FutureEvents) :
    SegmentSafe (settleDispatch s events) := by
  refine .bind (.bind (removeSupersededTimers_safe _ _) fun _ _ => .ok _) fun events _ => ?_
  exact .bind (FutureEvents.insertAll_safe _ events) fun _ _ => .ok _

/-- One turn of the loop. -/
theorem SendersInv.scalarStep {run : ScalarRun} (h : SendersInv sizes run.state) :
    SegmentSafe (scalarStep image mode horizonNs run) ∧
      ∀ run', Days.scalarStep image mode horizonNs run = .ok (some run') →
        SendersInv sizes run'.state := by
  unfold Days.scalarStep
  split
  · exact ⟨.ok _, by rintro run' ⟨⟩⟩
  · split
    · constructor
      · refine .bind run.events.pop_safe fun popped _ => ?_
        cases popped with
        | none => exact .ok _
        | some taken =>
          obtain ⟨event, events⟩ := taken
          refine .bind (h.dispatch image mode event).1 fun s _ => ?_
          exact .bind (settleDispatch_safe s events) fun _ _ => .ok _
      · intro run' hstep
        obtain ⟨popped, -, hstep⟩ := bind_ok hstep
        split at hstep
        · cases hstep
        · next event events =>
          obtain ⟨s, hdispatch, hstep⟩ := bind_ok hstep
          obtain ⟨settled, hsettle, ⟨⟩⟩ := bind_pure_ok hstep
          obtain ⟨events₁, -, hsettle⟩ := bind_ok hsettle
          obtain ⟨events₂, -, ⟨⟩⟩ := bind_pure_ok hsettle
          exact ((h.dispatch image mode event).2 s hdispatch).settle
    · exact ⟨.ok _, by rintro run' ⟨⟩⟩

/-- One run state follows another. -/
def ScalarNext (image : SimulationImage) (mode : ObservationMode) (horizonNs : Option Nat)
    (run run' : ScalarRun) : Prop :=
  scalarStep image mode horizonNs run = .ok (some run')

theorem SendersInv.run {first run : ScalarRun} (h : SendersInv sizes first.state)
    (hrun : Relation.ReflTransGen (ScalarNext image mode horizonNs) first run) :
    SendersInv sizes run.state := by
  induction hrun with
  | refl => exact h
  | tail _ hstep ih => exact ih.scalarStep.2 _ hstep

/-- The loop fails on no segment. -/
theorem SendersInv.scalarLoop {fuel : Nat} {run : ScalarRun} (h : SendersInv sizes run.state)
    {ended : Except ExecutionError ScalarRun}
    (hloop : scalarLoop image mode horizonNs fuel run = some ended) : SegmentSafe ended := by
  induction fuel generalizing run with
  | zero => cases hloop
  | succ fuel ih =>
    unfold Days.scalarLoop at hloop
    split at hloop
    · next e he =>
      cases hloop
      exact .error (h.scalarStep.1 e he)
    · cases hloop
      exact .ok _
    · next next hnext => exact ih (h.scalarStep.2 next hnext) hloop

end Days
