/-
  Days.Logic.StageRun — the stage index along every run.

  A handler that reads a host entry with a maintained index writes back one with
  a maintained index, at every write.  The index is therefore the one of the
  tables in every state a run goes through, between events and inside them.
-/
import Days.Logic.HostPrograms
import Days.Logic.StageIndex

namespace Days

open Prog TransitionState List

variable {e : HostEntry}

/-! ## §1. Programs that keep the index. -/

/-- Whatever a handler writes, the index stays the one of the tables. -/
theorem Writes.maintained {free : Prop} {joins : List FlowId} {e' : HostEntry}
    (h : Writes free e e') (he : Maintained joins e) : Maintained joins e' := by
  induction h with
  | same hg hs hr hi => exact he.of_flows (by rw [hg]) hs hr hi
  | generator hg hflow => exact he.of_flows (map_set_eq hg hflow) rfl rfl rfl
  | stage hg hs _ hlocal hinbound => exact he.setStage hg hs hlocal hinbound
  | trans _ _ ih ih' => exact ih' (ih he)

/-- Host entries are read and written with a maintained index. -/
def trackSpec (joins : List FlowId) : Lib.OpSpec Op Resp Unit where
  pre
    | .setHost e, _ => Maintained joins e
    | _, _ => True
  resp
    | .getHost, _, e => Maintained joins e
    | _, _, _ => True
  next _ _ v := v

/-- Every entry the program writes has a maintained index, if those it reads have. -/
def Tracks (joins : List FlowId) {α : Type} (prog : Prog α) : Prop :=
  prog.wp (trackSpec joins) (fun _ => True) (fun _ _ => True) ()

/-- Operations that write no host entry. -/
def Op.SparesHost : Op → Prop
  | .setHost _ => False
  | _ => True

namespace Tracks

variable {joins : List FlowId} {c : Ctx} {α β : Type}

theorem pure (a : α) : Tracks joins (Pure.pure a : Prog α) := trivial

theorem fail (error : ExecutionError) : Tracks joins (fail error : Prog α) := trivial

theorem bind {x : Prog α} {f : α → Prog β} (hx : Tracks joins x) (hf : ∀ a, Tracks joins (f a)) :
    Tracks joins (x >>= f) :=
  Lib.Program.wp_bind (Lib.Program.wp_mono hx fun a _ _ => hf a)

/-- A pure computation whose result the rest depends on. -/
theorem lift_bind {x : Except PlainError α} {f : α → Prog β}
    (hf : ∀ a, x = .ok a → Tracks joins (f a)) : Tracks joins ((liftM x : Prog α) >>= f) := by
  cases x with
  | ok a => exact hf a rfl
  | error e => trivial

theorem lift (x : Except PlainError α) : Tracks joins (liftM x : Prog α) := by
  cases x with
  | ok a => trivial
  | error e => trivial

theorem op {o : Op} (h : o.SparesHost) : Tracks joins (op o) := by
  cases o with
  | setHost _ => exact h.elim
  | _ => exact ⟨trivial, fun _ _ => trivial⟩

theorem check {p : Prop} [Decidable p] {error : ExecutionError} : Tracks joins (check p error) := by
  unfold Prog.check
  split <;> trivial

theorem getHost_bind {f : HostEntry → Prog β} (hf : ∀ e, Maintained joins e → Tracks joins (f e)) :
    Tracks joins (getHost >>= f) :=
  ⟨trivial, fun e he => hf e he⟩

theorem setHost {e' : HostEntry} (h : Maintained joins e) (hwrites : Writes True e e') :
    Tracks joins (setHost e') :=
  ⟨hwrites.maintained h, fun _ _ => trivial⟩

theorem closed : ClosedClass (@Tracks joins) where
  pure := .pure
  bind := .bind
  lift := .lift
  op {o} h := .op (by cases o <;> trivial)
  insertPacket _ := .op trivial
  check _ := .check

theorem host : HostClass (@Tracks joins) (Maintained joins) where
  toClosedClass := closed
  fail _ := .fail _
  lift_bind := .lift_bind
  getHost_bind := .getHost_bind
  write he hwrites := ⟨hwrites.maintained he, fun _ _ => trivial⟩

theorem when {b : Bool} {prog : Prog Unit} (h : b = true → Tracks joins prog) :
    Tracks joins (when b prog) := closed.when h

theorem each {o : Option β} {f : β → Prog Unit} (h : ∀ b, o = some b → Tracks joins (f b)) :
    Tracks joins (each o f) := closed.each h

/-! ## §2. TCP attempts and the activation of stages. -/

theorem sourcePacket (p : PacketDescriptor) : Tracks joins (sourcePacket c p) :=
  .bind (.op trivial) fun _ => .bind (host.enqueueSourcePacket _) fun _ => closed.recordSourced p

theorem prepareTcpAttempts (flow : FlowId) (sequence : Option Nat) (fill preserve : Bool) :
    Tracks joins (prepareTcpAttempts c flow sequence fill preserve) := by
  have hsegment : Tracks joins (retransmitSegment flow sequence) := by
    unfold retransmitSegment
    split
    · exact .pure _
    · refine .bind (.op trivial) fun segment => ?_
      split
      · exact .pure _
      · exact .fail _
  have hseed : ∀ packets, Tracks joins (seedTcpSegments packets) := by
    intro packets
    induction packets with
    | nil => exact .pure _
    | cons p rest ih => exact .bind (.op trivial) fun _ => ih
  refine .bind hsegment fun retransmit => .getHost_bind fun e he => ?_
  refine .lift_bind fun ⟨plan, e'⟩ hplan => ?_
  refine .bind (.setHost he (Writes.tcpAttempts hplan).writes) fun _ => ?_
  exact .bind (hseed _) fun _ => .pure _

theorem installTcpAttempts (plan : TcpSendPlan) : Tracks joins (installTcpAttempts c plan) := by
  have hsource : ∀ packets, Tracks joins (sourcePackets c packets) := by
    intro packets
    induction packets with
    | nil => exact .pure _
    | cons p rest ih => exact .bind (sourcePacket p) fun _ => ih
  refine .bind (hsource _) fun _ => .bind host.claimQueued fun ready => ?_
  exact .bind (.each fun _ _ => .op trivial) fun _ => .each fun _ _ => .op trivial

theorem startComputeStage (flow : FlowId) (durationNs tokenSizeBytes : Nat) (tokenKind : PacketKind)
    (cause : PendingCollectiveProgress) (ordinal : Nat) :
    Tracks joins (startComputeStage c flow durationNs tokenSizeBytes tokenKind cause ordinal) := by
  refine .bind (.lift _) fun deadline => .getHost_bind fun e he => ?_
  refine .lift_bind fun ⟨token, e'⟩ htoken => ?_
  refine .bind (.setHost he (Writes.scheduleStageToken htoken (Or.inl trivial))) fun _ => ?_
  refine .bind (host.pushStageProgress _ _ _ _) fun _ => .each fun payload _ => ?_
  exact .bind (.op trivial) fun _ => .op trivial

theorem activateWrappedStage (flow : FlowId) (cause : PendingCollectiveProgress) (ordinal : Nat) :
    Tracks joins (activateWrappedStage c flow cause ordinal) := by
  refine .getHost_bind fun e he => .bind (.lift _) fun found => ?_
  split
  split
  · split
    · exact startComputeStage _ _ _ _ _ _
    · exact startComputeStage _ _ _ _ _ _
  · exact host.startRoceStage _ _ _
  · refine .bind (prepareTcpAttempts _ _ _ _) fun plan => ?_
    exact .bind (host.pushStageProgress _ _ _ _) fun _ => installTcpAttempts plan
  · exact .fail _

theorem activateLoop (fuel ordinal : Nat) (causes : PendingCauses) :
    Tracks joins (activateLoop c fuel ordinal causes) := by
  induction fuel generalizing ordinal causes with
  | zero => exact .pure _
  | succ fuel ih =>
    refine .getHost_bind fun e he => ?_
    split
    · exact .pure _
    · refine .lift_bind fun g hg => .lift_bind fun stage hstage => ?_
      rw [okOr_eq_ok] at hg hstage
      refine .bind (.setHost he (.stage hg hstage rfl rfl rfl)) fun _ => ?_
      refine .bind (.lift _) fun taken => .bind (activateWrappedStage _ _ _) fun _ => ?_
      exact .bind (.lift _) fun _ => ih _ _

theorem activateReadyCollectives (causes : PendingCauses) :
    Tracks joins (activateReadyCollectives c causes) := by
  have hrest : ∀ (causes : PendingCauses) (ordinal : Nat),
      Tracks joins (pushRemaining c ordinal causes) := by
    intro causes
    induction causes with
    | nil => exact fun _ => .pure _
    | cons cause rest ih =>
      exact fun _ => .bind (host.pushStageProgress _ _ _ _) fun _ => .bind (.lift _) fun _ => ih _
  unfold Days.activateReadyCollectives
  split
  · exact .pure _
  · exact .getHost_bind fun e _ => .bind (activateLoop _ _ _) fun _ => hrest _ _

/-! ## §3. Sources. -/

theorem hostTcpInitialSend (p : PacketDescriptor) (header : TcpDataHeader) :
    Tracks joins (hostTcpInitialSend c p header) := by
  refine .bind (.op trivial) fun _ => .getHost_bind fun e he => .lift_bind fun e' hsend => ?_
  refine .bind (.setHost he (Writes.tcpInitialSend hsend).writes) fun _ => .bind (.op trivial) fun _ => ?_
  refine .bind (host.enqueueSourcePacket _) fun _ => .bind (closed.recordSourced p) fun _ => ?_
  exact .bind (prepareTcpAttempts _ _ _ _) fun plan => installTcpAttempts plan

theorem hostPacketArrival : Tracks joins (hostPacketArrival c) := by
  refine .bind (.op trivial) fun p => .getHost_bind fun e _ => ?_
  split
  · exact host.hostPreloadedPacketArrival
  · split
    · exact hostTcpInitialSend _ _
    · exact host.hostConstantEmission _

theorem hostComputeTimer (flow : FlowId) : Tracks joins (hostComputeTimer c flow) := by
  refine .getHost_bind fun e he => .lift_bind fun ⟨e', causes⟩ htimer => ?_
  refine .bind (.setHost he (Writes.computeTimer htimer (Or.inl trivial))) fun _ => ?_
  exact .bind (.op trivial) fun _ => activateReadyCollectives _

theorem hostNotifyTimer (flow : FlowId) : Tracks joins (hostNotifyTimer c flow) := by
  refine .getHost_bind fun e he => .lift_bind fun ⟨laneNs, e', causes⟩ htimer => ?_
  refine .bind (.setHost he (Writes.notifyTimer htimer)) fun _ => ?_
  refine .bind (.lift _) fun descriptor => .bind (.lift _) fun arrivalNs => ?_
  exact .bind (.op trivial) fun _ => activateReadyCollectives _

theorem hostPacingTimer : Tracks joins (hostPacingTimer c) := by
  refine .bind (.op trivial) fun p => ?_
  split
  · exact host.hostRocePacingTimer p
  · exact hostNotifyTimer p.flow
  · refine .getHost_bind fun e _ => ?_
    split
    · exact hostComputeTimer p.flow
    · split
      · exact host.hostDcqcnPacingTimer p
      · exact host.hostRatePacingTimer p

/-! ## §4. Arrivals and timeouts. -/

theorem hostRetransmissionTimeout : Tracks joins (hostRetransmissionTimeout c) := by
  refine .getHost_bind fun e he => ?_
  split
  · next hexpired =>
    refine .bind (.setHost he (Writes.expireTimer hexpired).writes) fun _ => ?_
    refine .bind (.when fun _ => .op trivial) fun _ => ?_
    exact .bind (prepareTcpAttempts _ _ _ _) fun plan => installTcpAttempts plan
  · exact .bind (.op trivial) fun _ => .when fun _ => host.hostRoceTimeout

theorem hostTcpDataArrival (p : PacketDescriptor) (header : TcpDataHeader) :
    Tracks joins (hostTcpDataArrival c p header) := by
  refine .bind (.lift _) fun flow => .bind (.lift _) fun _ => .getHost_bind fun e he => ?_
  refine .lift_bind fun ⟨ack, e', causes⟩ harrival => ?_
  refine .bind (.setHost he (Writes.tcpDataArrival harrival).1) fun _ => ?_
  refine .bind (closed.recordArrival p _) fun _ => .bind (.op trivial) fun _ => ?_
  refine .bind (sourcePacket _) fun _ => .bind host.claimReady fun _ => ?_
  exact .bind (closed.emitReady _ _) fun _ => activateReadyCollectives _

theorem hostTcpAckArrival (p : PacketDescriptor) (header : TcpAckHeader) :
    Tracks joins (hostTcpAckArrival c p header) := by
  refine .bind (.lift _) fun flow => .bind (.lift _) fun _ => ?_
  refine .bind (closed.recordArrival p _) fun _ => .bind (.op trivial) fun _ => ?_
  refine .getHost_bind fun e he => .lift_bind fun ⟨plan, e'⟩ harrival => ?_
  refine .bind (.setHost he (Writes.tcpAckArrival harrival).writes) fun _ => ?_
  refine .bind (.each fun _ _ => .op trivial) fun _ => ?_
  refine .bind (.each fun _ _ => .op trivial) fun _ => ?_
  refine .bind (.when fun _ => .each fun _ _ => .op trivial) fun _ => ?_
  refine .bind (.when fun _ => ?_) fun _ => activateReadyCollectives _
  exact .bind (prepareTcpAttempts _ _ _ _) fun attempts => installTcpAttempts attempts

theorem hostNotifyArrival (p : PacketDescriptor) : Tracks joins (hostNotifyArrival c p) := by
  refine .getHost_bind fun e he => .lift_bind fun ⟨e', causes⟩ hprogress => ?_
  refine .bind (.setHost he (Writes.recordInboundProgress hprogress)) fun _ => ?_
  exact .bind (.op trivial) fun _ => activateReadyCollectives _

theorem hostRoceFeedbackArrival (p : PacketDescriptor) (header : RoceAckHeader) (nack : Bool) :
    Tracks joins (hostRoceFeedbackArrival c p header nack) := by
  refine .bind (.lift _) fun flow => .bind (.lift _) fun _ => ?_
  refine .bind (closed.recordArrival p _) fun _ => .bind (.op trivial) fun _ => ?_
  refine .getHost_bind fun e he => .lift_bind fun reaction hreaction => ?_
  refine .bind (.setHost he (Writes.roceFeedback hreaction)) fun _ => ?_
  refine .bind (.each fun _ _ => .op trivial) fun _ => ?_
  refine .bind (.when fun _ => .bind (closed.pushMechanism? _) fun _ => .op trivial) fun _ => ?_
  refine .bind (closed.emitRoceTimers _ _ _) fun _ => .each fun acknowledgment _ => ?_
  refine .bind (.lift _) fun delay => .getHost_bind fun e₁ he₁ => ?_
  refine .bind (.setHost he₁ (Writes.completeLocalSuccessors e₁ _ _ _)) fun _ => ?_
  exact activateReadyCollectives _

theorem hostRoceDataArrival (p : PacketDescriptor) (header : RoceDataHeader) :
    Tracks joins (hostRoceDataArrival c p header) := by
  refine .bind (.lift _) fun flow => .bind (.lift _) fun _ => .getHost_bind fun e he => ?_
  refine .lift_bind fun delivery hdelivery => ?_
  refine .bind (.setHost he (Writes.roceDelivery hdelivery).1) fun _ => ?_
  refine .bind (closed.recordArrival p _) fun _ => .bind (.op trivial) fun _ => ?_
  refine .bind (.when fun _ => .op trivial) fun _ => ?_
  refine .bind (.each fun reply _ => ?_) fun _ => activateReadyCollectives _
  exact .bind (.lift _) fun _ => .bind (sourcePacket _) fun _ => closed.emitReady _ _

theorem hostRemoteArrival : Tracks joins (hostRemoteArrival c) := by
  refine .bind (.op trivial) fun p => .bind (.lift _) fun flow => ?_
  split
  · exact hostTcpDataArrival _ _
  · exact hostTcpAckArrival _ _
  · exact host.hostDcqcnCnpArrival _
  · exact hostRoceDataArrival _ _
  · exact hostRoceFeedbackArrival _ _ _
  · exact hostRoceFeedbackArrival _ _ _
  · exact host.hostPfcRemoteArrival _
  · exact hostNotifyArrival _
  · refine .getHost_bind fun e _ => ?_
    split
    · exact host.hostDcqcnDataArrival _
    · exact host.hostPlainArrival _ _
  · exact host.hostPlainArrival _ _
  · exact host.hostPlainArrival _ _

/-- Every handler keeps the index of its host. -/
theorem handlerProg (handler : TransitionHandler) : Tracks joins (handlerProg c handler) := by
  cases handler with
  | hostPacketArrival => exact Tracks.hostPacketArrival
  | hostTxReady => exact host.hostTxReady
  | hostTxComplete => exact host.hostTxComplete
  | hostRemoteArrival => exact Tracks.hostRemoteArrival
  | switchTxReady => exact closed.switchTxReady fun _ => .op trivial
  | switchTxComplete => exact closed.switchTxComplete fun _ => .op trivial
  | switchRemoteArrival => exact closed.switchRemoteArrival fun _ => .op trivial
  | hostRetransmissionTimeout => exact Tracks.hostRetransmissionTimeout
  | hostPacingTimer => exact Tracks.hostPacingTimer

end Tracks

/-! ## §5. States. -/

/-- Every host of the state has a maintained index. -/
def IndexesMaintained (joins : List FlowId) (s : TransitionState) : Prop :=
  ∀ e ∈ s.hosts, Maintained joins e

namespace IndexesMaintained

variable {joins : List FlowId} {c : Ctx} {s s' : TransitionState}

section

variable (h : IndexesMaintained joins s)

include h

theorem of_hosts (hhosts : s'.hosts = s.hosts) : IndexesMaintained joins s' := by
  intro e he
  rw [hhosts] at he
  exact h e he

theorem hostAt (he : s.hostAt c.node = .ok e) : Maintained joins e := by
  obtain ⟨slot, -, he⟩ := bind_ok he
  rw [okOr_eq_ok] at he
  exact h e (mem_of_getElem? he)

theorem setHostAt (he : Maintained joins e) : IndexesMaintained joins (s.setHostAt c.node e) := by
  unfold TransitionState.setHostAt
  split
  · intro e' he'
    rcases mem_or_eq_of_mem_set he' with hold | rfl
    · exact h e' hold
    · exact he
  · exact h

theorem setSwitchAt (e : SwitchEntry) : IndexesMaintained joins (s.setSwitchAt c.node e) := by
  unfold TransitionState.setSwitchAt
  split
  · exact h.of_hosts rfl
  · exact h

/-- Emitting only advances the sequence of the origin. -/
theorem emitChild {target : NodeId} {kind : EventKind} {payload : PayloadId} {timeNs : Nat}
    (hemit : emitChild c target kind payload timeNs s = .ok s') : IndexesMaintained joins s' := by
  obtain ⟨t, child, rfl, -, ⟨-, e, he, rfl⟩ | ⟨-, e, next, -, rfl⟩⟩ := emitChild_ok hemit
  · refine (h.setHostAt ?_).of_hosts rfl
    exact (h.hostAt he).of_flows rfl rfl rfl rfl
  · exact (h.setSwitchAt _).of_hosts rfl

end

end IndexesMaintained

/-- Operations within the specification keep every index. -/
theorem Op.exec_tracks {joins : List FlowId} {c : Ctx} :
    Lib.Program.Respects (trackSpec joins) (fun _ => True) (Op.exec c)
      (fun s _ => IndexesMaintained joins s) := by
  intro o s v h hpre
  cases hexec : Op.exec c o s with
  | error e => trivial
  | ok answer =>
    obtain ⟨r, s'⟩ := answer
    cases o with
    | getHost =>
      obtain ⟨e, he, ⟨⟩⟩ := bind_pure_ok hexec
      rw [liftPlain_eq_ok] at he
      exact ⟨h.hostAt he, h⟩
    | setHost e =>
      cases hexec
      exact ⟨trivial, h.setHostAt hpre⟩
    | setSwitch e =>
      cases hexec
      exact ⟨trivial, h.setSwitchAt e⟩
    | emit target kind payload timeNs =>
      obtain ⟨t, ht, ⟨⟩⟩ := bind_pure_ok hexec
      exact ⟨trivial, h.emitChild ht⟩
    | _ => exact ⟨trivial, h.of_hosts (Op.exec_entries hexec trivial).1.hosts⟩

/-! ## §6. Runs. -/

/-- The states a run of the image goes through: the loaded one of the scalar executor or of
one host's own process, those at every operation of a handler, those after an event, and
those that differ from such a state outside its hosts (what is done between events). -/
inductive HostsReachable (image : SimulationImage) : TransitionState → Prop
  | loaded {s : TransitionState} (h : TransitionState.new image = .ok s) : HostsReachable image s
  | loadedHost {s : TransitionState} {h : HostState} (hmem : h ∈ image.hostStates)
      (hhosts : s.hosts = [loadHost image h]) : HostsReachable image s
  | handling {s s' : TransitionState} {mode : ObservationMode} {event : Event} {c : Ctx}
      {handler : TransitionHandler} (hs : HostsReachable image s)
      (hevent : resolveEvent image mode event = .ok (c, handler))
      (hvisit : (handlerProg c handler).Visits (Op.exec c) s s') : HostsReachable image s'
  | dispatched {s s' : TransitionState} {mode : ObservationMode} {event : Event}
      (hs : HostsReachable image s) (h : dispatch image mode event s = .ok s') :
      HostsReachable image s'
  | between {s s' : TransitionState} (hs : HostsReachable image s) (hhosts : s'.hosts = s.hosts) :
      HostsReachable image s'

theorem IndexesMaintained.handling {joins : List FlowId} {c : Ctx} {handler : TransitionHandler}
    {s s' : TransitionState} (h : IndexesMaintained joins s)
    (hvisit : (handlerProg c handler).Visits (Op.exec c) s s') : IndexesMaintained joins s' := by
  obtain ⟨-, h'⟩ := Lib.Program.visits_of_wp Op.exec_tracks (Tracks.handlerProg handler) h hvisit
  exact h'

/-- Every reachable state has maintained indexes. -/
theorem HostsReachable.maintained {image : SimulationImage} {s : TransitionState}
    (hcanonical : ∀ h ∈ image.hostStates, h.CanonicalStages image.stageJoins)
    (hs : HostsReachable image s) : IndexesMaintained image.stageJoins s := by
  induction hs with
  | loaded h =>
    obtain ⟨ledger, -, h⟩ := bind_ok h
    obtain ⟨store, -, h⟩ := bind_ok h
    obtain ⟨store', -, h⟩ := bind_ok h
    obtain ⟨switches, -, ⟨⟩⟩ := bind_pure_ok h
    intro e he
    obtain ⟨host, hmem, rfl⟩ := mem_map.1 he
    exact ⟨rfl, hcanonical host hmem⟩
  | loadedHost hmem hhosts =>
    intro e he
    rw [hhosts, mem_singleton] at he
    rw [he]
    exact ⟨rfl, hcanonical _ hmem⟩
  | handling _ _ hvisit ih => exact ih.handling hvisit
  | dispatched _ h ih =>
    obtain ⟨⟨c, handler⟩, -, h⟩ := bind_ok h
    obtain ⟨⟨_, s'⟩, hrun, ⟨⟩⟩ := bind_pure_ok h
    exact ih.handling (Lib.Program.visits_of_run hrun)
  | between _ hhosts ih => exact ih.of_hosts hhosts

/-- In every state reachable from an image with canonical joins, the maintained index of a
host answers every query as the linear scans over its tables do. -/
theorem stage_index_answers_as_scans {image : SimulationImage}
    (hcanonical : ∀ h ∈ image.hostStates, h.CanonicalStages image.stageJoins)
    {s : TransitionState} (hs : HostsReachable image s) {e : HostEntry} (he : e ∈ s.hosts) :
    e.index.AnswersAs e.state image.stageJoins :=
  have hmaintained := hs.maintained hcanonical e he
  hmaintained.derived.answersAs hmaintained.canonical

/-- A compute stage of a host, with the predecessors it waits for. -/
def waitingStage (localPredecessors : StagePredecessors) (localCompleted : Nat) (activated : Bool) :
    CollectiveStage where
  role := .compute ⟨0, 1, 0, 100⟩
  dependencies := ⟨localPredecessors, .none, 0, 0, localCompleted⟩
  activated := activated

def stageGenerator (flow : FlowId) (emission : ScheduledEmission) : FlowGeneratorState where
  flow := flow
  packetsEmitted := 0
  bytesEmitted := 0
  nextEmission := emission
  rngState := 0
  feedback := ⟨0, 0, 0⟩
  kind := .constant ⟨0, 100, 0, .bytes 0⟩

/-- A finished stage, one that ends at 100 ns, and one that joins them. -/
def joiningHost : HostState :=
  { emptyHost with
    generators := [stageGenerator 4 ⟨.finished, 0, 0⟩, stageGenerator 5 ⟨.scheduled, 100, 0⟩,
      stageGenerator 6 ⟨.blocked, 0, 0⟩]
    stages := [some (waitingStage .none 0 true), some (waitingStage .none 0 true),
      some (waitingStage (.join 0 2) 1 false)] }

def joiningImage : SimulationImage where
  stopTimeNs := 1000
  nodes := [⟨0, .host, 0⟩]
  hostStates := [joiningHost]
  switchStates := []
  flows := []
  initialPackets := [⟨0, 5, 0, false, .data⟩]
  links := []
  channels := []
  initialEvents := [⟨⟨100, eventPhase .pacingTimer, 0, 0⟩, 0, .pacingTimer, 0⟩]
  seed := 1
  stageJoins := [4, 5]

theorem joiningHost_canonical : joiningHost.CanonicalStages [4, 5] := by
  intro position stage hstage
  match position, hstage with
  | 0, hstage => cases hstage; exact ⟨trivial, trivial⟩
  | 1, hstage => cases hstage; exact ⟨trivial, trivial⟩
  | 2, hstage => cases hstage; exact ⟨⟨by decide, by decide, by decide⟩, trivial⟩

/-- The host's own process before its first event. -/
def joiningState : TransitionState :=
  loadedState [loadHost joiningImage joiningHost] [] (some ⟨0, .host, 0⟩)
    ((∅ : Std.ExtTreeMap PayloadId ResidentPacket).insert 0
      ⟨⟨0, 5, 0, false, .data⟩, none, 0, false⟩) ∅

/-- The end of the second stage. -/
def joiningEvent : Event := ⟨⟨100, eventPhase .pacingTimer, 0, 0⟩, 0, .pacingTimer, 0⟩

theorem stage_index_answers_as_scans_join :
    (dispatch joiningImage .summary joiningEvent joiningState).toOption.map
        (fun s => s.hosts.map fun e => e.state.stages.map (Option.map (·.activated))) =
      some [[some true, some true, some true]] ∧
    ∀ s, dispatch joiningImage .summary joiningEvent joiningState = .ok s →
      ∀ e ∈ s.hosts, e.index.AnswersAs e.state joiningImage.stageJoins := by
  refine ⟨by decide +kernel, fun s hs e he => ?_⟩
  have hreachable : HostsReachable joiningImage joiningState :=
    .loadedHost (mem_singleton.2 rfl) rfl
  refine stage_index_answers_as_scans ?_ (hreachable.dispatched hs) he
  intro h hhost
  rw [mem_singleton.1 hhost]
  exact joiningHost_canonical

end Days
