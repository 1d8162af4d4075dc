/-
  Days.Logic.TcpSender — what the handlers do to a TCP sender and its ledger.

  Between events the ledger tiles the unacknowledged bytes of the flow.  Sending
  extends the tiling, an acknowledgment cuts it, and a retransmission finds the
  segment it asks for.
-/
import Days.Logic.Pair
import Days.Logic.TcpLedger
import Days.Logic.TcpWindow

namespace Days

open Function HostEntry TcpCongestionControl TcpCubic Prog TcpReno

open Tiling (Tiles Clear below below_of_lt below_of_le)
open TcpSegmentLedger (Sends)

variable {position size : Nat} {retransmit : Option (Nat × Nat)} {fill preserve : Bool}
  {packets : List PacketDescriptor} {p : PacketDescriptor} {c : Ctx} {e e' : HostEntry}
  {flow : FlowId} {g g' : FlowGeneratorState} {tcp tcp' : TcpGenerator}
  {block block' block'' : Nat → Option Nat} {ledger ledger' : TcpSegmentLedger}

/-! ## §1. The sender of a flow. -/

def HostEntry.tcpSender (e : HostEntry) (flow : FlowId) :
    Option (FlowGeneratorState × TcpGenerator) :=
  (e.sender flow).bind fun g =>
    match g.kind with
    | .tcp tcp => some (g, tcp)
    | _ => none

theorem HostEntry.tcpSender_eq_some :
    e.tcpSender flow = some (g, tcp) ↔ e.sender flow = some g ∧ g.kind = .tcp tcp := by
  unfold tcpSender
  rw [Option.bind_eq_some_iff]
  constructor
  · rintro ⟨g', hg, h⟩
    split at h
    · next tcp' hkind =>
      cases h
      exact ⟨hg, hkind⟩
    · cases h
  · rintro ⟨hg, hkind⟩
    exact ⟨g, hg, by rw [hkind]⟩

/-- The generator a handler looks up is the sender of its flow. -/
theorem HostEntry.generatorFor_tcp {node : NodeId} {α : Type} {a : α}
    {f : Nat × FlowGeneratorState → Except PlainError α}
    (h : (e.generatorFor node flow >>= f) = .ok a) (hs : e.tcpSender flow = some (g, tcp)) :
    ∃ position, e.index.firstGenerator flow = some position ∧
      e.state.generators[position]? = some g ∧ g.kind = .tcp tcp ∧ f (position, g) = .ok a := by
  obtain ⟨position, g₁, hposition, hg, h⟩ := generatorFor_bind h
  obtain ⟨hsender, hkind⟩ := tcpSender_eq_some.1 hs
  rw [sender_eq_some.2 ⟨position, hposition, hg⟩] at hsender
  cases hsender
  exact ⟨position, hposition, hg, hkind, h⟩

/-- The sender a lookup finds. -/
theorem HostEntry.tcpSender_found (hposition : e.index.firstGenerator flow = some position)
    (hg : e.state.generators[position]? = some g) (hkind : g.kind = .tcp tcp) :
    e.tcpSender flow = some (g, tcp) :=
  tcpSender_eq_some.2 ⟨sender_eq_some.2 ⟨position, hposition, hg⟩, hkind⟩

theorem HostEntry.tcpSender_congr (h : e'.sender flow = e.sender flow) :
    e'.tcpSender flow = e.tcpSender flow := by
  unfold tcpSender
  rw [h]

/-- The flows of a host's generators, with the table that finds them. -/
def HostEntry.flows (e : HostEntry) : List FlowId × List (FlowId × Nat) :=
  (e.state.generators.map (·.flow), e.index.generatorsByFlow)

theorem HostEntry.flows_getElem? (hg : e.state.generators[position]? = some g) :
    e.flows.1[position]? = some g.flow := by
  show (e.state.generators.map (·.flow))[position]? = some g.flow
  rw [List.getElem?_map, hg, Option.map_some]

theorem HostEntry.flows_setGenerator (hg : e.state.generators[position]? = some g)
    (hflow : g'.flow = g.flow) : (e.setGenerator position g').flows = e.flows := by
  refine Prod.ext ?_ rfl
  exact map_set_eq hg hflow

/-- The flow has one generator at the host, and the table finds it. -/
def HostEntry.Sole (e : HostEntry) (flow : FlowId) : Prop :=
  ∀ position : Nat, e.flows.1[position]? = some flow → e.index.firstGenerator flow = some position

theorem HostEntry.Sole.congr (h : e.Sole flow) (hflows : e'.flows = e.flows) : e'.Sole flow := by
  intro position hposition
  rw [hflows] at hposition
  have htable : e'.index.generatorsByFlow = e.index.generatorsByFlow := congrArg Prod.snd hflows
  unfold HostStageIndex.firstGenerator HostStageIndex.generatorsOf
  rw [htable]
  exact h position hposition

/-- Between events: the segments below the next byte tile what is in flight, a recovery
does not reach beyond what was sent, and a running timer has something to wait for.
Beyond the next byte there is at most the segment of a scheduled send, of `size`
bytes unless that is zero; a flow that is completely acknowledged is left alone. -/
structure TcpOk (g : FlowGeneratorState) (tcp : TcpGenerator) (block : Nat → Option Nat)
    (size : Nat) : Prop where
  tiles : Tiles (below tcp.nextSequence block) tcp.highestAck tcp.nextSequence
  next_le : tcp.nextSequence ≤ tcp.totalBytes
  flight : tcp.bytesInFlight = tcp.nextSequence - tcp.highestAck
  recovery : tcp.control.phase = .fastRecovery → tcp.recoveryHighSequence ≤ tcp.nextSequence
  timer : tcp.activeTimer.isSome → tcp.highestAck < tcp.nextSequence
  held : g.nextEmission.status = .scheduled → tcp.activeTimer = none ∧
    (0 < size → tcp.nextSequence + size ≤ tcp.totalBytes) ∧
    ∀ s n, tcp.nextSequence ≤ s → block s = some n →
      s = tcp.nextSequence ∧ (0 < size → n = size)
  clear : g.nextEmission.status ≠ .scheduled → tcp.highestAck < tcp.totalBytes →
    Clear block tcp.nextSequence
  only : ∀ s n, block s = some n → s ≤ tcp.nextSequence

theorem TcpOk.ack_le (h : TcpOk g tcp block size) : tcp.highestAck ≤ tcp.nextSequence := h.tiles.le

/-- The oldest unacknowledged segment is in the ledger. -/
theorem TcpOk.first (h : TcpOk g tcp block size) (hlt : tcp.highestAck < tcp.nextSequence) :
    ∃ n, block tcp.highestAck = some n := by
  obtain ⟨n, hn⟩ := h.tiles.first hlt
  rw [below_of_lt hlt] at hn
  exact ⟨n, hn⟩

/-! ## §2. Attempts. -/

/-- What a run of attempts does to a sender while it is being prepared. -/
structure TcpSent (flow : FlowId) (block block' : Nat → Option Nat) (s s' : TcpSending) : Prop where
  packets : ∃ news, s'.packets = s.packets ++ news ∧
    Sends flow block s.tcp.nextSequence news block' s'.tcp.nextSequence
  tcp : ∃ last, s'.tcp = { s.tcp with
    nextSequence := s'.tcp.nextSequence
    bytesInFlight := s.tcp.bytesInFlight + (s'.tcp.nextSequence - s.tcp.nextSequence)
    lastAttempt := last }
  entry : ∃ n, s'.entry = { s.entry with state := { s.entry.state with nextPayloadSeq := n } }
  generator : s'.generator.flow = s.generator.flow ∧
    s'.generator.nextEmission = s.generator.nextEmission
  next_le : s.tcp.nextSequence ≤ s.tcp.totalBytes → s'.tcp.nextSequence ≤ s.tcp.totalBytes

namespace TcpSent

variable {s s' s'' : TcpSending}

theorem refl (s : TcpSending) : TcpSent flow block block s s where
  packets := ⟨[], by simp, .nil⟩
  tcp := ⟨s.tcp.lastAttempt, by simp⟩
  entry := ⟨_, rfl⟩
  generator := ⟨rfl, rfl⟩
  next_le := id

theorem le (h : TcpSent flow block block' s s') : s.tcp.nextSequence ≤ s'.tcp.nextSequence := by
  obtain ⟨_, -, hsends⟩ := h.packets
  exact hsends.hi_le

theorem trans (h : TcpSent flow block block' s s') (h' : TcpSent flow block' block'' s' s'') :
    TcpSent flow block block'' s s'' := by
  have hle := h.le
  have hle' := h'.le
  obtain ⟨news, hpackets, hsends⟩ := h.packets
  obtain ⟨news', hpackets', hsends'⟩ := h'.packets
  obtain ⟨last, htcp⟩ := h.tcp
  obtain ⟨last', htcp'⟩ := h'.tcp
  obtain ⟨n, hentry⟩ := h.entry
  obtain ⟨n', hentry'⟩ := h'.entry
  have htotal : s'.tcp.totalBytes = s.tcp.totalBytes := by rw [htcp]
  refine ⟨⟨news ++ news', ?_, hsends.append hsends'⟩, ⟨last', ?_⟩, ⟨n', ?_⟩, ?_, ?_⟩
  · rw [hpackets', hpackets, List.append_assoc]
  · have hflight : s'.tcp.bytesInFlight + (s''.tcp.nextSequence - s'.tcp.nextSequence) =
        s.tcp.bytesInFlight + (s''.tcp.nextSequence - s.tcp.nextSequence) := by
      have : s'.tcp.bytesInFlight =
          s.tcp.bytesInFlight + (s'.tcp.nextSequence - s.tcp.nextSequence) := by rw [htcp]
      omega
    rw [htcp', hflight, htcp]
  · rw [hentry', hentry]
  · exact ⟨h'.generator.1.trans h.generator.1, h'.generator.2.trans h.generator.2⟩
  · intro hnext
    have := h'.next_le (by rw [htotal]; exact h.next_le hnext)
    rwa [htotal] at this

end TcpSent

/-- One segment sent for the first time. -/
theorem TcpSent.segment {s : TcpSending} {size emitted bytes : Nat} {payload : PayloadId}
    {entry : HostEntry} (halloc : s.entry.allocatePayload c = .ok (payload, entry))
    (hpos : 0 < size) (hfits : size ≤ s.tcp.totalBytes - s.tcp.nextSequence) :
    TcpSent flow block (update block s.tcp.nextSequence (some size)) s
      { entry
        generator := { s.generator with packetsEmitted := emitted, bytesEmitted := bytes }
        tcp := { s.tcp with
          nextSequence := s.tcp.nextSequence + size
          bytesInFlight := s.tcp.bytesInFlight + size
          lastAttempt := payload }
        packets :=
          s.packets ++ [tcpDataPacket payload flow size s.tcp.nextSequence c.now false] } := by
  obtain ⟨-, rfl⟩ := allocatePayload_eq_ok halloc
  refine ⟨⟨_, rfl, .more rfl rfl rfl hpos .nil⟩, ⟨payload, ?_⟩, ⟨_, rfl⟩, ⟨rfl, rfl⟩, ?_⟩
  · simp
  · intro hnext
    show s.tcp.nextSequence + size ≤ s.tcp.totalBytes
    omega

theorem fillWindow_sent {fuel : Nat} {s s' : TcpSending} (h : fillWindow c flow fuel s = .ok s') :
    ∃ block', TcpSent flow block block' s s' := by
  induction fuel generalizing s block with
  | zero =>
    cases h
    exact ⟨block, .refl _⟩
  | succ fuel ih =>
    unfold fillWindow at h
    dsimp only at h
    split at h
    · cases h
      exact ⟨block, .refl _⟩
    · split at h
      · cases h
        exact ⟨block, .refl _⟩
      · next hsize =>
        obtain ⟨⟨payload, entry⟩, halloc, h⟩ := bind_ok h
        obtain ⟨next, hnext, h⟩ := bind_ok h
        obtain ⟨flight, hflight, h⟩ := bind_ok h
        obtain ⟨emitted, -, h⟩ := bind_ok h
        obtain ⟨bytes, -, h⟩ := bind_ok h
        rw [okOr_eq_ok] at hnext hflight
        obtain rfl := (checkedAdd_eq_some hnext).1
        obtain rfl := (checkedAdd_eq_some hflight).1
        obtain ⟨block', hrest⟩ := ih h
        exact ⟨block', (TcpSent.segment halloc (Nat.pos_of_ne_zero hsize) (by omega)).trans hrest⟩

theorem retransmitFirst_sent {s s' : TcpSending}
    (hseg : ∀ sequence size, retransmit = some (sequence, size) →
      sequence < s.tcp.nextSequence ∧ block sequence = some size)
    (h : retransmitFirst c flow retransmit s = .ok s') :
    TcpSent flow block block s s' ∧ s'.tcp.nextSequence = s.tcp.nextSequence := by
  unfold retransmitFirst at h
  split at h
  · next sequence size =>
    split at h
    · unfold retransmitAttempt at h
      obtain ⟨⟨payload, entry⟩, halloc, ⟨⟩⟩ := bind_pure_ok h
      obtain ⟨-, rfl⟩ := allocatePayload_eq_ok halloc
      obtain ⟨hlt, hblock⟩ := hseg sequence size rfl
      refine ⟨⟨⟨_, rfl, .again rfl rfl hlt hblock .nil⟩, ⟨payload, ?_⟩, ⟨_, rfl⟩, ⟨rfl, rfl⟩, id⟩,
        rfl⟩
      simp
    · cases h
      exact ⟨.refl s, rfl⟩
  · cases h
    exact ⟨.refl s, rfl⟩

theorem fillIf_sent {s s' : TcpSending} (h : fillIf c flow fill s = .ok s') :
    ∃ block', TcpSent flow block block' s s' ∧
      (fill = false → s'.tcp.nextSequence = s.tcp.nextSequence) := by
  unfold fillIf at h
  split at h
  · next hfill =>
    obtain ⟨block', hsent⟩ := fillWindow_sent h
    exact ⟨block', hsent, fun hno => by rw [hfill] at hno; cases hno⟩
  · cases h
    exact ⟨block, .refl s, fun _ => rfl⟩

/-- A timer is installed exactly when none runs, bytes are in flight and no scheduled
send is preserved. -/
theorem installTimer_turn {timer : Option TcpTimerState}
    (h : installTimer c flow preserve tcp = .ok (timer, tcp')) :
    timer = none ∧ tcp' = tcp ∧
        (preserve = true ∨ tcp.activeTimer.isSome = true ∨ tcp.bytesInFlight = 0) ∨
      ∃ t generation, timer = some t ∧ preserve = false ∧ tcp.activeTimer = none ∧
        tcp.bytesInFlight ≠ 0 ∧
        tcp' = { tcp with timerGeneration := generation, activeTimer := some t } ∧
        t.attempt = tcp.lastAttempt ∧ t.deadlineNs = c.now + tcp.rtoNs := by
  unfold installTimer at h
  split at h
  · next hinstall =>
    simp only [Bool.and_eq_true, Bool.not_eq_true', Option.isNone_iff_eq_none, bne_iff_ne,
      ne_eq] at hinstall
    obtain ⟨generation, -, h⟩ := bind_ok h
    obtain ⟨deadline, hdeadline, ⟨⟩⟩ := bind_pure_ok h
    rw [okOr_eq_ok] at hdeadline
    exact .inr ⟨_, _, rfl, hinstall.1.1, hinstall.1.2, hinstall.2, rfl, rfl,
      (checkedAdd_eq_some hdeadline).1⟩
  · next hkeep =>
    cases h
    refine .inl ⟨rfl, rfl, ?_⟩
    by_cases hp : preserve = true
    · exact .inl hp
    · right
      by_cases ha : tcp.activeTimer.isSome = true
      · exact .inl ha
      · right
        simp only [Bool.and_eq_true, Bool.not_eq_true', Option.isNone_iff_eq_none, bne_iff_ne,
          ne_eq, not_and, not_not] at hkeep
        exact hkeep ⟨by simpa using hp, by simpa using ha⟩

/-- The sender after a run of attempts. -/
structure TcpAttempted (fill preserve : Bool) (g : FlowGeneratorState) (tcp : TcpGenerator)
    (g' : FlowGeneratorState) (tcp' : TcpGenerator) : Prop where
  flow : g'.flow = g.flow
  total : tcp'.totalBytes = tcp.totalBytes
  control : tcp'.control = tcp.control
  still : fill = false → tcp'.nextSequence = tcp.nextSequence
  ack : tcp'.highestAck = tcp.highestAck
  flight : tcp'.bytesInFlight = tcp.bytesInFlight + (tcp'.nextSequence - tcp.nextSequence)
  recovery : tcp'.recoveryHighSequence = tcp.recoveryHighSequence
  next : tcp.nextSequence ≤ tcp'.nextSequence
  next_le : tcp.nextSequence ≤ tcp.totalBytes → tcp'.nextSequence ≤ tcp.totalBytes
  timer : tcp'.activeTimer = tcp.activeTimer ∨ preserve = false ∧ tcp'.bytesInFlight ≠ 0
  status : g'.nextEmission.status =
    if preserve then g.nextEmission.status
    else if tcp'.highestAck ≥ tcp'.totalBytes then .finished else .blocked

/-- An attempt that sets the status finishes only a flow that is acknowledged to its end. -/
theorem TcpAttempted.acked (h : TcpAttempted fill false g tcp g' tcp')
    (hfinished : g'.nextEmission.status = .finished) : tcp'.highestAck ≥ tcp'.totalBytes := by
  rw [h.status, if_neg (by simp)] at hfinished
  split at hfinished
  · next hle => exact hle
  · cases hfinished

theorem tcpAttempts_turn {plan : TcpSendPlan}
    (h : tcpAttempts c flow retransmit fill preserve e = .ok (plan, e'))
    (hs : e.tcpSender flow = some (g, tcp))
    (hseg : ∀ sequence size, retransmit = some (sequence, size) →
      sequence < tcp.nextSequence ∧ block sequence = some size) :
    e'.flows = e.flows ∧ ∃ g' tcp' block', e'.tcpSender flow = some (g', tcp') ∧
      Sends flow block tcp.nextSequence plan.packets block' tcp'.nextSequence ∧
      TcpAttempted fill preserve g tcp g' tcp' := by
  obtain ⟨position, hposition, hg, hkind, h⟩ := generatorFor_tcp h hs
  dsimp only at h
  rw [hkind] at h
  obtain ⟨s₁, hretransmit, h⟩ := bind_ok h
  obtain ⟨s₂, hfill, h⟩ := bind_ok h
  obtain ⟨⟨timer, tcp'⟩, htimer, h⟩ := bind_ok h
  obtain ⟨e₁, hcount, ⟨⟩⟩ := bind_pure_ok h
  -- The repeated segment goes first and adds no bytes; the window is filled after it.
  obtain ⟨block', hfilled, hstill⟩ := fillIf_sent hfill
  obtain ⟨hresent, hsame⟩ := retransmitFirst_sent hseg hretransmit
  have hsent := hresent.trans hfilled
  obtain ⟨news, hpackets, hsends⟩ := hsent.packets
  obtain ⟨last, htcp⟩ := hsent.tcp
  obtain ⟨n, hentry⟩ := hsent.entry
  obtain ⟨sourced, rfl⟩ := countSourcedPackets_eq_ok hcount
  have hposition' : s₂.entry.index.firstGenerator flow = some position := by
    rw [hentry]
    exact hposition
  have hg' : s₂.entry.state.generators[position]? = some g := by
    rw [hentry]
    exact hg
  have hnext : tcp'.nextSequence = s₂.tcp.nextSequence := by
    rcases installTimer_turn htimer with ⟨-, rfl, -⟩ | ⟨_, _, -, -, -, -, rfl, -, -⟩ <;> rfl
  refine ⟨?_, settleTcp preserve tcp' s₂.generator, tcp', block', ?_, ?_, ?_⟩
  · have hset : (s₂.entry.setGenerator position (settleTcp preserve tcp' s₂.generator)).flows =
        s₂.entry.flows := flows_setGenerator hg' hsent.generator.1
    have hkept : s₂.entry.flows = e.flows := by
      rw [hentry]
      rfl
    exact hset.trans hkept
  · rw [tcpSender_eq_some]
    exact ⟨sender_setGenerator hposition' hg', rfl⟩
  · rw [hnext]
    have : s₂.packets = news := by simpa using hpackets
    rw [this]
    exact hsends
  · -- Only the timer can differ between the two outcomes of `install_timer`.
    have hbase : tcp'.totalBytes = tcp.totalBytes ∧ tcp'.highestAck = tcp.highestAck ∧
        tcp'.bytesInFlight = tcp.bytesInFlight + (tcp'.nextSequence - tcp.nextSequence) ∧
        tcp'.recoveryHighSequence = tcp.recoveryHighSequence ∧ tcp'.control = tcp.control ∧
        (tcp'.activeTimer = tcp.activeTimer ∨ preserve = false ∧ tcp'.bytesInFlight ≠ 0) := by
      rcases installTimer_turn htimer with ⟨-, rfl, -⟩ | ⟨_, _, -, hkeep, -, hflight, rfl, -, -⟩
      · rw [htcp]
        exact ⟨rfl, rfl, rfl, rfl, rfl, .inl rfl⟩
      · refine ⟨?_, ?_, ?_, ?_, ?_, .inr ⟨hkeep, hflight⟩⟩ <;> dsimp only <;> rw [htcp]
    obtain ⟨htotal, hack, hflight, hrecovery, hcontrol, hactive⟩ := hbase
    refine ⟨hsent.generator.1, htotal, hcontrol, ?_, hack, hflight, hrecovery, ?_, ?_, hactive, ?_⟩
    · intro hno
      rw [hnext, hstill hno, hsame]
    · rw [hnext]
      exact hsent.le
    · rw [hnext]
      exact hsent.next_le
    · show (settleTcp preserve tcp' s₂.generator).nextEmission.status = _
      cases preserve
      · rfl
      · exact congrArg ScheduledEmission.status hsent.generator.2

/-- A scheduled send is preserved, and then nothing new is sent in its place. -/
structure HoldsBack (fill preserve : Bool) (g : FlowGeneratorState) : Prop where
  fill : fill = true → preserve = false
  free : preserve = false → g.nextEmission.status ≠ .scheduled

section

variable (h : TcpAttempted fill preserve g tcp g' tcp')

include h

/-- New segments are only sent when nothing is reserved. -/
theorem TcpAttempted.room (hok : TcpOk g tcp block size) (hholds : HoldsBack fill preserve g)
    (hgrow : tcp'.nextSequence ≠ tcp.nextSequence) :
    preserve = false ∧ Clear block tcp.nextSequence := by
  have hfilled : fill = true := by
    cases hf : fill
    · exact absurd (h.still hf) hgrow
    · rfl
  have hmono := h.next
  have hle := hok.ack_le
  have hend := h.next_le hok.next_le
  exact ⟨hholds.fill hfilled, hok.clear (hholds.free (hholds.fill hfilled)) (by omega)⟩

/-- Attempts keep what holds between events, as long as a scheduled send is preserved
and nothing else is sent in its place. -/
theorem TcpAttempted.ok (hok : TcpOk g tcp block size)
    (hsends : Sends flow block tcp.nextSequence packets block' tcp'.nextSequence)
    (hholds : HoldsBack fill preserve g) : TcpOk g' tcp' block' size := by
  have hle := hok.ack_le
  have hmono := h.next
  have hstatus : preserve = false → g'.nextEmission.status ≠ .scheduled := by
    rintro rfl
    rw [h.status, if_neg (by simp)]
    split <;> simp
  have hkept : preserve = true → g'.nextEmission.status = g.nextEmission.status := by
    rintro rfl
    rw [h.status, if_pos rfl]
  have htimer : tcp'.activeTimer.isSome → tcp'.highestAck < tcp'.nextSequence := by
    intro hactive
    rcases h.timer with heq | ⟨-, hne⟩
    · rw [heq] at hactive
      have := hok.timer hactive
      rw [h.ack]
      omega
    · rw [h.flight, hok.flight] at hne
      rw [h.ack]
      omega
  have hflight : tcp'.bytesInFlight = tcp'.nextSequence - tcp'.highestAck := by
    rw [h.flight, h.ack, hok.flight]
    omega
  have hrecovery : tcp'.control.phase = .fastRecovery →
      tcp'.recoveryHighSequence ≤ tcp'.nextSequence := by
    intro hphase
    rw [h.control] at hphase
    rw [h.recovery]
    exact Nat.le_trans (hok.recovery hphase) hmono
  have hnext_le : tcp'.nextSequence ≤ tcp'.totalBytes := by
    rw [h.total]
    exact h.next_le hok.next_le
  by_cases hsame : tcp'.nextSequence = tcp.nextSequence
  · -- Only copies were sent.
    obtain ⟨rfl, -⟩ := hsends.still hsame
    refine ⟨?_, hnext_le, hflight, hrecovery, htimer, fun hheld => ?_, fun hfree hmore => ?_,
      by rw [hsame]; exact hok.only⟩
    · rw [hsame, h.ack]
      exact hok.tiles
    · have hp : preserve = true := by
        cases hpreserve : preserve
        · exact absurd hheld (hstatus hpreserve)
        · rfl
      rw [hkept hp] at hheld
      obtain ⟨hnone, hfits, honly⟩ := hok.held hheld
      rw [hsame, h.total]
      refine ⟨?_, hfits, honly⟩
      rcases h.timer with heq | ⟨hno, -⟩
      · rw [heq, hnone]
      · rw [hp] at hno
        cases hno
    · rw [hsame]
      rw [h.ack, h.total] at hmore
      refine hok.clear ?_ hmore
      cases hpreserve : preserve
      · exact hholds.free hpreserve
      · rw [← hkept hpreserve]
        exact hfree
  · -- New segments were sent, so nothing was reserved.
    obtain ⟨hp, hclear⟩ := h.room hok hholds hsame
    have htiles := hok.tiles
    rw [hclear.below_eq] at htiles
    have htiles' := hsends.tiles htiles
    refine ⟨?_, hnext_le, hflight, hrecovery, htimer, fun hheld => ?_, fun _ _ => htiles'.clear,
      fun s n hn => ?_⟩
    · rw [htiles'.clear.below_eq, h.ack]
      exact htiles'
    · exact absurd hheld (hstatus hp)
    · have := htiles'.inside s n hn
      omega

/-- The packets of a run of attempts lie below the next byte, and the ledger takes them. -/
theorem TcpAttempted.seeds (hok : TcpOk g tcp (ledger.block flow) size)
    (hsends : Sends flow (ledger.block flow) tcp.nextSequence packets block' tcp'.nextSequence)
    (hholds : HoldsBack fill preserve g) :
    (∃ ledger', ledger.seedAll packets = .ok ledger' ∧ ledger'.block flow = block' ∧
      ∀ other, other ≠ flow → ledger'.block other = ledger.block other) ∧
      ∀ p ∈ packets, p.flow = flow ∧ ∃ header, p.kind = .tcpData header ∧
        header.sequence + p.sizeBytes ≤ tcp'.nextSequence := by
  by_cases hsame : tcp'.nextSequence = tcp.nextSequence
  · obtain ⟨rfl, hcopies⟩ := hsends.still hsame
    obtain ⟨ledger', hseed, hblocks⟩ := TcpSegmentLedger.seedAll_resends fun p hp => by
      obtain ⟨hflow, header, hkind, -, hblock⟩ := hcopies p hp
      exact ⟨hflow, header, hkind, hblock⟩
    refine ⟨⟨ledger', hseed, hblocks flow, fun other _ => hblocks other⟩, fun p hp => ?_⟩
    obtain ⟨hflow, header, hkind, hlt, hblock⟩ := hcopies p hp
    have := hok.tiles.inside _ _ ((below_of_lt hlt).trans hblock)
    exact ⟨hflow, header, hkind, by omega⟩
  · obtain ⟨-, hclear⟩ := h.room hok hholds hsame
    have htiles := hok.tiles
    rw [hclear.below_eq] at htiles
    exact ⟨TcpSegmentLedger.seedAll_sends hsends htiles, hsends.ends_le htiles⟩

end

/-! ## §3. Attempts and the ledger. -/

/-- The segment a retransmission repeats. -/
def retransmitFrom (ledger : TcpSegmentLedger) (flow : FlowId) :
    Option Nat → Except ExecutionError (Option (Nat × Nat))
  | none => .ok none
  | some sequence =>
    match ledger.segment flow sequence with
    | some segment => .ok (some (sequence, segment.sizeBytes))
    | none => .error (.missingTcpSegment flow sequence)

/-- `prepare_tcp_attempts` on an entry and the ledger. -/
def attemptTcp (c : Ctx) (flow : FlowId) (retransmitSequence : Option Nat) (fill preserve : Bool)
    (entry : HostEntry) (ledger : TcpSegmentLedger) :
    Except ExecutionError (TcpSendPlan × HostEntry × TcpSegmentLedger) := do
  let retransmit ← retransmitFrom ledger flow retransmitSequence
  let (plan, entry) ← Prog.liftPlain (tcpAttempts c flow retransmit fill preserve entry)
  let ledger ← Prog.liftConflict (ledger.seedAll plan.packets)
  return (plan, entry, ledger)

theorem retransmitFrom_block {sequence : Option Nat}
    (h : retransmitFrom ledger flow sequence = .ok retransmit) :
    ∀ start size, retransmit = some (start, size) →
      sequence = some start ∧ ledger.block flow start = some size := by
  unfold retransmitFrom at h
  split at h
  · cases h
    simp
  · split at h
    · next segment hsegment =>
      cases h
      rintro start size ⟨⟩
      refine ⟨rfl, ?_⟩
      unfold TcpSegmentLedger.block
      rw [hsegment, Option.map_some]
    · cases h

/-- Where the sender and the ledger stand after a move that sent `packets`. -/
structure TcpMoved (flow : FlowId) (size : Nat) (e : HostEntry) (ledger : TcpSegmentLedger)
    (tcp : TcpGenerator) (packets : List PacketDescriptor) (e' : HostEntry)
    (ledger' : TcpSegmentLedger) (g' : FlowGeneratorState) (tcp' : TcpGenerator) : Prop where
  sender : e'.tcpSender flow = some (g', tcp')
  flows : e'.flows = e.flows
  ok : TcpOk g' tcp' (ledger'.block flow) size
  total : tcp'.totalBytes = tcp.totalBytes
  next : tcp.nextSequence ≤ tcp'.nextSequence
  packets : ∀ p ∈ packets, p.flow = flow ∧ ∃ header, p.kind = .tcpData header ∧
    header.sequence + p.sizeBytes ≤ tcp'.nextSequence
  others : ∀ other, other ≠ flow → ledger'.block other = ledger.block other

theorem attemptTcp_moved {sequence : Option Nat} {plan : TcpSendPlan}
    (h : attemptTcp c flow sequence fill preserve e ledger = .ok (plan, e', ledger'))
    (hs : e.tcpSender flow = some (g, tcp)) (hok : TcpOk g tcp (ledger.block flow) size)
    (hasks : ∀ start, sequence = some start → start < tcp.nextSequence)
    (hholds : HoldsBack fill preserve g) :
    ∃ g' tcp', TcpMoved flow size e ledger tcp plan.packets e' ledger' g' tcp' ∧
      TcpAttempted fill preserve g tcp g' tcp' := by
  obtain ⟨retransmit, hretransmit, h⟩ := bind_ok h
  obtain ⟨⟨plan', e₁⟩, hattempts, h⟩ := bind_ok h
  obtain ⟨ledger₁, hseed, h⟩ := bind_ok h
  rw [liftPlain_eq_ok] at hattempts
  rw [liftConflict_eq_ok] at hseed
  cases pure_eq_ok.1 h
  have hseg : ∀ start size, retransmit = some (start, size) →
      start < tcp.nextSequence ∧ ledger.block flow start = some size := by
    intro start size hretransmitted
    obtain ⟨hstart, hblock⟩ := retransmitFrom_block hretransmit start size hretransmitted
    exact ⟨hasks start hstart, hblock⟩
  obtain ⟨hflows, g', tcp', block', hs', hsends, hattempted⟩ := tcpAttempts_turn hattempts hs hseg
  obtain ⟨⟨ledger₂, hseed', hblock, hothers⟩, hends⟩ := hattempted.seeds hok hsends hholds
  rw [hseed] at hseed'
  cases hseed'
  refine ⟨g', tcp', ⟨hs', hflows, ?_, hattempted.total, hattempted.next, hends, hothers⟩,
    hattempted⟩
  rw [hblock]
  exact hattempted.ok hok hsends hholds

/-! ## §4. Acknowledgments. -/

/-- Duplicates below the threshold leave the phase alone. -/
theorem TcpCongestionControl.onDuplicateAck_phase {control control' : TcpCongestionControl}
    {flight now : Nat} (h : control.onDuplicateAck flight now = (false, control')) :
    control'.phase = control.phase := by
  have hcount : control.countDuplicateAck.phase = control.phase := by cases control <;> rfl
  unfold onDuplicateAck at h
  dsimp only at h
  split at h
  · cases h
  · split at h
    · cases h
      exact (onMoreDuplicateAck_keeps _).1.trans hcount
    · cases h
      exact hcount

/-- What an acknowledgment leaves of the sender, before the ledger and new attempts. -/
structure TcpAcked (tcp : TcpGenerator) (acknowledgment : Nat) (o : TcpAckOutcome) : Prop where
  total : o.tcp.totalBytes = tcp.totalBytes
  next : o.tcp.nextSequence = tcp.nextSequence
  ack : o.acknowledgedThrough = none ∧ o.tcp.highestAck = tcp.highestAck ∨
    o.acknowledgedThrough = some o.tcp.highestAck ∧ tcp.highestAck < o.tcp.highestAck ∧
      o.tcp.highestAck ≤ tcp.nextSequence ∧ o.tcp.highestAck ≤ acknowledgment
  flight : o.tcp.bytesInFlight = tcp.nextSequence - o.tcp.highestAck
  recovery : o.tcp.control.phase = .fastRecovery →
    o.tcp.recoveryHighSequence ≤ tcp.nextSequence
  timer : o.tcp.activeTimer.isSome → o.tcp.highestAck < tcp.nextSequence
  quiet : tcp.activeTimer = none → o.tcp.activeTimer = none
  retransmit : ∀ sequence, o.retransmit = some sequence →
    sequence = o.tcp.highestAck ∧ o.tcp.highestAck < tcp.nextSequence

theorem onAcknowledgment_acked (c : Ctx) (header : TcpAckHeader) (hok : TcpOk g tcp block size) :
    TcpAcked tcp header.acknowledgment (onAcknowledgment c tcp header) := by
  have hle := hok.tiles.le
  have hflight := hok.flight
  unfold onAcknowledgment
  dsimp only
  split
  · -- New bytes are acknowledged; the old timer is gone.
    next hnew =>
    have hmin : min header.acknowledgment tcp.nextSequence ≤ header.acknowledgment :=
      Nat.min_le_left _ _
    have hmin' : min header.acknowledgment tcp.nextSequence ≤ tcp.nextSequence :=
      Nat.min_le_right _ _
    generalize min header.acknowledgment tcp.nextSequence = a at hnew hmin hmin'
    refine ⟨rfl, rfl, .inr ⟨rfl, hnew, hmin', hmin⟩, ?_, ?_, ?_, fun _ => rfl, ?_⟩
    · show tcp.bytesInFlight - (a - tcp.highestAck) = tcp.nextSequence - a
      rw [hflight]
      omega
    · intro hphase
      exact hok.recovery ((onNewAck_effect ..).2 hphase)
    · intro h
      cases h
    · intro sequence hretransmit
      unfold onNewAcknowledgment at hretransmit
      dsimp only at hretransmit
      split at hretransmit
      · next hpartial =>
        cases hretransmit
        have := hok.recovery ((onNewAck_effect ..).2 hpartial.1)
        have := hpartial.2
        exact ⟨rfl, by show a < tcp.nextSequence; omega⟩
      · cases hretransmit
  · split
    · -- A duplicate with bytes in flight.
      next hdup =>
      have hlt : tcp.highestAck < tcp.nextSequence := by
        have := hdup.2.2
        omega
      unfold onDuplicateAcknowledgment
      obtain ⟨fast, control, hcontrol⟩ : ∃ fast control,
          tcp.control.onDuplicateAck tcp.bytesInFlight c.now = (fast, control) := ⟨_, _, rfl⟩
      rw [hcontrol]
      cases fast with
      | true =>
        refine ⟨rfl, rfl, .inl ⟨rfl, rfl⟩, hflight, fun _ => Nat.le_refl _, ?_, fun _ => rfl, ?_⟩
        · intro h
          cases h
        · rintro sequence ⟨⟩
          exact ⟨rfl, hlt⟩
      | false =>
        refine ⟨rfl, rfl, .inl ⟨rfl, rfl⟩, hflight, ?_, fun _ => hlt, id, ?_⟩
        · intro hphase
          exact hok.recovery ((onDuplicateAck_phase hcontrol).symm.trans hphase)
        · rintro sequence ⟨⟩
    · exact ⟨rfl, rfl, .inl ⟨rfl, rfl⟩, hflight, hok.recovery, hok.timer, id, by rintro _ ⟨⟩⟩

/-- The ledger after an acknowledgment. -/
def acknowledgeThrough (ledger : TcpSegmentLedger) (flow : FlowId) :
    Option Nat → Except TcpSegmentConflict TcpSegmentLedger
  | some acknowledgment => ledger.acknowledge flow acknowledgment
  | none => .ok ledger

/-- Cutting the ledger at the acknowledgment restores what holds between events. -/
theorem TcpAcked.settles {acknowledgment : Nat} {o : TcpAckOutcome}
    (h : TcpAcked tcp acknowledgment o) (hok : TcpOk g tcp (ledger.block flow) size)
    (hg : g'.nextEmission = g.nextEmission) :
    ∃ ledger', acknowledgeThrough ledger flow o.acknowledgedThrough = .ok ledger' ∧
      TcpOk g' o.tcp (ledger'.block flow) size ∧
      ∀ other, other ≠ flow → ledger'.block other = ledger.block other := by
  have hrest : ∀ block, Tiles (below tcp.nextSequence block) o.tcp.highestAck tcp.nextSequence →
      (∀ s, tcp.nextSequence ≤ s → block s = ledger.block flow s) → TcpOk g' o.tcp block size := by
    intro block htiles hbeyond
    refine ⟨by rw [h.next]; exact htiles, ?_, ?_, ?_, ?_, ?_, ?_, fun s n hn => ?_⟩
    · rw [h.next, h.total]
      exact hok.next_le
    · rw [h.flight, h.next]
    · rw [h.next]
      exact h.recovery
    · rw [h.next]
      exact h.timer
    · intro hheld
      rw [hg] at hheld
      obtain ⟨hnone, hfits, honly⟩ := hok.held hheld
      rw [h.next, h.total]
      refine ⟨h.quiet hnone, hfits, fun s n hs hn => honly s n hs ?_⟩
      rw [← hbeyond s hs]
      exact hn
    · intro hfree hmore s hs
      rw [hg] at hfree
      rw [h.next] at hs
      rw [h.total] at hmore
      rw [hbeyond s hs]
      refine hok.clear hfree ?_ s hs
      rcases h.ack with ⟨-, heq⟩ | ⟨-, hlt, -, -⟩ <;> omega
    · rw [h.next]
      rcases Nat.le_total s tcp.nextSequence with hs | hs
      · exact hs
      · exact hok.only s n ((hbeyond s hs).symm.trans hn)
  rcases h.ack with ⟨hnone, hsame⟩ | ⟨hsome, hlt, hle, -⟩
  · rw [hnone]
    refine ⟨ledger, rfl, hrest _ ?_ fun _ _ => rfl, fun _ _ => rfl⟩
    rw [hsame]
    exact hok.tiles
  · rw [hsome]
    obtain ⟨ledger', hcut, htiles, hbeyond, hothers⟩ :=
      TcpSegmentLedger.acknowledge_tiles hok.tiles (Nat.le_of_lt hlt) hle
    exact ⟨ledger', hcut, hrest _ htiles hbeyond, hothers⟩

/-- The entry after the state half of an acknowledgment. -/
theorem tcpAckArrival_turn {header : TcpAckHeader} {plan : TcpAckPlan}
    (h : tcpAckArrival c p header e = .ok (plan, e')) (hs : e.tcpSender p.flow = some (g, tcp)) :
    e'.flows = e.flows ∧ plan.outcome = onAcknowledgment c tcp header ∧
      ∃ g', e'.tcpSender p.flow = some (g', plan.outcome.tcp) ∧ g'.flow = g.flow ∧
        g'.nextEmission = g.nextEmission ∧
        plan.scheduledSendPending = decide (g.nextEmission.status = .scheduled) := by
  obtain ⟨position, hposition, hg, hkind, h⟩ := generatorFor_tcp h hs
  dsimp only at h
  rw [hkind] at h
  obtain ⟨arrivals, h⟩ := applyGeneratorFeedback_bind h
  split at h
  · obtain ⟨delay, -, ⟨⟩⟩ := bind_pure_ok h
    obtain ⟨stages, views, hstages⟩ := completeLocalSuccessors_stages
      (e.setGenerator position { g with
        feedback := { arrivals with
          outstandingBytes := (onAcknowledgment c tcp header).tcp.bytesInFlight
          unacknowledgedBytes := (onAcknowledgment c tcp header).tcp.bytesInFlight }
        kind := .tcp (onAcknowledgment c tcp header).tcp })
      p.flow ⟨_, header.echoedSentTimeNs, delay⟩ []
    rw [hstages]
    refine ⟨flows_setGenerator hg rfl, rfl, _,
      tcpSender_eq_some.2 ⟨sender_setGenerator hposition hg, rfl⟩, rfl, rfl, rfl⟩
  · cases pure_eq_ok.1 h
    refine ⟨flows_setGenerator hg rfl, rfl, _,
      tcpSender_eq_some.2 ⟨sender_setGenerator hposition hg, rfl⟩, rfl, rfl, rfl⟩

/-- `host_tcp_ack_arrival` on an entry and the ledger, with the packets it sends. -/
def ackTcp (c : Ctx) (p : PacketDescriptor) (header : TcpAckHeader) (entry : HostEntry)
    (ledger : TcpSegmentLedger) :
    Except ExecutionError (List PacketDescriptor × HostEntry × TcpSegmentLedger) := do
  let (plan, entry) ← Prog.liftPlain (tcpAckArrival c p header entry)
  let outcome := plan.outcome
  let ledger ← Prog.liftConflict (acknowledgeThrough ledger p.flow outcome.acknowledgedThrough)
  if plan.transition.isSome && !(plan.scheduledSendPending && outcome.retransmit.isNone) then
    let (sent, entry, ledger) ← attemptTcp c p.flow outcome.retransmit
      (outcome.fill && !plan.scheduledSendPending) plan.scheduledSendPending entry ledger
    return (sent.packets, entry, ledger)
  else return ([], entry, ledger)

/-- An acknowledgment moves the sender no further than it says, and finishes it only
when everything is acknowledged. -/
theorem ackTcp_moved {header : TcpAckHeader}
    (h : ackTcp c p header e ledger = .ok (packets, e', ledger'))
    (hs : e.tcpSender p.flow = some (g, tcp)) (hok : TcpOk g tcp (ledger.block p.flow) size) :
    ∃ g' tcp', TcpMoved p.flow size e ledger tcp packets e' ledger' g' tcp' ∧
      tcp.highestAck ≤ tcp'.highestAck ∧
      (tcp'.highestAck = tcp.highestAck ∨ tcp'.highestAck ≤ header.acknowledgment) ∧
      (g'.nextEmission.status = .finished →
        g.nextEmission.status = .finished ∨ tcp'.totalBytes ≤ tcp'.highestAck) := by
  obtain ⟨⟨plan, e₁⟩, hack, h⟩ := bind_ok h
  obtain ⟨ledger₁, hcut, h⟩ := bind_ok h
  rw [liftPlain_eq_ok] at hack
  rw [liftConflict_eq_ok] at hcut
  obtain ⟨hflows, houtcome, g₁, hs₁, hflow, hemission, hpending⟩ := tcpAckArrival_turn hack hs
  have hacked := onAcknowledgment_acked c header hok
  rw [← houtcome] at hacked
  -- Between the cut and the next send the sender is in order again.
  obtain ⟨ledger₂, hcut', hok₁, hothers⟩ := hacked.settles hok hemission
  rw [hcut] at hcut'
  cases hcut'
  have hmono : tcp.highestAck ≤ plan.outcome.tcp.highestAck := by
    rcases hacked.ack with ⟨-, heq⟩ | ⟨-, hlt, -, -⟩ <;> omega
  have hbound : plan.outcome.tcp.highestAck = tcp.highestAck ∨
      plan.outcome.tcp.highestAck ≤ header.acknowledgment := by
    rcases hacked.ack with ⟨-, heq⟩ | ⟨-, -, -, hle⟩
    · exact .inl heq
    · exact .inr hle
  split at h
  · obtain ⟨⟨sent, e₂, ledger₂⟩, hattempt, ⟨⟩⟩ := bind_pure_ok h
    obtain ⟨g', tcp', hmoved, hattempted⟩ := attemptTcp_moved hattempt hs₁ hok₁
      (fun start hstart => by
        obtain ⟨rfl, hlt⟩ := hacked.retransmit start hstart
        rw [hacked.next]
        exact hlt)
      ⟨fun hfill => by simpa using (Bool.and_eq_true_iff.1 hfill).2, fun hnone => by
        rw [hemission]
        rw [hpending] at hnone
        exact of_decide_eq_false hnone⟩
    refine ⟨g', tcp', ?_, ?_, ?_, ?_⟩
    · exact ⟨hmoved.sender, hmoved.flows.trans hflows, hmoved.ok,
        hmoved.total.trans hacked.total, hacked.next ▸ hmoved.next, hmoved.packets,
        fun other hne => (hmoved.others other hne).trans (hothers other hne)⟩
    · rw [hattempted.ack]
      exact hmono
    · rw [hattempted.ack]
      exact hbound
    · intro hfinished
      rw [hattempted.status] at hfinished
      split at hfinished
      · rw [hemission] at hfinished
        exact .inl hfinished
      · split at hfinished
        · next hle => exact .inr hle
        · cases hfinished
  · cases pure_eq_ok.1 h
    refine ⟨g₁, plan.outcome.tcp, ?_, hmono, hbound, ?_⟩
    · exact ⟨hs₁, hflows, hok₁, hacked.total, hacked.next.ge, by simp, hothers⟩
    · intro hfinished
      rw [hemission] at hfinished
      exact .inl hfinished

/-! ## §5. Timeouts and first sends. -/

/-- The timer that fired is the sender's own; it is gone afterwards. -/
theorem expireTimer_turn {sequence : Nat} {record : TcpTransitionRecord}
    (h : expireTimer c e = some (flow, sequence, record, e')) (hsole : e.Sole flow)
    (hs : e.tcpSender flow = some (g, tcp)) :
    e'.flows = e.flows ∧ sequence = tcp.highestAck ∧
      (∃ t, tcp.activeTimer = some t ∧ t.attempt = c.event.payload ∧ t.deadlineNs = c.now) ∧
      ∃ g' control rtoNs, g'.flow = g.flow ∧ g'.nextEmission = g.nextEmission ∧
        TcpCongestionControl.phase control = .slowStart ∧
        e'.tcpSender flow =
          some (g', { tcp with activeTimer := none, control := control, rtoNs := rtoNs }) := by
  obtain ⟨position, -, h⟩ := Option.bind_eq_some_iff.1 h
  obtain ⟨g₁, hg, h⟩ := Option.bind_eq_some_iff.1 h
  obtain ⟨⟨tcp₁, timer⟩, hfired, h⟩ := Option.bind_eq_some_iff.1 h
  cases h
  have hposition : e.index.firstGenerator g₁.flow = some position :=
    hsole position (HostEntry.flows_getElem? hg)
  obtain ⟨hsender, hkind⟩ := HostEntry.tcpSender_eq_some.1 hs
  rw [HostEntry.sender_eq_some.2 ⟨position, hposition, hg⟩] at hsender
  cases hsender
  unfold firedTimer at hfired
  rw [hkind] at hfired
  obtain ⟨t, ht, heq⟩ := Option.map_eq_some_iff.1 hfired
  cases heq
  obtain ⟨hactive, hmatch⟩ := Option.filter_eq_some_iff.1 ht
  simp only [Bool.and_eq_true, beq_iff_eq] at hmatch
  refine ⟨HostEntry.flows_setGenerator hg rfl, rfl, ⟨timer, hactive, hmatch⟩, _, _, _, ?_, ?_, ?_,
    HostEntry.tcpSender_eq_some.2 ⟨HostEntry.sender_setGenerator hposition hg, rfl⟩⟩
  · rfl
  · rfl
  · cases tcp.control <;> rfl

/-- `host_retransmission_timeout` of a TCP sender, on an entry and the ledger. -/
def timeoutTcp (c : Ctx) (flow : FlowId) (entry : HostEntry) (ledger : TcpSegmentLedger) :
    Option (Except ExecutionError (List PacketDescriptor × HostEntry × TcpSegmentLedger)) :=
  match expireTimer c entry with
  | some (expired, sequence, _, entry) =>
    if expired = flow then
      some do
        let (sent, entry, ledger) ← attemptTcp c flow (some sequence) false false entry ledger
        return (sent.packets, entry, ledger)
    else none
  | none => none

/-- After its timer has expired a sender starts again from its first segment.  One that waits to
send that segment runs no timer. -/
theorem TcpOk.expired (hok : TcpOk g tcp block size) {timer : TcpTimerState}
    (hactive : tcp.activeTimer = some timer) (hemission : g'.nextEmission = g.nextEmission)
    {control : TcpCongestionControl} (hphase : control.phase = .slowStart) (rtoNs : Nat) :
    g.nextEmission.status ≠ .scheduled ∧
      TcpOk g' { tcp with activeTimer := none, control := control, rtoNs := rtoNs } block size := by
  have hfree : g.nextEmission.status ≠ .scheduled := by
    intro hheld
    rw [(hok.held hheld).1] at hactive
    cases hactive
  refine ⟨hfree, hok.tiles, hok.next_le, hok.flight, fun hfast => ?_, by rintro ⟨⟩, ?_, ?_, hok.only⟩
  · rw [hphase] at hfast
    cases hfast
  · intro hheld
    exact absurd (hemission ▸ hheld) hfree
  · intro _ hmore
    exact hok.clear hfree hmore

theorem timeoutTcp_moved (h : timeoutTcp c flow e ledger = some (.ok (packets, e', ledger')))
    (hsole : e.Sole flow) (hs : e.tcpSender flow = some (g, tcp))
    (hok : TcpOk g tcp (ledger.block flow) size) :
    ∃ g' tcp', TcpMoved flow size e ledger tcp packets e' ledger' g' tcp' ∧
      tcp'.highestAck = tcp.highestAck ∧
      (g'.nextEmission.status = .finished → tcp'.totalBytes ≤ tcp'.highestAck) := by
  unfold timeoutTcp at h
  split at h
  · next expired sequence record e₁ hexpire =>
    split at h
    · next heq =>
      subst heq
      obtain ⟨⟨sent, e₂, ledger₂⟩, hattempt, h⟩ := bind_ok (Option.some.inj h)
      cases pure_eq_ok.1 h
      obtain ⟨hflows, rfl, ⟨t, hactive, -⟩, g₁, control, rtoNs, hflow, hemission, hphase, hs₁⟩ :=
        expireTimer_turn hexpire hsole hs
      obtain ⟨hfree, hok₁⟩ := hok.expired hactive hemission hphase rtoNs
      obtain ⟨g', tcp', hmoved, hattempted⟩ := attemptTcp_moved hattempt hs₁ hok₁
        (fun start hstart => by
          cases hstart
          exact hok.timer (by rw [hactive]; rfl))
        ⟨by rintro ⟨⟩, fun _ => by
          rw [hemission]
          exact hfree⟩
      refine ⟨g', tcp', ?_, hattempted.ack, ?_⟩
      · exact ⟨hmoved.sender, hmoved.flows.trans hflows, hmoved.ok, hmoved.total, hmoved.next,
          hmoved.packets, hmoved.others⟩
      · exact hattempted.acked
    · cases h
  · cases h

/-- The sender after its scheduled segment, before the window is filled. -/
theorem tcpInitialSend_turn {header : TcpDataHeader} (h : tcpInitialSend c p header e = .ok e')
    (hs : e.tcpSender p.flow = some (g, tcp)) :
    e'.flows = e.flows ∧ header.sequence = tcp.nextSequence ∧
      g.nextEmission.status = .scheduled ∧
      ∃ g', g'.flow = g.flow ∧ g'.nextEmission.status = .blocked ∧
      e'.tcpSender p.flow = some (g', { tcp with
        nextSequence := tcp.nextSequence + p.sizeBytes
        bytesInFlight := tcp.bytesInFlight + p.sizeBytes
        lastAttempt := p.id }) := by
  obtain ⟨position, hposition, hg, hkind, h⟩ := generatorFor_tcp h hs
  dsimp only at h
  rw [hkind] at h
  obtain ⟨_, hcheck, h⟩ := bind_ok h
  rw [require_eq_ok] at hcheck
  obtain ⟨emitted, -, h⟩ := bind_ok h
  obtain ⟨bytes, -, h⟩ := bind_ok h
  obtain ⟨next, hnext, h⟩ := bind_ok h
  obtain ⟨flight, hflight, h⟩ := bind_ok h
  rw [okOr_eq_ok] at hnext hflight
  obtain rfl := (checkedAdd_eq_some hnext).1
  obtain rfl := (checkedAdd_eq_some hflight).1
  obtain ⟨sourced, rfl⟩ := countSourcedPackets_eq_ok h
  refine ⟨flows_setGenerator hg rfl, hcheck.2.2.2.1, hcheck.1, _, ?_, ?_,
    tcpSender_eq_some.2 ⟨sender_setGenerator hposition hg, rfl⟩⟩
  · rfl
  · rfl

/-- `host_tcp_initial_send` on an entry and the ledger. -/
def initialTcp (c : Ctx) (p : PacketDescriptor) (header : TcpDataHeader) (entry : HostEntry)
    (ledger : TcpSegmentLedger) :
    Except ExecutionError (List PacketDescriptor × HostEntry × TcpSegmentLedger) := do
  let entry ← Prog.liftPlain (tcpInitialSend c p header entry)
  let ledger ← Prog.liftConflict (ledger.seed p)
  let (sent, entry, ledger) ← attemptTcp c p.flow none true false entry ledger
  return (p :: sent.packets, entry, ledger)

/-- The scheduled segment continues the stream; nothing is reserved afterwards. -/
theorem TcpOk.initial (hok : TcpOk g tcp block size) (hheld : g.nextEmission.status = .scheduled)
    (hsize : p.sizeBytes = size) (hpos : 0 < size) (hg : g'.nextEmission.status = .blocked) :
    TcpOk g' { tcp with
        nextSequence := tcp.nextSequence + p.sizeBytes
        bytesInFlight := tcp.bytesInFlight + p.sizeBytes
        lastAttempt := p.id }
      (update block tcp.nextSequence (some p.sizeBytes)) size := by
  subst hsize
  obtain ⟨hnone, hfits, honly⟩ := hok.held hheld
  have hclear : Clear (update block tcp.nextSequence (some p.sizeBytes))
      (tcp.nextSequence + p.sizeBytes) := by
    intro s hs
    rw [update_of_ne (by omega)]
    cases hblock : block s with
    | none => rfl
    | some n =>
      have := honly s n (by omega) hblock
      omega
  have hbelow : update block tcp.nextSequence (some p.sizeBytes) =
      update (below tcp.nextSequence block) tcp.nextSequence (some p.sizeBytes) := by
    funext s
    rcases Nat.lt_trichotomy s tcp.nextSequence with hlt | rfl | hgt
    · rw [update_of_ne (by omega), update_of_ne (by omega), below_of_lt hlt]
    · rw [update_self, update_self]
    · rw [update_of_ne (by omega), update_of_ne (by omega),
        below_of_le (by omega)]
      cases hblock : block s with
      | none => rfl
      | some n =>
        have := honly s n (by omega) hblock
        omega
  have hle := hok.ack_le
  refine ⟨?_, hfits hpos, ?_, ?_, ?_, ?_, fun _ _ => hclear, fun s n hn => ?_⟩
  · dsimp only
    rw [hclear.below_eq, hbelow]
    exact hok.tiles.snoc hpos
  · show tcp.bytesInFlight + p.sizeBytes = tcp.nextSequence + p.sizeBytes - tcp.highestAck
    rw [hok.flight]
    omega
  · intro hphase
    exact Nat.le_trans (hok.recovery hphase) (Nat.le_add_right _ _)
  · intro hactive
    exact Nat.lt_of_lt_of_le (hok.timer hactive) (Nat.le_add_right _ _)
  · intro hagain
    rw [hg] at hagain
    cases hagain
  · by_contra hlt
    cases hn.symm.trans (hclear s (Nat.le_of_not_le hlt))

theorem initialTcp_moved {header : TcpDataHeader} (hp : p.kind = .tcpData header)
    (h : initialTcp c p header e ledger = .ok (packets, e', ledger'))
    (hs : e.tcpSender p.flow = some (g, tcp)) (hok : TcpOk g tcp (ledger.block p.flow) size)
    (hsize : g.nextEmission.status = .scheduled → p.sizeBytes = size ∧ 0 < size) :
    ∃ g' tcp', TcpMoved p.flow size e ledger tcp packets e' ledger' g' tcp' ∧
      tcp'.highestAck = tcp.highestAck ∧
      (g'.nextEmission.status = .finished → tcp'.totalBytes ≤ tcp'.highestAck) := by
  obtain ⟨e₁, hinitial, h⟩ := bind_ok h
  obtain ⟨ledger₁, hseed, h⟩ := bind_ok h
  obtain ⟨⟨sent, e₂, ledger₂⟩, hattempt, h⟩ := bind_ok h
  rw [liftPlain_eq_ok] at hinitial
  rw [liftConflict_eq_ok] at hseed
  cases pure_eq_ok.1 h
  obtain ⟨hflows, hseq, hheld, g₁, hflow, hblocked, hs₁⟩ := tcpInitialSend_turn hinitial hs
  obtain ⟨ledger₂, hseed', hblock, hothers⟩ := TcpSegmentLedger.seed_block ledger hp fun n hn => by
    rw [hseq] at hn
    rw [(hsize hheld).1]
    exact ((hok.held hheld).2.2 _ _ (Nat.le_refl _) hn).2 (hsize hheld).2
  rw [hseed] at hseed'
  cases hseed'
  rw [hseq] at hblock
  have hok₁ := hok.initial hheld (hsize hheld).1 (hsize hheld).2 hblocked
  rw [← hblock] at hok₁
  obtain ⟨g', tcp', hmoved, hattempted⟩ := attemptTcp_moved hattempt hs₁ hok₁
    (by rintro _ ⟨⟩) ⟨fun _ => rfl, fun _ => by rw [hblocked]; simp⟩
  refine ⟨g', tcp', ?_, hattempted.ack, ?_⟩
  · refine ⟨hmoved.sender, hmoved.flows.trans hflows, hmoved.ok, hmoved.total,
      Nat.le_trans (Nat.le_add_right _ _) hmoved.next, ?_,
      fun other hne => (hmoved.others other hne).trans (hothers other hne)⟩
    intro q hq
    rcases List.mem_cons.1 hq with rfl | hq
    · exact ⟨rfl, header, hp, by rw [hseq]; exact hmoved.next⟩
    · exact hmoved.packets q hq
  · exact hattempted.acked

end Days
