/-
  Days.Logic.HostPure — what the pure halves of the host handlers do to an entry
  and to the source they serve.
-/
import Days.Logic.Config

namespace Days

open HostEntry

variable {e e' : HostEntry} {roce' : RoceGenerator}

variable {g g' : FlowGeneratorState} {flow : FlowId} {roce : RoceGenerator} {c : Ctx}
  {e : HostEntry}

/-! ## §1. Counters. -/

def HostEntry.bump (e : HostEntry) : HostEntry :=
  { e with state := { e.state with nextOriginSeq := e.state.nextOriginSeq + 1 } }

/-- Two descriptors that differ at most in the ECN mark. -/
def PacketDescriptor.SameUnmarked (a b : PacketDescriptor) : Prop :=
  a.id = b.id ∧ a.flow = b.flow ∧ a.sizeBytes = b.sizeBytes ∧ a.kind = b.kind

theorem HostEntry.allocatePayload_eq_ok {id : PayloadId} (h : e.allocatePayload c = .ok (id, e')) :
    id = e.state.nextPayloadSeq * c.nodeCount + c.node.id ∧
      e' = { e with state := { e.state with nextPayloadSeq := e.state.nextPayloadSeq + 1 } } := by
  obtain ⟨payload, hpayload, h⟩ := bind_ok h
  obtain ⟨next, hnext, ⟨⟩⟩ := bind_pure_ok h
  rw [okOr_eq_ok] at hnext
  rw [allocatePayloadId, okOr_eq_ok] at hpayload
  rw [(checkedAdd_eq_some hnext).1]
  exact ⟨PayloadId.fromNodeSequence_eq_some hpayload, rfl⟩

theorem HostEntry.countSourcedPackets_eq_ok {n : Nat} (h : e.countSourcedPackets c n = .ok e') :
    ∃ sourced, e' = { e with state := { e.state with sourcedPackets := sourced } } := by
  obtain ⟨sourced, -, h⟩ := bind_ok h
  exact ⟨sourced, (pure_eq_ok.1 h).symm⟩

theorem applyGeneratorFeedback_eq_ok {node : NodeId} (h : applyGeneratorFeedback node g = .ok g') :
    ∃ feedback, g' = { g with feedback } := by
  obtain ⟨arrivals, -, h⟩ := bind_ok h
  exact ⟨_, (pure_eq_ok.1 h).symm⟩

theorem applyGeneratorFeedback_bind {node : NodeId} {α : Type} {a : α}
    {f : FlowGeneratorState → Except PlainError α}
    (h : (applyGeneratorFeedback node g >>= f) = .ok a) : ∃ feedback, f { g with feedback } = .ok a := by
  obtain ⟨g', hg', h⟩ := bind_ok h
  obtain ⟨feedback, rfl⟩ := applyGeneratorFeedback_eq_ok hg'
  exact ⟨feedback, h⟩

/-! ## §2. Paced sources. -/

/-- What a tick of a paced source `g` leaves. -/
structure Ticked (c : Ctx) (p : PacketDescriptor) (rate : RateGenerator) (e : HostEntry)
    (g : FlowGeneratorState) (paced : Paced) : Prop where
  generators : paced.entry.state.generators = e.state.generators
  flow : paced.generator.flow = g.flow
  bytes : paced.generator.bytesEmitted =
    g.bytesEmitted + if paced.emitted then p.sizeBytes else 0
  last : paced.nextTimer = none → paced.nextPacket = none
  next : ∀ id time, paced.nextTimer = some (id, time) → c.now ≤ time ∧
    paced.generator.nextEmission.payload = id ∧ paced.generator.bytesEmitted < rate.totalBytes ∧
    if paced.emitted then ∃ seq, e.state.nextPayloadSeq ≤ seq ∧
        seq < paced.entry.state.nextPayloadSeq ∧ id = seq * c.nodeCount + c.node.id ∧
        paced.nextPacket = some ⟨id, p.flow,
          min rate.packetSizeBytes (rate.totalBytes - paced.generator.bytesEmitted), false, .data⟩
      else id = p.id ∧ paced.nextPacket = none

theorem spendTick_spec {p : PacketDescriptor} {credit cost left : Nat}
    {emitted : Bool} (h : spendTick c p credit cost e g = .ok (emitted, left, e', g')) :
    (∃ sourced, e' = { e with state := { e.state with sourcedPackets := sourced } }) ∧ g'.flow = g.flow ∧
      (emitted = true ∧ left + cost = credit ∧ g'.bytesEmitted = g.bytesEmitted + p.sizeBytes ∨
        emitted = false ∧ credit < cost ∧ left = credit ∧ g'.bytesEmitted = g.bytesEmitted) := by
  unfold spendTick at h
  split at h
  · next hpays =>
    obtain ⟨count, -, h⟩ := bind_ok h
    obtain ⟨bytes, hbytes, h⟩ := bind_ok h
    obtain ⟨e₁, hcount, ⟨⟩⟩ := bind_pure_ok h
    rw [okOr_eq_ok] at hbytes
    exact ⟨countSourcedPackets_eq_ok hcount, rfl,
      .inl ⟨rfl, Nat.sub_add_cancel hpays, (checkedAdd_eq_some hbytes).1⟩⟩
  · next hshort =>
    cases h
    exact ⟨⟨_, rfl⟩, rfl, .inr ⟨rfl, Nat.lt_of_not_le hshort, rfl, rfl⟩⟩

theorem nextTick_spec {rate : RateGenerator} {time : Nat}
    (h : nextTick c flow rate g = .ok (some time)) :
    g.bytesEmitted < rate.totalBytes ∧ time = c.now + rate.pacingIntervalNs := by
  unfold nextTick at h
  split at h
  · cases h
  · next hmore =>
    obtain ⟨next, hnext, ⟨⟩⟩ := bind_pure_ok h
    rw [okOr_eq_ok] at hnext
    exact ⟨Nat.lt_of_not_le hmore, (checkedAdd_eq_some hnext).1⟩

/-- A packet that was sent is replaced by a new one, a packet that was not is kept. -/
theorem nextToken_spec {p token : PacketDescriptor} {size left : Nat} {emitted : Bool}
    (h : nextToken c p size left emitted e = .ok (token, e')) :
    emitted = true ∧ e.allocatePayload c = .ok (token.id, e') ∧
        token = ⟨token.id, p.flow, min size left, false, .data⟩ ∨
      emitted = false ∧ token = p ∧ e' = e := by
  cases emitted with
  | true =>
    obtain ⟨⟨payload, e₁⟩, halloc, ⟨⟩⟩ := bind_pure_ok h
    exact .inl ⟨rfl, halloc, rfl⟩
  | false =>
    cases h
    exact .inr ⟨rfl, rfl, rfl⟩

theorem paceStep_ticked {p : PacketDescriptor} {rate : RateGenerator} {rateBps : Nat}
    {paced : Paced} (h : paceStep c p rate rateBps e g = .ok paced) :
    Ticked c p rate e g paced ∧ ∃ sourced seq,
      paced.entry = { e with state := { e.state with sourcedPackets := sourced, nextPayloadSeq := seq } } := by
  obtain ⟨scale, -, h⟩ := bind_ok h
  obtain ⟨tickCredit, -, h⟩ := bind_ok h
  obtain ⟨cost, -, h⟩ := bind_ok h
  obtain ⟨credit, -, h⟩ := bind_ok h
  obtain ⟨⟨emitted, left, e₁, g₁⟩, hspend, h⟩ := bind_ok h
  obtain ⟨candidate, hcandidate, h⟩ := bind_ok h
  obtain ⟨⟨sourced, rfl⟩, hflow, hspent⟩ := spendTick_spec hspend
  have hbytes : g₁.bytesEmitted = g.bytesEmitted + if emitted then p.sizeBytes else 0 := by
    obtain ⟨rfl, -, h⟩ | ⟨rfl, -, -, h⟩ := hspent
    · exact h
    · exact h
  split at h
  · next time htime =>
    obtain ⟨rfl, -⟩ := Option.filter_eq_some_iff.1 htime
    obtain ⟨hmore, rfl⟩ := nextTick_spec hcandidate
    obtain ⟨⟨token, e₂⟩, htoken, h⟩ := bind_ok h
    obtain ⟨nextCost, -, ⟨⟩⟩ := bind_pure_ok h
    obtain ⟨rfl, halloc, htoken⟩ | ⟨rfl, rfl, rfl⟩ := nextToken_spec htoken
    · obtain ⟨hid, he₂⟩ := allocatePayload_eq_ok halloc
      refine ⟨⟨by rw [he₂], hflow, hbytes, by simp, ?_⟩, sourced, _, he₂⟩
      rintro id time' ⟨rfl, rfl⟩
      exact ⟨Nat.le_add_right _ _, rfl, hmore, e.state.nextPayloadSeq, le_rfl, by simp [he₂], hid,
        congrArg some htoken⟩
    · refine ⟨⟨rfl, hflow, hbytes, by simp, ?_⟩, sourced, _, rfl⟩
      rintro id time' ⟨rfl, rfl⟩
      exact ⟨Nat.le_add_right _ _, rfl, hmore, rfl, rfl⟩
  · cases pure_eq_ok.1 h
    exact ⟨⟨rfl, hflow, hbytes, fun _ => rfl, by simp⟩, sourced, _, rfl⟩

/-! ## §3. Queue pairs. -/

/-- The configuration of a queue pair. -/
def RoceGenerator.config (roce : RoceGenerator) : GeneratorConfig :=
  .roce roce.pacer.mtuBytes roce.pacer.totalBytes roce.pacer.pacingIntervalNs roce.pacingTimerPayload

theorem restartRocePacer_spec {tick : Option Nat}
    (h : restartRocePacer c g roce = .ok (tick, g', roce')) :
    g'.flow = g.flow ∧ g'.bytesEmitted = g.bytesEmitted ∧ roce'.config = roce.config ∧
      roce'.nextPsn = roce.nextPsn ∧ roce'.sndUna = roce.sndUna := by
  unfold restartRocePacer at h
  dsimp only at h
  split at h
  · cases h
    exact ⟨rfl, rfl, rfl, rfl, rfl⟩
  · obtain ⟨time, -, h⟩ := bind_ok h
    split at h
    · cases pure_eq_ok.1 h
      exact ⟨rfl, rfl, rfl, rfl, rfl⟩
    · cases pure_eq_ok.1 h
      exact ⟨rfl, rfl, rfl, rfl, rfl⟩

/-- The packet a queue pair may send, and what remains of the pair. -/
structure RoceSent (c : Ctx) (e : HostEntry) (g : FlowGeneratorState) (roce : RoceGenerator)
    (s : RoceSend) : Prop where
  entry : ∃ n sourced, e.state.nextPayloadSeq ≤ n ∧ s.entry = { e with
    state := { e.state with nextPayloadSeq := n, sourcedPackets := sourced } }
  flow : s.generator.flow = g.flow
  config : s.roce.config = roce.config
  una : s.roce.sndUna = roce.sndUna
  kept : s.emission = none → s.roce.nextPsn = roce.nextPsn
  sent : ∀ em, s.emission = some em → em.psn = roce.nextPsn ∧
    em.bytes = Roce.packetSize roce roce.nextPsn ∧ s.roce.nextPsn = roce.nextPsn + em.bytes ∧
    roce.nextPsn < roce.pacer.totalBytes ∧
    ∃ seq, e.state.nextPayloadSeq ≤ seq ∧ seq < s.entry.state.nextPayloadSeq ∧
      em.payload = seq * c.nodeCount + c.node.id

theorem countFirstSend_spec {again : Bool} {stop : Nat} (h : countFirstSend c again stop g = .ok g') :
    g'.flow = g.flow ∧ g'.bytesEmitted = if again then g.bytesEmitted else stop := by
  unfold countFirstSend at h
  split at h
  · next hagain =>
    cases h
    exact ⟨rfl, (if_pos hagain).symm⟩
  · next hfirst =>
    obtain ⟨emitted, -, ⟨⟩⟩ := bind_pure_ok h
    exact ⟨rfl, (if_neg hfirst).symm⟩

theorem roceSendPacket_sent {credit : Nat} {s : RoceSend}
    (hmore : roce.nextPsn < roce.pacer.totalBytes)
    (h : roceSendPacket c flow (Roce.packetSize roce roce.nextPsn)
      ⟨e, g, { roce with pacer := { roce.pacer with creditQuanta := credit } }, none, none⟩ = .ok s) :
    RoceSent c e g roce s ∧ ∃ em, s.emission = some em ∧ s.generator.bytesEmitted =
      if roce.nextPsn < g.bytesEmitted then g.bytesEmitted else roce.nextPsn + em.bytes := by
  obtain ⟨⟨payload, e₁⟩, halloc, h⟩ := bind_ok h
  obtain ⟨e₂, hcount, h⟩ := bind_ok h
  obtain ⟨g', hfirst, h⟩ := bind_ok h
  obtain ⟨hid, rfl⟩ := allocatePayload_eq_ok halloc
  obtain ⟨sourced, rfl⟩ := countSourcedPackets_eq_ok hcount
  obtain ⟨hflow, hbytes⟩ := countFirstSend_spec hfirst
  simp only [decide_eq_true_eq] at hbytes
  split at h
  · obtain ⟨deadline, -, ⟨⟩⟩ := bind_pure_ok h
    refine ⟨⟨⟨_, sourced, Nat.le_succ _, rfl⟩, hflow, rfl, rfl, by simp, ?_⟩, _, rfl, hbytes⟩
    rintro em ⟨rfl⟩
    exact ⟨rfl, rfl, rfl, hmore, _, le_rfl, Nat.lt_succ_self _, hid⟩
  · cases pure_eq_ok.1 h
    refine ⟨⟨⟨_, sourced, Nat.le_succ _, rfl⟩, hflow, rfl, rfl, by simp, ?_⟩, _, rfl, hbytes⟩
    rintro em ⟨rfl⟩
    exact ⟨rfl, rfl, rfl, hmore, _, le_rfl, Nat.lt_succ_self _, hid⟩

/-- Only a packet sent for the first time moves the high-water mark. -/
theorem roceSending_sent {s : RoceSend} (h : roceSending c flow ⟨e, g, roce, none, none⟩ = .ok s) :
    RoceSent c e g roce s ∧ (s.emission = none ∧ s.generator.bytesEmitted = g.bytesEmitted ∨
      ∃ em, s.emission = some em ∧ s.generator.bytesEmitted =
        if roce.nextPsn < g.bytesEmitted then g.bytesEmitted else roce.nextPsn + em.bytes) := by
  have hentry : ∃ n sourced, e.state.nextPayloadSeq ≤ n ∧ e = { e with
      state := { e.state with nextPayloadSeq := n, sourcedPackets := sourced } } :=
    ⟨_, _, le_rfl, rfl⟩
  unfold roceSending at h
  split at h
  · next hmore =>
    obtain ⟨scale, -, h⟩ := bind_ok h
    obtain ⟨tick, -, h⟩ := bind_ok h
    obtain ⟨credit, -, h⟩ := bind_ok h
    obtain ⟨cost, -, h⟩ := bind_ok h
    split at h
    · exact (roceSendPacket_sent hmore h).imp_right .inr
    · cases pure_eq_ok.1 h
      exact ⟨⟨hentry, rfl, rfl, rfl, fun _ => rfl, by simp⟩, .inl ⟨rfl, rfl⟩⟩
  · cases h
    exact ⟨⟨hentry, rfl, rfl, rfl, fun _ => rfl, by simp⟩, .inl ⟨rfl, rfl⟩⟩

theorem roceNextTick_spec {status : GeneratorStatus}
    (h : roceNextTick c flow g roce = .ok (status, g', roce')) :
    g'.flow = g.flow ∧ g'.bytesEmitted = g.bytesEmitted ∧ roce'.config = roce.config ∧
      roce'.nextPsn = roce.nextPsn ∧ roce'.sndUna = roce.sndUna := by
  unfold roceNextTick at h
  split at h
  · obtain ⟨next, -, h⟩ := bind_ok h
    split at h
    · cases pure_eq_ok.1 h
      exact ⟨rfl, rfl, rfl, rfl, rfl⟩
    · cases pure_eq_ok.1 h
      exact ⟨rfl, rfl, rfl, rfl, rfl⟩
  · cases h
    exact ⟨rfl, rfl, rfl, rfl, rfl⟩

theorem rearmRoceTimer_spec {timer : Option Nat}
    (h : rearmRoceTimer c flow g roce = .ok (timer, roce')) :
    roce'.config = roce.config ∧ roce'.nextPsn = roce.nextPsn ∧ roce'.sndUna = roce.sndUna := by
  unfold rearmRoceTimer at h
  split at h
  · cases h
    exact ⟨rfl, rfl, rfl⟩
  · split at h
    · obtain ⟨deadline, -, ⟨⟩⟩ := bind_pure_ok h
      exact ⟨rfl, rfl, rfl⟩
    · cases h
      exact ⟨rfl, rfl, rfl⟩

/-- Feedback leaves the window, or moves it to the acknowledged position. -/
theorem roceAcknowledge_spec {acknowledgment : Nat} {nack : Bool} {window : RoceWindow}
    (h : roceAcknowledge c flow acknowledgment nack g roce = .ok window) :
    window.generator.flow = g.flow ∧ window.generator.bytesEmitted = g.bytesEmitted ∧
      window.roce.config = roce.config ∧
      (window.roce.sndUna = roce.sndUna ∧ window.roce.nextPsn = roce.nextPsn ∨
        window.roce.sndUna = max roce.sndUna acknowledgment ∧ window.roce.nextPsn =
          if nack then max roce.sndUna acknowledgment
          else max roce.nextPsn (max roce.sndUna acknowledgment)) := by
  unfold roceAcknowledge at h
  extract_lets stale at h
  split at h
  · cases h
    exact ⟨rfl, rfl, rfl, .inl ⟨rfl, rfl⟩⟩
  · obtain ⟨⟨timer, roce₁⟩, htimer, h⟩ := bind_ok h
    obtain ⟨⟨tick, g', roce₂⟩, htick, ⟨⟩⟩ := bind_pure_ok h
    obtain ⟨hconfig₁, hpsn₁, huna₁⟩ := rearmRoceTimer_spec htimer
    obtain ⟨hflow, hbytes, hconfig₂, hpsn₂, huna₂⟩ := restartRocePacer_spec htick
    exact ⟨hflow, hbytes, hconfig₂.trans hconfig₁, .inr ⟨huna₂.trans huna₁, hpsn₂.trans hpsn₁⟩⟩

end Days
