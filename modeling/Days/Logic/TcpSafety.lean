/-
  Days.Logic.TcpSafety — TCP between a sender and a receiver.

  The sender's host takes the steps of `scalar.rs` on one flow: its scheduled first
  segment, acknowledgments, timeouts and the release of a stage; the receiver's host
  takes arriving segments.  Between them the network may do anything to the packets
  in flight, and the hosts may do anything that leaves the flow alone.  A history
  variable records the segments that have arrived.
-/
import Days.Logic.TcpSender

namespace Days

open List HostEntry Option

variable {P : Nat → Prop} {p : PacketDescriptor}

variable {c : Ctx} {e e' : HostEntry} {flow : FlowId} {g g' : FlowGeneratorState}
  {tcp tcp' : TcpGenerator} {ledger ledger' : TcpSegmentLedger}

/-! ## §1. Receiving ranges. -/

/-- A range all of whose bytes satisfy `P`. -/
def TcpReceiveRange.Within (P : Nat → Prop) (range : TcpReceiveRange) : Prop :=
  ∀ b, range.start ≤ b → b < range.stop → P b

/-- Merging adjacent ranges adds no byte. -/
theorem mergeRange_within {merged : List TcpReceiveRange} {range : TcpReceiveRange}
    (hmerged : ∀ r ∈ merged, r.Within P) (hrange : range.Within P) :
    ∀ r ∈ mergeRange merged range, r.Within P := by
  unfold mergeRange
  split
  · next last hlast =>
    have hlast' := hmerged last (mem_of_getLast? hlast)
    split
    · next hadjacent =>
      refine forall_mem_append.2
        ⟨fun r hr => hmerged r (mem_of_mem_dropLast hr), forall_mem_singleton.2 ?_⟩
      intro b hstart hstop
      -- A byte behind the last range lies in the merged one.
      by_cases hb : b < last.stop
      · exact hlast' b hstart hb
      · exact hrange b (by omega) (by dsimp only at hstop; omega)
    · exact forall_mem_append.2 ⟨hmerged, forall_mem_singleton.2 hrange⟩
  · exact forall_mem_singleton.2 hrange

theorem foldl_mergeRange_within (ranges merged : List TcpReceiveRange)
    (hmerged : ∀ r ∈ merged, r.Within P) (hranges : ∀ r ∈ ranges, r.Within P) :
    ∀ r ∈ ranges.foldl mergeRange merged, r.Within P := by
  induction ranges generalizing merged with
  | nil => exact hmerged
  | cons range rest ih =>
    refine ih _ (mergeRange_within hmerged (hranges range mem_cons_self)) ?_
    exact fun r hr => hranges r (mem_cons_of_mem _ hr)

/-- The frontier moves over bytes of the ranges only. -/
theorem foldl_absorbRange_within (ranges : List TcpReceiveRange) (acc : Nat × List TcpReceiveRange)
    (hbelow : ∀ b, b < acc.1 → P b) (hkept : ∀ r ∈ acc.2, r.Within P)
    (hranges : ∀ r ∈ ranges, r.Within P) :
    acc.1 ≤ (ranges.foldl absorbRange acc).1 ∧
      (∀ b, b < (ranges.foldl absorbRange acc).1 → P b) ∧
      ∀ r ∈ (ranges.foldl absorbRange acc).2, r.Within P := by
  induction ranges generalizing acc with
  | nil => exact ⟨Nat.le_refl _, hbelow, hkept⟩
  | cons range rest ih =>
    have hrange := hranges range mem_cons_self
    have hrest : ∀ r ∈ rest, r.Within P := fun r hr => hranges r (mem_cons_of_mem _ hr)
    rw [foldl_cons]
    by_cases hreach : range.start ≤ acc.1
    · have hstep : absorbRange acc range = (max acc.1 range.stop, acc.2) := by
        unfold absorbRange
        rw [if_pos hreach]
      rw [hstep]
      obtain ⟨hle, hgoal⟩ := ih (max acc.1 range.stop, acc.2) (fun b hb => by
        by_cases hb' : b < acc.1
        · exact hbelow b hb'
        · exact hrange b (by omega) (by dsimp only at hb; omega)) hkept hrest
      exact ⟨Nat.le_trans (Nat.le_max_left _ _) hle, hgoal⟩
    · have hstep : absorbRange acc range = (acc.1, acc.2 ++ [range]) := by
        unfold absorbRange
        rw [if_neg hreach]
      rw [hstep]
      refine ih (acc.1, acc.2 ++ [range]) hbelow ?_ hrest
      exact forall_mem_append.2 ⟨hkept, forall_mem_singleton.2 hrange⟩

/-- The receiver holds bytes of `P` only. -/
structure TcpReceiverState.Holds (r : TcpReceiverState) (P : Nat → Prop) : Prop where
  below : ∀ b, b < r.nextExpectedSequence → P b
  ranges : ∀ range ∈ r.outOfOrder, range.Within P

theorem TcpReceiverState.Holds.mono {r : TcpReceiverState} {Q : Nat → Prop} (h : r.Holds P)
    (hPQ : ∀ b, P b → Q b) : r.Holds Q :=
  ⟨fun b hb => hPQ b (h.below b hb), fun range hr b h₁ h₂ => hPQ b (h.ranges range hr b h₁ h₂)⟩

/-- An arriving segment adds its own bytes at most. -/
theorem tcpReceiveRange_holds {r : TcpReceiverState} (start stop : Nat) (h : r.Holds P)
    (harrived : ∀ b, start ≤ b → b < stop → P b) :
    r.nextExpectedSequence ≤ (tcpReceiveRange r start stop).nextExpectedSequence ∧
      (tcpReceiveRange r start stop).Holds P ∧ (tcpReceiveRange r start stop).flow = r.flow := by
  unfold tcpReceiveRange
  split
  · exact ⟨Nat.le_refl _, h, rfl⟩
  · dsimp only
    have hsorted : ∀ (le : TcpReceiveRange → TcpReceiveRange → Prop) [DecidableRel le],
        ∀ range ∈ (r.outOfOrder ++ [(⟨start, stop⟩ : TcpReceiveRange)]).insertionSort le,
          range.Within P := by
      intro le _ range hrange
      rw [mem_insertionSort] at hrange
      rcases mem_append.1 hrange with hrange | hrange
      · exact h.ranges range hrange
      · rw [mem_singleton] at hrange
        subst hrange
        exact harrived
    have hmerged := foldl_mergeRange_within _ [] (by simp)
      (hsorted fun a b => a.start < b.start ∨ a.start = b.start ∧ a.stop ≤ b.stop)
    obtain ⟨hle, hbelow, hkept⟩ := foldl_absorbRange_within _ (r.nextExpectedSequence, []) h.below
      (by simp) hmerged
    exact ⟨hle, ⟨hbelow, hkept⟩, rfl⟩

/-! ## §2. The receiver of a flow. -/

def HostEntry.tcpReceiver (e : HostEntry) (flow : FlowId) : Option TcpReceiverState :=
  (e.index.firstReceiver flow).bind fun position => e.state.tcpReceivers[position]?

/-- What an arriving segment does to the receiver, and the acknowledgment it sends. -/
theorem tcpDataArrival_turn {ack : PacketDescriptor} {header : TcpDataHeader}
    {causes : PendingCauses} {r : TcpReceiverState}
    (h : tcpDataArrival c p header e = .ok (ack, e', causes)) (hr : e.tcpReceiver p.flow = some r) :
    e'.tcpReceiver p.flow =
        some (tcpReceiveRange r header.sequence (header.sequence + p.sizeBytes)) ∧
      ack.flow = p.flow ∧ ∃ reply : TcpAckHeader, ack.kind = .tcpAck reply ∧
        reply.acknowledgment =
          (tcpReceiveRange r header.sequence (header.sequence + p.sizeBytes)).nextExpectedSequence := by
  obtain ⟨position, hposition, h⟩ := bind_ok h
  obtain ⟨r', hr', h⟩ := bind_ok h
  rw [okOr_eq_ok] at hposition hr'
  have hsame : r' = r := by
    unfold tcpReceiver at hr
    rw [hposition, bind_some, hr'] at hr
    exact some.inj hr
  subst hsame
  obtain ⟨stop, hstop, h⟩ := bind_ok h
  rw [okOr_eq_ok] at hstop
  obtain rfl := (checkedAdd_eq_some hstop).1
  obtain ⟨⟨e₁, causes₁⟩, hprogress, h⟩ := bind_ok h
  obtain ⟨⟨payload, e₂⟩, halloc, h⟩ := bind_ok h
  obtain ⟨count, -, h⟩ := bind_ok h
  obtain ⟨e₃, hcount, ⟨⟩⟩ := bind_pure_ok h
  obtain ⟨stages, views, rfl⟩ := recordInboundProgress_stages hprogress
  obtain ⟨-, rfl⟩ := allocatePayload_eq_ok halloc
  obtain ⟨sourced, rfl⟩ := countSourcedPackets_eq_ok hcount
  refine ⟨?_, rfl, _, rfl, rfl⟩
  have hlt : position < e.state.tcpReceivers.length := (List.getElem?_eq_some_iff.1 hr').1
  unfold tcpReceiver
  show (e.index.firstReceiver p.flow).bind _ = _
  rw [hposition, bind_some]
  rw [getElem?_set_self hlt]

/-! ## §3. The pair and its steps. -/

structure TcpPair where
  source : HostEntry
  ledger : TcpSegmentLedger
  target : HostEntry
  /-- The first segment of a flow that starts by itself, until it is sent. -/
  scheduled : Option PacketDescriptor
  /-- The packets of the flow that are in flight. -/
  wire : List PacketDescriptor
  /-- History: the segments that have arrived, as start and end. -/
  arrived : List (Nat × Nat)

/-- A step of the pair: a handler of one host on this flow, the network, or work of
the hosts elsewhere. -/
inductive TcpStep (flow : FlowId) : TcpPair → TcpPair → Prop
  | initial {s : TcpPair} (c : Ctx) {p : PacketDescriptor} {header : TcpDataHeader}
    {packets : List PacketDescriptor} {source : HostEntry} {ledger : TcpSegmentLedger} :
    s.scheduled = some p → p.kind = .tcpData header →
    initialTcp c p header s.source s.ledger = .ok (packets, source, ledger) →
    TcpStep flow s { s with source, ledger, scheduled := none, wire := s.wire ++ packets }
  | release {s : TcpPair} (c : Ctx) {plan : TcpSendPlan} {source : HostEntry}
    {ledger : TcpSegmentLedger} :
    (s.source.sender flow).map (·.nextEmission.status) = some .blocked →
    attemptTcp c flow none true false s.source s.ledger = .ok (plan, source, ledger) →
    TcpStep flow s { s with source, ledger, wire := s.wire ++ plan.packets }
  | ack {s : TcpPair} (c : Ctx) {p : PacketDescriptor} {rest : List PacketDescriptor}
    {header : TcpAckHeader} {packets : List PacketDescriptor} {source : HostEntry}
    {ledger : TcpSegmentLedger} :
    s.wire = p :: rest → p.kind = .tcpAck header →
    ackTcp c p header s.source s.ledger = .ok (packets, source, ledger) →
    TcpStep flow s { s with source, ledger, wire := rest ++ packets }
  | timeout {s : TcpPair} (c : Ctx) {packets : List PacketDescriptor} {source : HostEntry}
    {ledger : TcpSegmentLedger} :
    timeoutTcp c flow s.source s.ledger = some (.ok (packets, source, ledger)) →
    TcpStep flow s { s with source, ledger, wire := s.wire ++ packets }
  | data {s : TcpPair} (c : Ctx) {p : PacketDescriptor} {rest : List PacketDescriptor}
    {header : TcpDataHeader} {ack : PacketDescriptor} {target : HostEntry}
    {causes : PendingCauses} :
    s.wire = p :: rest → p.kind = .tcpData header →
    tcpDataArrival c p header s.target = .ok (ack, target, causes) →
    TcpStep flow s { s with
      target
      wire := rest ++ [ack]
      arrived := s.arrived ++ [(header.sequence, header.sequence + p.sizeBytes)] }
  | network {s : TcpPair} {wire : List PacketDescriptor} :
    Carries s.wire wire → TcpStep flow s { s with wire }
  | elsewhere {s : TcpPair} {source target : HostEntry} {ledger : TcpSegmentLedger} :
    source.sender flow = s.source.sender flow → source.flows = s.source.flows →
    target.tcpReceiver flow = s.target.tcpReceiver flow →
    ledger.block flow = s.ledger.block flow →
    TcpStep flow s { s with source, target, ledger }

/-- A flow that has sent and received nothing.  A flow that starts by itself has its
first segment scheduled; the ledger may remember it already. -/
structure TcpPair.Fresh (flow : FlowId) (s : TcpPair) : Prop where
  sender : ∃ g tcp, s.source.tcpSender flow = some (g, tcp) ∧ tcp.nextSequence = 0 ∧
    tcp.highestAck = 0 ∧ tcp.bytesInFlight = 0 ∧ tcp.control.phase ≠ .fastRecovery ∧
    tcp.activeTimer = none ∧ g.nextEmission.status ≠ .finished ∧
    (g.nextEmission.status ≠ .scheduled → s.scheduled = none) ∧
    (g.nextEmission.status = .scheduled → ∃ p, s.scheduled = some p ∧ p.flow = flow ∧
      0 < p.sizeBytes ∧ p.sizeBytes ≤ tcp.totalBytes)
  sole : s.source.Sole flow
  receiver : ∃ r, s.target.tcpReceiver flow = some r ∧ r.nextExpectedSequence = 0 ∧
    r.outOfOrder = []
  ledger : ∀ sequence p, s.ledger.segment flow sequence = some p →
    sequence = 0 ∧ s.scheduled = some p
  wire : s.wire = []
  arrived : s.arrived = []

/-- A byte that has arrived. -/
def TcpPair.Arrived (s : TcpPair) (b : Nat) : Prop :=
  ∃ segment ∈ s.arrived, segment.1 ≤ b ∧ b < segment.2

/-! ## §4. The invariant. -/

/-- What the ends may rely on about a packet in flight. -/
def TcpInFlight (flow : FlowId) (next expected : Nat) (p : PacketDescriptor) : Prop :=
  p.flow = flow ∧
    match p.kind with
    | .tcpData header => header.sequence + p.sizeBytes ≤ next
    | .tcpAck header => header.acknowledgment ≤ expected
    | _ => True

theorem TcpInFlight.mono {next next' expected expected' : Nat}
    (h : TcpInFlight flow next expected p) (hnext : next ≤ next') (hexpected : expected ≤ expected') :
    TcpInFlight flow next' expected' p := by
  refine ⟨h.1, ?_⟩
  replace h := h.2
  split at h
  · exact Nat.le_trans h hnext
  · exact Nat.le_trans h hexpected
  · trivial

theorem TcpInFlight.marked {next expected : Nat} {q : PacketDescriptor} (hsame : p.SameUnmarked q)
    (h : TcpInFlight flow next expected q) : TcpInFlight flow next expected p := by
  obtain ⟨-, hflow, hsize, hkind⟩ := hsame
  unfold TcpInFlight at h ⊢
  rw [hflow, hsize, hkind]
  exact h

structure TcpPair.Safe (flow : FlowId) (size : Nat) (g : FlowGeneratorState) (tcp : TcpGenerator)
    (r : TcpReceiverState) (s : TcpPair) : Prop where
  sender : s.source.tcpSender flow = some (g, tcp)
  sole : s.source.Sole flow
  ok : TcpOk g tcp (s.ledger.block flow) size
  scheduled : ∀ p, s.scheduled = some p → p.flow = flow ∧ p.sizeBytes = size ∧ 0 < size
  receiver : s.target.tcpReceiver flow = some r
  holds : r.Holds s.Arrived
  arrived : ∀ segment ∈ s.arrived, segment.2 ≤ tcp.nextSequence
  acked : tcp.highestAck ≤ r.nextExpectedSequence
  wire : ∀ p ∈ s.wire, TcpInFlight flow tcp.nextSequence r.nextExpectedSequence p
  finished : g.nextEmission.status = .finished → tcp.totalBytes ≤ tcp.highestAck

namespace TcpPair

variable {s s' : TcpPair} {r : TcpReceiverState} {size : Nat}

/-- The receiver expects no byte that was never sent. -/
theorem Safe.expected_le (h : s.Safe flow size g tcp r) :
    r.nextExpectedSequence ≤ tcp.nextSequence := by
  by_contra hlt
  obtain ⟨segment, hmem, -, hb⟩ := h.holds.below tcp.nextSequence (by omega)
  have := h.arrived segment hmem
  omega

/-- The blocks of a fresh flow: at most its scheduled first segment. -/
theorem Fresh.block_eq (h : s.Fresh flow) {sequence n : Nat}
    (hblock : s.ledger.block flow sequence = some n) :
    sequence = 0 ∧ ∃ p, s.scheduled = some p ∧ n = p.sizeBytes := by
  obtain ⟨p, hp, rfl⟩ := map_eq_some_iff.1 hblock
  obtain ⟨rfl, hscheduled⟩ := h.ledger sequence p hp
  exact ⟨rfl, p, hscheduled, rfl⟩

theorem Fresh.ok (h : s.Fresh flow) : ∃ g tcp size, s.source.tcpSender flow = some (g, tcp) ∧
    TcpOk g tcp (s.ledger.block flow) size ∧
    (∀ p, s.scheduled = some p → p.flow = flow ∧ p.sizeBytes = size ∧ 0 < size) ∧
    tcp.highestAck = 0 ∧ tcp.nextSequence = 0 ∧ g.nextEmission.status ≠ .finished := by
  obtain ⟨g, tcp, hs, hnext, hack, hflight, hphase, htimer, hstatus, hnone, hsome⟩ := h.sender
  have htiles : Tiling.Tiles (Tiling.below tcp.nextSequence (s.ledger.block flow)) tcp.highestAck
      tcp.nextSequence := by
    rw [hnext, hack]
    exact (Tiling.Tiles.empty 0).congr fun sequence => Tiling.below_of_le (Nat.zero_le _)
  have hactive : tcp.activeTimer.isSome → tcp.highestAck < tcp.nextSequence := by
    intro hactive
    rw [htimer] at hactive
    cases hactive
  have honly (sequence n : Nat) (hblock : s.ledger.block flow sequence = some n) :
      sequence ≤ tcp.nextSequence := by
    rw [(h.block_eq hblock).1]
    exact Nat.zero_le _
  by_cases hheld : g.nextEmission.status = .scheduled
  · -- The first segment is reserved at byte 0 and is the only one in the ledger.
    obtain ⟨p, hp, hflow, hpos, hfits⟩ := hsome hheld
    refine ⟨g, tcp, p.sizeBytes, hs,
      ⟨htiles, by omega, by omega, ?_, hactive, fun _ => ?_, ?_, honly⟩, ?_, hack, hnext, hstatus⟩
    · exact fun hfast => absurd hfast hphase
    · refine ⟨htimer, fun _ => by omega, fun sequence n _ hblock => ?_⟩
      obtain ⟨rfl, q, hq, rfl⟩ := h.block_eq hblock
      rw [hp] at hq
      cases hq
      exact ⟨hnext.symm, fun _ => rfl⟩
    · exact fun hfree => absurd hheld hfree
    · intro q hq
      rw [hp] at hq
      cases hq
      exact ⟨hflow, rfl, hpos⟩
  · -- Nothing is reserved, so the ledger is empty and no segment size is promised.
    refine ⟨g, tcp, 0, hs, ⟨htiles, by omega, by omega, ?_, hactive, ?_, ?_, honly⟩, ?_, hack, hnext,
      hstatus⟩
    · exact fun hfast => absurd hfast hphase
    · exact fun hheld' => absurd hheld' hheld
    · intro _ _ sequence _
      cases hblock : s.ledger.block flow sequence with
      | none => rfl
      | some n =>
        obtain ⟨-, q, hq, -⟩ := h.block_eq hblock
        rw [hnone hheld] at hq
        cases hq
    · intro q hq
      rw [hnone hheld] at hq
      cases hq

theorem Fresh.safe (h : s.Fresh flow) : ∃ size g tcp r, s.Safe flow size g tcp r := by
  obtain ⟨g, tcp, size, hs, hok, hscheduled, hack, hnext, hstatus⟩ := h.ok
  obtain ⟨r, hr, hexpected, hranges⟩ := h.receiver
  refine ⟨size, g, tcp, r, hs, h.sole, hok, hscheduled, hr, ?_, ?_, ?_, ?_, ?_⟩
  · refine ⟨fun b hb => ?_, ?_⟩
    · rw [hexpected] at hb
      exact absurd hb (Nat.not_lt_zero b)
    · simp [hranges]
  · simp [h.arrived]
  · omega
  · simp [h.wire]
  · exact fun hfinished => absurd hfinished hstatus

section

variable (h : s.Safe flow size g tcp r)

include h

/-- A move of the sender: it may send, acknowledge what the receiver has, and finish
when everything is acknowledged. -/
theorem Safe.moved {source : HostEntry} {packets wire : List PacketDescriptor}
    {scheduled : Option PacketDescriptor}
    (hmoved : TcpMoved flow size s.source s.ledger tcp packets source ledger' g' tcp')
    (hacked : tcp'.highestAck ≤ r.nextExpectedSequence)
    (hfinished : g'.nextEmission.status = .finished → tcp'.totalBytes ≤ tcp'.highestAck)
    (hscheduled : ∀ p, scheduled = some p → s.scheduled = some p) (hwire : ∀ p ∈ wire, p ∈ s.wire) :
    Safe flow size g' tcp' r
      { s with source, ledger := ledger', scheduled, wire := wire ++ packets } where
  sender := hmoved.sender
  sole := h.sole.congr hmoved.flows
  ok := hmoved.ok
  scheduled := fun p hp => h.scheduled p (hscheduled p hp)
  receiver := h.receiver
  holds := h.holds
  arrived := fun segment hmem => Nat.le_trans (h.arrived segment hmem) hmoved.next
  acked := hacked
  wire := by
    intro p hp
    rcases mem_append.1 hp with hp | hp
    · exact (h.wire p (hwire p hp)).mono hmoved.next (Nat.le_refl _)
    · obtain ⟨hflow, header, hkind, hle⟩ := hmoved.packets p hp
      refine ⟨hflow, ?_⟩
      rw [hkind]
      exact hle
  finished := hfinished

theorem Safe.ack {rest packets : List PacketDescriptor} {header : TcpAckHeader} {source : HostEntry} (hwire : s.wire = p :: rest) (hp : p.kind = .tcpAck header)
    (hack : ackTcp c p header s.source s.ledger = .ok (packets, source, ledger')) :
    ∃ g' tcp', Safe flow size g' tcp' r { s with source, ledger := ledger', wire := rest ++ packets } := by
  have hflight := h.wire p (by rw [hwire]; exact mem_cons_self)
  unfold TcpInFlight at hflight
  rw [hp] at hflight
  obtain ⟨rfl, hle⟩ := hflight
  obtain ⟨g', tcp', hmoved, hmono, hbound, hfinished⟩ := ackTcp_moved hack h.sender h.ok
  refine ⟨g', tcp', h.moved hmoved ?_ ?_ (fun _ hq => hq) ?_⟩
  · rcases hbound with heq | hle'
    · rw [heq]
      exact h.acked
    · exact Nat.le_trans hle' hle
  · intro hstatus
    rcases hfinished hstatus with hold | hnew
    · have := h.finished hold
      rw [hmoved.total]
      omega
    · exact hnew
  · intro q hq
    rw [hwire]
    exact mem_cons_of_mem _ hq

theorem Safe.data {ack : PacketDescriptor} {rest : List PacketDescriptor} {header : TcpDataHeader}
    {target : HostEntry} {causes : PendingCauses}
    (hwire : s.wire = p :: rest) (hp : p.kind = .tcpData header)
    (hdata : tcpDataArrival c p header s.target = .ok (ack, target, causes)) :
    ∃ r', Safe flow size g tcp r' { s with
      target
      wire := rest ++ [ack]
      arrived := s.arrived ++ [(header.sequence, header.sequence + p.sizeBytes)] } := by
  have hflight := h.wire p (by rw [hwire]; exact mem_cons_self)
  unfold TcpInFlight at hflight
  rw [hp] at hflight
  obtain ⟨rfl, hend⟩ := hflight
  obtain ⟨hr, hflow, reply, hkind, hreply⟩ := tcpDataArrival_turn hdata h.receiver
  generalize hs' : ({ s with
      target
      wire := rest ++ [ack]
      arrived := s.arrived ++ [(header.sequence, header.sequence + p.sizeBytes)] } : TcpPair) = s'
  have harrived : s'.arrived =
      s.arrived ++ [(header.sequence, header.sequence + p.sizeBytes)] := by rw [← hs']
  -- What the receiver held had arrived before, so it has arrived now.
  have hbefore : r.Holds s'.Arrived := by
    refine h.holds.mono ?_
    rintro b ⟨segment, hmem, hb⟩
    exact ⟨segment, by rw [harrived]; exact mem_append_left _ hmem, hb⟩
  obtain ⟨hle, hholds, -⟩ := tcpReceiveRange_holds header.sequence
    (header.sequence + p.sizeBytes) hbefore fun b h₁ h₂ =>
      ⟨_, by rw [harrived]; exact mem_append_right _ mem_cons_self, h₁, h₂⟩
  subst hs'
  refine ⟨_, h.sender, h.sole, h.ok, h.scheduled, hr, hholds, ?_, Nat.le_trans h.acked hle, ?_,
    h.finished⟩
  · exact forall_mem_append.2 ⟨h.arrived, forall_mem_singleton.2 hend⟩
  · intro q hq
    rcases mem_append.1 hq with hq | hq
    · refine (h.wire q ?_).mono (Nat.le_refl _) hle
      rw [hwire]
      exact mem_cons_of_mem _ hq
    · rw [mem_singleton] at hq
      subst hq
      refine ⟨hflow, ?_⟩
      rw [hkind]
      exact hreply.le

/-- One step of the pair keeps it safe. -/
theorem Safe.step (hstep : TcpStep flow s s') : ∃ g' tcp' r', s'.Safe flow size g' tcp' r' := by
  cases hstep with
  | initial c hp hkind hsend =>
    obtain ⟨rfl, hsize⟩ := h.scheduled _ hp
    obtain ⟨g', tcp', hmoved, hack, hfinished⟩ :=
      initialTcp_moved hkind hsend h.sender h.ok fun _ => hsize
    exact ⟨g', tcp', r, h.moved hmoved (hack ▸ h.acked) hfinished (by rintro _ ⟨⟩) fun _ hq => hq⟩
  | release c hblocked hsend =>
    have hstatus : g.nextEmission.status = .blocked := by
      rw [(tcpSender_eq_some.1 h.sender).1] at hblocked
      exact some.inj hblocked
    obtain ⟨g', tcp', hmoved, hattempted⟩ := attemptTcp_moved hsend h.sender h.ok
      (by rintro _ ⟨⟩) ⟨fun _ => rfl, fun _ => by rw [hstatus]; simp⟩
    exact ⟨g', tcp', r, h.moved hmoved (hattempted.ack ▸ h.acked) hattempted.acked (fun _ hq => hq)
      fun _ hq => hq⟩
  | ack c hwire hp hack =>
    obtain ⟨g', tcp', h'⟩ := h.ack hwire hp hack
    exact ⟨g', tcp', r, h'⟩
  | timeout c htimeout =>
    obtain ⟨g', tcp', hmoved, hack, hfinished⟩ := timeoutTcp_moved htimeout h.sole h.sender h.ok
    exact ⟨g', tcp', r, h.moved hmoved (hack ▸ h.acked) hfinished (fun _ hq => hq) fun _ hq => hq⟩
  | data c hwire hp hdata =>
    obtain ⟨r', h'⟩ := h.data hwire hp hdata
    exact ⟨g, tcp, r', h'⟩
  | network hcarries =>
    refine ⟨g, tcp, r, h.sender, h.sole, h.ok, h.scheduled, h.receiver, h.holds, h.arrived, h.acked,
      ?_, h.finished⟩
    exact hcarries.forall (fun _ _ hsame hq => hq.marked hsame) h.wire
  | elsewhere hsource hflows htarget hledger =>
    refine ⟨g, tcp, r, (tcpSender_congr hsource).trans h.sender, h.sole.congr hflows, ?_,
      h.scheduled, htarget.trans h.receiver, h.holds, h.arrived, h.acked, h.wire, h.finished⟩
    rw [hledger]
    exact h.ok

/-- Every state a safe pair reaches is safe. -/
theorem Safe.run (hrun : Relation.ReflTransGen (TcpStep flow) s s') :
    ∃ g' tcp' r', s'.Safe flow size g' tcp' r' := by
  induction hrun with
  | refl => exact ⟨g, tcp, r, h⟩
  | tail _ hstep ih =>
    obtain ⟨g', tcp', r', h'⟩ := ih
    exact h'.step hstep

end

end TcpPair

/-! ## §5. Safety. -/

/-- TCP is safe from a fresh flow, whatever the network does: what is acknowledged has
been received, what is received has been sent, every acknowledgment in flight is
covered, every byte below the receiver's frontier has arrived, and the sender is
finished only when the receiver holds the whole stream. -/
theorem tcp_end_to_end_safe {flow : FlowId} {s t : TcpPair} (hfresh : s.Fresh flow)
    (hrun : Relation.ReflTransGen (TcpStep flow) s t) :
    ∃ g tcp r, t.source.tcpSender flow = some (g, tcp) ∧ t.target.tcpReceiver flow = some r ∧
      (tcp.highestAck ≤ r.nextExpectedSequence ∧ r.nextExpectedSequence ≤ tcp.nextSequence ∧
        tcp.nextSequence ≤ tcp.totalBytes) ∧
      (∀ p ∈ t.wire, ∀ header, p.kind = .tcpAck header →
        header.acknowledgment ≤ r.nextExpectedSequence) ∧
      (∀ b, b < r.nextExpectedSequence →
        ∃ segment ∈ t.arrived, segment.1 ≤ b ∧ b < segment.2) ∧
      (g.nextEmission.status = .finished → r.nextExpectedSequence = tcp.totalBytes) := by
  obtain ⟨size, g₀, tcp₀, r₀, h₀⟩ := hfresh.safe
  obtain ⟨g, tcp, r, h⟩ := h₀.run hrun
  refine ⟨g, tcp, r, h.sender, h.receiver, ⟨h.acked, h.expected_le, h.ok.next_le⟩, ?_,
    h.holds.below, ?_⟩
  · intro p hp header hkind
    have hflight := (h.wire p hp).2
    rw [hkind] at hflight
    exact hflight
  · intro hfinished
    have hall := h.finished hfinished
    have hacked := h.acked
    have hexpected := h.expected_le
    have hnext := h.ok.next_le
    omega

/-- A flow of one segment of three bytes under Reno, about to start. -/
def sampleTcpPair : TcpPair where
  source :=
    { state := { emptyHost with
        generators := [⟨0, 0, 0, ⟨.scheduled, 100, 0⟩, 0, ⟨0, 0, 0⟩, .tcp {
          totalBytes := 3
          mssBytes := 4
          ackSizeBytes := 1
          nextSequence := 0
          highestAck := 0
          bytesInFlight := 0
          duplicateAcks := 0
          recoveryHighSequence := 0
          lastAttempt := 0
          timerGeneration := 0
          activeTimer := none
          srttNs := 0
          rttVarNs := 0
          rtoNs := minRtoNs
          control := .reno ⟨4, 4, 65535, .slowStart, 0, 0, 0⟩ }⟩] }
      index := ⟨[(0, 0)], [], none⟩ }
  ledger := (∅ : TcpSegmentLedger).insert 0
    ((∅ : Std.ExtTreeMap Nat PacketDescriptor).insert 0 ⟨0, 0, 3, false, .tcpData ⟨0, 100, false⟩⟩)
  target :=
    { state := { emptyHost with tcpReceivers := [⟨0, 1, 0, []⟩] }
      index := ⟨[], [(0, 0)], none⟩ }
  scheduled := some ⟨0, 0, 3, false, .tcpData ⟨0, 100, false⟩⟩
  wire := []
  arrived := []

theorem sampleTcpPair_fresh : sampleTcpPair.Fresh 0 where
  sender := by
    refine ⟨_, _, rfl, rfl, rfl, rfl, by decide, rfl, by decide, fun hfree => ?_, fun _ => ?_⟩
    · exact absurd rfl hfree
    · exact ⟨_, rfl, rfl, by decide, by decide⟩
  sole := by
    intro position hposition
    match position with
    | 0 => rfl
    | n + 1 => cases hposition
  receiver := ⟨_, rfl, rfl, rfl⟩
  ledger := by
    intro sequence p hp
    unfold sampleTcpPair at hp
    rw [TcpSegmentLedger.segment_insert, if_pos rfl, Std.ExtTreeMap.getElem?_insert] at hp
    split at hp
    · next heq =>
      cases hp
      exact ⟨(by simpa using heq : 0 = sequence).symm, rfl⟩
    · simp at hp
  wire := rfl
  arrived := rfl

/-- The scheduled segment is sent and arrives. -/
theorem sampleTcpPair_delivers :
    ∃ t, Relation.ReflTransGen (TcpStep 0) sampleTcpPair t ∧ t.arrived = [(0, 3)] ∧
      (t.target.tcpReceiver 0).map (·.nextExpectedSequence) = some 3 :=
  ⟨_, (Relation.ReflTransGen.refl.tail
      (.initial (exchangeContext 0 100 .packetArrival 0) rfl rfl rfl)).tail
      (.data (exchangeContext 1 200 .remoteArrival 0) rfl rfl rfl), rfl, rfl⟩

theorem tcp_end_to_end_safe_sample :
    ∃ t, Relation.ReflTransGen (TcpStep 0) sampleTcpPair t ∧ t.arrived = [(0, 3)] ∧
      ∃ g tcp r, t.source.tcpSender 0 = some (g, tcp) ∧ t.target.tcpReceiver 0 = some r ∧
        tcp.highestAck ≤ r.nextExpectedSequence ∧
        r.nextExpectedSequence ≤ tcp.nextSequence := by
  obtain ⟨t, hrun, harrived, -⟩ := sampleTcpPair_delivers
  obtain ⟨g, tcp, r, hs, hr, hle, -⟩ := tcp_end_to_end_safe sampleTcpPair_fresh hrun
  exact ⟨t, hrun, harrived, g, tcp, r, hs, hr, hle.1, hle.2.1⟩

end Days
