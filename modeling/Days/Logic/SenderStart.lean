/-
  Days.Logic.SenderStart — a validated image starts with its TCP senders in order,
  so every run of it keeps them so.
-/
import Days.Logic.SenderRun
import Days.Exec.Validate

namespace Days

open List Option Function TcpSegmentLedger Std.ExtTreeMap

variable {image : SimulationImage} {p : PacketDescriptor}

open Tiling (Tiles Clear below below_of_lt below_of_le)

/-! ## §1. Seeding the ledger. -/

namespace TcpSegmentLedger

variable {ledger ledger' : TcpSegmentLedger} {p : PacketDescriptor} {header : TcpDataHeader}
  {flow : FlowId} {s n : Nat}

/-- A segment that was remembered does not contradict an earlier one. -/
theorem seed_fits (h : ledger.seed p = .ok ledger') (hp : p.kind = .tcpData header)
    (hn : ledger.block p.flow header.sequence = some n) : n = p.sizeBytes := by
  unfold seed at h
  rw [hp] at h
  dsimp only at h
  obtain ⟨original, horiginal, rfl⟩ := map_eq_some_iff.1 hn
  rw [← segment_getD] at horiginal
  rw [horiginal] at h
  dsimp only at h
  split at h
  · cases h
  · next heq => exact not_not.1 heq

/-- What a seeded ledger has, it had or was given. -/
theorem seed_blocks (h : ledger.seed p = .ok ledger') :
    (∀ flow s n, ledger.block flow s = some n → ledger'.block flow s = some n) ∧
      (∀ header, p.kind = .tcpData header →
        ledger'.block p.flow header.sequence = some p.sizeBytes) ∧
      ∀ flow s n, ledger'.block flow s = some n → ledger.block flow s = some n ∨
        p.flow = flow ∧ ∃ header, p.kind = .tcpData header ∧ header.sequence = s := by
  by_cases hdata : ∃ header, p.kind = .tcpData header
  · obtain ⟨header, hp⟩ := hdata
    obtain ⟨ledger₁, hseed, hblock, hothers⟩ := seed_block ledger hp fun n hn => seed_fits h hp hn
    rw [h] at hseed
    cases hseed
    -- Seeding changes one cell of the ledger.
    have hlookup : ∀ flow s, ledger'.block flow s =
        if flow = p.flow ∧ s = header.sequence then some p.sizeBytes else ledger.block flow s := by
      intro flow s
      by_cases hflow : flow = p.flow
      · subst hflow
        rw [hblock]
        by_cases hs : s = header.sequence
        · subst hs
          simp
        · rw [update_of_ne hs, if_neg fun hboth => hs hboth.2]
      · rw [hothers flow hflow, if_neg fun hboth => hflow hboth.1]
    refine ⟨fun flow s n hn => ?_, fun header' hp' => ?_, fun flow s n hn => ?_⟩
    · rw [hlookup]
      split
      · next hboth =>
        obtain ⟨rfl, rfl⟩ := hboth
        rw [seed_fits h hp hn]
      · exact hn
    · rw [hp] at hp'
      cases hp'
      rw [hlookup, if_pos ⟨rfl, rfl⟩]
    · rw [hlookup] at hn
      split at hn
      · next hboth => exact .inr ⟨hboth.1.symm, header, hp, hboth.2.symm⟩
      · exact .inl hn
  · -- Only TCP data is entered; for another kind the ledger is returned as it was.
    have hsame : ledger' = ledger := by
      unfold seed at h
      split at h
      · next header hp => exact absurd ⟨header, hp⟩ hdata
      · exact (Except.ok.inj h).symm
    subst hsame
    exact ⟨fun _ _ _ hn => hn, fun header hp => absurd ⟨header, hp⟩ hdata, fun _ _ _ hn => .inl hn⟩

theorem seedAll_blocks {packets : List PacketDescriptor} (h : ledger.seedAll packets = .ok ledger') :
    (∀ flow s n, ledger.block flow s = some n → ledger'.block flow s = some n) ∧
      (∀ p ∈ packets, ∀ header, p.kind = .tcpData header →
        ledger'.block p.flow header.sequence = some p.sizeBytes) ∧
      ∀ flow s n, ledger'.block flow s = some n → ledger.block flow s = some n ∨
        ∃ p ∈ packets, p.flow = flow ∧ ∃ header, p.kind = .tcpData header ∧ header.sequence = s := by
  induction packets generalizing ledger with
  | nil =>
    cases h
    exact ⟨fun _ _ _ hn => hn, by simp, fun _ _ _ hn => .inl hn⟩
  | cons p rest ih =>
    obtain ⟨ledger₁, hseed, h⟩ := bind_ok h
    obtain ⟨hkeep, hgiven, hback⟩ := seed_blocks hseed
    obtain ⟨hkeep', hgiven', hback'⟩ := ih h
    refine ⟨fun flow s n hn => hkeep' flow s n (hkeep flow s n hn), ?_, ?_⟩
    · intro q hq header hkind
      rcases mem_cons.1 hq with rfl | hq
      · exact hkeep' _ _ _ (hgiven header hkind)
      · exact hgiven' q hq header hkind
    · intro flow s n hn
      rcases hback' flow s n hn with hn | ⟨q, hq, hrest⟩
      · rcases hback flow s n hn with hn | hp
        · exact .inl hn
        · exact .inr ⟨p, mem_cons_self, hp⟩
      · exact .inr ⟨q, mem_cons_of_mem _ hq, hrest⟩

/-! ## §2. Cutting it at what is acknowledged. -/

/-- The blocks of a flow after an acknowledgment: those from there on, and at most a cut
one at it. -/
structure CutAt (ack : Nat) (block block' : Nat → Option Nat) : Prop where
  back : ∀ s n, block' s = some n → ack ≤ s ∧ (block s = some n ∨ s = ack ∧ 0 < ack)
  keep : ∀ s n, ack ≤ s → block s = some n → block' s = some n

theorem remaining_cut {acknowledgment : Nat} {segments kept : Std.ExtTreeMap Nat PacketDescriptor}
    (h : remaining flow acknowledgment segments = .ok kept) :
    CutAt acknowledgment (blockOf segments) (blockOf kept) := by
  have hunack : CutAt acknowledgment (blockOf segments)
      (blockOf (segments.filter fun sequence _ => decide (acknowledgment ≤ sequence))) := by
    constructor
    · intro s n hn
      unfold blockOf at hn ⊢
      rw [getElem?_filter'] at hn
      obtain ⟨p, hp, rfl⟩ := map_eq_some_iff.1 hn
      obtain ⟨hp, hle⟩ := filter_eq_some_iff.1 hp
      exact ⟨of_decide_eq_true hle, .inl (by rw [hp, map_some])⟩
    · intro s n hle hn
      unfold blockOf at hn ⊢
      obtain ⟨p, hp, rfl⟩ := map_eq_some_iff.1 hn
      rw [getElem?_filter', hp, filter_some, if_pos (by simpa using hle),
        map_some]
  unfold remaining at h
  dsimp only at h
  split at h
  · cases h
    exact hunack
  · next sent original hlast =>
    split at h
    · split at h
      · split at h
        · cases h
        · cases h
          exact hunack
      · next hnone =>
        -- The last segment below the cut reaches past it: its rest starts at the cut.
        cases h
        have hpos : 0 < acknowledgment := by
          have hmem := mem_of_getLast? hlast
          rw [mem_toList_iff_getElem?_eq_some,
            getElem?_filter'] at hmem
          have := of_decide_eq_true (filter_eq_some_iff.1 hmem).2
          omega
        constructor
        · intro s n hn
          rw [blockOf_insert] at hn
          by_cases hs : s = acknowledgment
          · exact ⟨Nat.le_of_eq hs.symm, .inr ⟨hs, hpos⟩⟩
          · rw [update_of_ne hs] at hn
            exact hunack.back s n hn
        · intro s n hle hn
          have hn' := hunack.keep s n hle hn
          rw [blockOf_insert, update_of_ne]
          · exact hn'
          · rintro rfl
            unfold blockOf at hn'
            rw [hnone] at hn'
            cases hn'
    · cases h
      exact hunack

theorem acknowledge_cut {acknowledgment : Nat}
    (h : ledger.acknowledge flow acknowledgment = .ok ledger') :
    CutAt acknowledgment (ledger.block flow) (ledger'.block flow) ∧
      ∀ other, other ≠ flow → ledger'.block other = ledger.block other := by
  have hack := ledger.acknowledge_remaining flow acknowledgment
  cases hkept : remaining flow acknowledgment ((ledger[flow]?).getD ∅) with
  | error e =>
    rw [hkept] at hack
    cases hack.symm.trans h
  | ok kept =>
    rw [hkept] at hack
    obtain ⟨_, hok, hblock, hother⟩ := hack
    cases hok.symm.trans h
    rw [← block_getD, hblock]
    exact ⟨remaining_cut hkept, hother⟩

/-- Cutting for some generators leaves the flows of others alone. -/
theorem acknowledgeAll_others {generators : List FlowGeneratorState}
    (h : ledger.acknowledgeAll generators = .ok ledger') (hflow : flow ∉ generators.map (·.flow)) :
    ledger'.block flow = ledger.block flow := by
  induction generators generalizing ledger with
  | nil =>
    cases h
    rfl
  | cons g rest ih =>
    rw [map_cons, mem_cons, not_or] at hflow
    unfold acknowledgeAll at h
    split at h
    · obtain ⟨ledger₁, hcut, h⟩ := bind_ok h
      rw [ih h hflow.2]
      exact (acknowledge_cut hcut).2 flow hflow.1
    · exact ih h hflow.2

/-- Each TCP sender's flow is cut at its own acknowledgment. -/
theorem acknowledgeAll_cut {generators : List FlowGeneratorState}
    (h : ledger.acknowledgeAll generators = .ok ledger')
    (hnodup : (generators.map (·.flow)).Nodup) {g : FlowGeneratorState} {tcp : TcpGenerator}
    (hg : g ∈ generators) (hkind : g.kind = .tcp tcp) :
    CutAt tcp.highestAck (ledger.block g.flow) (ledger'.block g.flow) := by
  induction generators generalizing ledger with
  | nil => cases hg
  | cons g₀ rest ih =>
    rw [map_cons, nodup_cons] at hnodup
    unfold acknowledgeAll at h
    rcases mem_cons.1 hg with rfl | hg
    · rw [hkind] at h
      obtain ⟨ledger₁, hcut, h⟩ := bind_ok h
      rw [acknowledgeAll_others h hnodup.1]
      exact (acknowledge_cut hcut).1
    · have hne : g.flow ≠ g₀.flow := by
        intro heq
        exact hnodup.1 (heq ▸ mem_map_of_mem hg)
      split at h
      · obtain ⟨ledger₁, hcut, h⟩ := bind_ok h
        rw [← (acknowledge_cut hcut).2 g.flow hne]
        exact ih h hnodup.2 hg
      · exact ih h hnodup.2 hg

/-- The ledger of an image: its packets' segments, each flow cut at what is acknowledged. -/
theorem seedImage_cut (h : seedImage image = .ok ledger)
    (hnodup : (image.generators.map (·.flow)).Nodup) :
    ∃ seeded, seedAll ∅ image.initialPackets = .ok seeded ∧
      ∀ g ∈ image.generators, ∀ tcp, g.kind = .tcp tcp →
        CutAt tcp.highestAck (seeded.block g.flow) (ledger.block g.flow) := by
  obtain ⟨seeded, hseed, h⟩ := bind_ok h
  refine ⟨seeded, hseed, fun g hg tcp hkind => ?_⟩
  split at h
  · next hempty =>
    cases pure_eq_ok.1 h
    have hblock : ∀ s, block ledger g.flow s = none := by
      intro s
      rw [Std.ExtTreeMap.isEmpty_iff.1 hempty]
      simp [block, segment]
    refine ⟨fun s n hn => ?_, fun _ _ _ hn => hn⟩
    rw [hblock] at hn
    cases hn
  · exact acknowledgeAll_cut h hnodup hg hkind

/-- Where the segments of a validated sender start. -/
theorem mem_range {lo hi : Nat} :
    (s, p) ∈ ledger.range flow lo hi ↔ ledger.segment flow s = some p ∧ lo ≤ s ∧ s < hi := by
  unfold range segment
  rw [mem_filter, decide_eq_true_iff]
  cases ledger[flow]? with
  | none => simp
  | some segments =>
    rw [elim_some, bind_some, mem_toList_iff_getElem?_eq_some]

theorem range_sorted (ledger : TcpSegmentLedger) (flow : FlowId) (lo hi : Nat) :
    (ledger.range flow lo hi).Pairwise fun a b => a.1 < b.1 := by
  refine Pairwise.filter _ ?_
  cases ledger[flow]? with
  | none => exact .nil
  | some segments =>
    exact ordered_keys_toList.imp fun h => Nat.compare_eq_lt.1 h

end TcpSegmentLedger

/-! ## §3. Walking the segments. -/

/-- A walk that ends where the flow will continue has passed a tiling. -/
theorem walkSegments_tiles {next expected stop : Nat} {segments : List (Nat × PacketDescriptor)}
    (h : walkSegments next expected segments = some stop)
    (hsorted : segments.Pairwise fun a b => a.1 < b.1)
    (hlt : ∀ segment ∈ segments, segment.1 < stop) {block : Nat → Option Nat}
    (hblock : ∀ s n, block s = some n ↔ ∃ p, (s, p) ∈ segments ∧ p.sizeBytes = n) :
    Tiles block expected stop := by
  induction segments generalizing expected block with
  | nil =>
    cases h
    refine (Tiles.empty _).congr fun s => ?_
    cases hs : block s with
    | none => rfl
    | some n =>
      obtain ⟨p, hp, -⟩ := (hblock s n).1 hs
      cases hp
  | cons segment rest ih =>
    obtain ⟨sequence, p⟩ := segment
    rw [pairwise_cons] at hsorted
    unfold walkSegments at h
    split at h
    · cases h
    · next hseq =>
      rw [not_not] at hseq
      subst hseq
      split at h
      · cases h
      · next afterwards hadd =>
        obtain rfl := (checkedAdd_eq_some hadd).1
        split at h
        · cases h
        · have hfirst : block sequence = some p.sizeBytes :=
            (hblock _ _).2 ⟨p, mem_cons_self, rfl⟩
          have hrest : ∀ s n, update block sequence none s = some n ↔
              ∃ q, (s, q) ∈ rest ∧ q.sizeBytes = n := by
            intro s n
            by_cases hs : s = sequence
            · subst hs
              rw [update_self]
              refine ⟨by rintro ⟨⟩, ?_⟩
              rintro ⟨q, hq, -⟩
              exact absurd (hsorted.1 _ hq) (Nat.lt_irrefl _)
            · rw [update_of_ne hs, hblock]
              constructor
              · rintro ⟨q, hq, hn⟩
                rcases mem_cons.1 hq with heq | hq
                · exact absurd (congrArg Prod.fst heq) hs
                · exact ⟨q, hq, hn⟩
              · rintro ⟨q, hq, hn⟩
                exact ⟨q, mem_cons_of_mem _ hq, hn⟩
          have htail := ih h hsorted.2 (fun x hx => hlt x (mem_cons_of_mem _ hx)) hrest
          have hpos : 0 < p.sizeBytes := by
            rcases Nat.eq_zero_or_pos p.sizeBytes with hzero | hpos
            · -- The walk would stop at this segment or meet its start again.
              have hbefore := hlt _ mem_cons_self
              obtain ⟨n, hn⟩ := htail.first (by omega)
              rw [hzero, Nat.add_zero, update_self] at hn
              cases hn
            · exact hpos
          exact htail.cons hpos hfirst fun s hs => (update_of_ne hs _ _).symm

/-! ## §4. A validated image. -/

/-- The parts of validation. -/
structure TcpValidated (image : SimulationImage) (ledger : TcpSegmentLedger) : Prop where
  ids : List.IsChain (· < ·) (image.initialPackets.map (·.id))
  owners : (image.generators.map (·.flow)).Nodup
  generators : ∀ h ∈ image.hostStates, ∀ staged ∈ h.stagedGenerators,
    validateGenerator image staged = true
  seeded : TcpSegmentLedger.seedImage image = .ok ledger
  segments : ∀ g ∈ image.generators, validateGeneratorSegments image ledger g = true

theorem validateTcp_eq_true (h : validateTcp image = true) :
    ∃ ledger, TcpValidated image ledger := by
  simp only [validateTcp, validatePacketIds, validateGeneratorOwners, validateGenerators,
    Bool.and_eq_true, decide_eq_true_eq, List.all_eq_true] at h
  obtain ⟨⟨⟨hids, howners⟩, hgenerators⟩, hledger⟩ := h
  unfold validateTcpSegmentLedger at hledger
  split at hledger
  · cases hledger
  · next ledger hseed =>
    exact ⟨ledger, hids, howners, hgenerators, hseed, List.all_eq_true.1 hledger⟩

/-- The size of the segment a flow has scheduled; zero when its emission names no packet of
the flow. -/
def scheduledSize (image : SimulationImage) (flow : FlowId) : Nat :=
  ((image.generators.find? (·.flow == flow)).bind fun g =>
    (image.initialPacket g.nextEmission.payload).filter (·.flow == flow)).elim 0 (·.sizeBytes)

namespace TcpValidated

variable {image : SimulationImage} {ledger : TcpSegmentLedger} {h : HostState}
  {g : FlowGeneratorState} {tcp : TcpGenerator} {position : Nat}

theorem mem_generators (hh : h ∈ image.hostStates) (hg : g ∈ h.generators) : g ∈ image.generators :=
  mem_flatMap.2 ⟨h, hh, hg⟩

section

variable (hv : TcpValidated image ledger)

include hv

/-- The generator of a flow is the only one. -/
theorem find_eq (hg : g ∈ image.generators) :
    image.generators.find? (·.flow == g.flow) = some g := by
  cases hfind : image.generators.find? (·.flow == g.flow) with
  | none =>
    have := find?_eq_none.1 hfind g hg
    simp at this
  | some g' =>
    have hflow : g'.flow = g.flow := by simpa using find?_some hfind
    rw [inj_on_of_nodup_map hv.owners (mem_of_find?_eq_some hfind) hg hflow]

/-- Packets with one id are one packet. -/
theorem packet_eq {q : PacketDescriptor}
    (hp : p ∈ image.initialPackets) (hq : q ∈ image.initialPackets) (hid : p.id = q.id) :
    p = q := by
  have hnodup : (image.initialPackets.map (·.id)).Nodup :=
    (isChain_iff_pairwise.1 hv.ids).imp fun hlt => Nat.ne_of_lt hlt
  exact inj_on_of_nodup_map hnodup hp hq hid

/-- Every TCP packet of the flow lies below the next byte, or is scheduled at it. -/
theorem initialSegment (hg : g ∈ image.generators)
    (hkind : g.kind = .tcp tcp) {header : TcpDataHeader}
    (hp : p ∈ image.initialPackets) (hflow : p.flow = g.flow) (hdata : p.kind = .tcpData header) :
    header.sequence < tcp.nextSequence ∨ g.nextEmission.status = .scheduled ∧
      p.id = g.nextEmission.payload ∧ header.sequence = tcp.nextSequence := by
  have hcheck := hv.segments g hg
  unfold validateGeneratorSegments at hcheck
  rw [hkind] at hcheck
  simp only [Bool.and_eq_true, List.all_eq_true, List.mem_filter] at hcheck
  have := hcheck.1 p ⟨hp, by simpa using hflow⟩
  unfold validateInitialSegment at this
  rw [hdata] at this
  simpa only [Bool.or_eq_true, Bool.and_eq_true, decide_eq_true_eq, beq_iff_eq, and_assoc] using this

/-- Where the segments of the flow start. -/
theorem block_starts (hg : g ∈ image.generators)
    (hkind : g.kind = .tcp tcp) {s n : Nat} (hn : ledger.block g.flow s = some n) :
    tcp.highestAck ≤ s ∧ (s < tcp.nextSequence ∨
      g.nextEmission.status = .scheduled ∧ s = tcp.nextSequence ∨
      s = tcp.highestAck ∧ 0 < tcp.highestAck) := by
  obtain ⟨seeded, hseed, hcut⟩ := seedImage_cut hv.seeded hv.owners
  obtain ⟨hle, hfrom⟩ := (hcut g hg tcp hkind).back s n hn
  refine ⟨hle, ?_⟩
  rcases hfrom with hfrom | hcutted
  · rcases (seedAll_blocks hseed).2.2 _ _ _ hfrom with hempty | hpacket
    · simp [block, TcpSegmentLedger.segment] at hempty
    · obtain ⟨p, hp, hflow, header, hdata, rfl⟩ := hpacket
      rcases hv.initialSegment hg hkind hp hflow hdata with hlt | ⟨hheld, -, heq⟩
      · exact .inl hlt
      · exact .inr (.inl ⟨hheld, heq⟩)
  · exact .inr (.inr hcutted)

/-- The segments below the next byte tile what is in flight. -/
theorem tiles (hg : g ∈ image.generators) (hkind : g.kind = .tcp tcp) :
    Tiles (below tcp.nextSequence (ledger.block g.flow)) tcp.highestAck tcp.nextSequence := by
  have hcheck := hv.segments g hg
  unfold validateGeneratorSegments at hcheck
  rw [hkind] at hcheck
  simp only [Bool.and_eq_true, beq_iff_eq] at hcheck
  refine walkSegments_tiles hcheck.2 (ledger.range_sorted _ _ _) ?_ ?_
  · rintro ⟨s, p⟩ hmem
    exact (mem_range.1 hmem).2.2
  · intro s n
    constructor
    · intro hn
      unfold below at hn
      split at hn
      · next hlt =>
        have hle := (hv.block_starts hg hkind hn).1
        obtain ⟨p, hp, hsize⟩ := map_eq_some_iff.1 hn
        exact ⟨p, mem_range.2 ⟨hp, hle, hlt⟩, hsize⟩
      · cases hn
    · rintro ⟨p, hp, rfl⟩
      obtain ⟨hsegment, -, hlt⟩ := mem_range.1 hp
      rw [below_of_lt hlt]
      unfold block
      rw [hsegment, map_some]

theorem scheduledSize_eq (hg : g ∈ image.generators)
    (hp : image.initialPacket g.nextEmission.payload = some p) :
    scheduledSize image g.flow = if p.flow = g.flow then p.sizeBytes else 0 := by
  unfold scheduledSize
  rw [hv.find_eq hg, bind_some, hp, filter_some]
  by_cases hflow : p.flow = g.flow
  · simp [hflow]
  · simp [hflow]

variable (hh : h ∈ image.hostStates) (hg : h.generators[position]? = some g)
  (hkind : g.kind = .tcp tcp)

include hh hg hkind

/-- What is checked of a TCP sender. -/
theorem sender :
    (∀ stage, h.stage position = some stage → ∀ compute, stage.role ≠ .compute compute) ∧
      validateTcpGenerator image g (h.stage position) tcp = true := by
  have hstaged : (g, h.stage position) ∈ h.stagedGenerators :=
    List.mem_map.2 ⟨(g, position), List.mk_mem_zipIdx_iff_getElem?.2 hg, rfl⟩
  have hcheck := hv.generators h hh _ hstaged
  unfold validateGenerator at hcheck
  rw [hkind] at hcheck
  rw [Bool.and_eq_true, Option.all_eq_true] at hcheck
  refine ⟨fun stage hstage compute hrole => ?_, hcheck.2⟩
  have := hcheck.1 stage hstage
  rw [hrole] at this
  cases this

/-- The byte counts of a sender. -/
theorem counts :
    0 < tcp.mssBytes ∧ tcp.nextSequence ≤ tcp.totalBytes ∧ tcp.highestAck ≤ tcp.nextSequence ∧
      tcp.bytesInFlight = tcp.nextSequence - tcp.highestAck ∧
      (tcp.control.phase = .fastRecovery → tcp.recoveryHighSequence ≤ tcp.nextSequence) ∧
      validateTcpStatus image g (h.stage position) tcp = true := by
  have hcheck := (hv.sender hh hg hkind).2
  simp only [validateTcpGenerator, Bool.and_eq_true, bne_iff_ne, beq_iff_eq,
    decide_eq_true_eq] at hcheck
  obtain ⟨⟨⟨⟨⟨⟨⟨⟨⟨⟨-, hmss⟩, -⟩, hnext⟩, -⟩, hack⟩, hflight⟩, -⟩, -⟩, hrecovery⟩, hstatus⟩ := hcheck
  exact ⟨Nat.pos_of_ne_zero hmss, hnext, hack, hflight, hrecovery, hstatus⟩

/-- A scheduled sender has no timer, and its emission names its next segment. -/
theorem scheduled (hheld : g.nextEmission.status = .scheduled) :
    tcp.activeTimer = none ∧ ∃ p ∈ image.initialPackets, ∃ header,
      image.initialPacket g.nextEmission.payload = some p ∧ p.id = g.nextEmission.payload ∧
      p.kind = .tcpData header ∧ header.sequence = tcp.nextSequence ∧ 0 < p.sizeBytes ∧
      tcp.nextSequence + p.sizeBytes ≤ tcp.totalBytes := by
  obtain ⟨hmss, hnext, -, -, -, hstatus⟩ := hv.counts hh hg hkind
  unfold validateTcpStatus at hstatus
  rw [hheld] at hstatus
  simp only [Bool.and_eq_true, bne_iff_ne, isNone_iff_eq_none] at hstatus
  obtain ⟨⟨hmore, htimer⟩, hpacket⟩ := hstatus
  obtain ⟨p, hp, hpacket⟩ := (any_eq_true _ _).1 hpacket
  split at hpacket
  · next header hdata =>
    simp only [Bool.and_eq_true, beq_iff_eq] at hpacket
    obtain ⟨⟨⟨hseq, -⟩, -⟩, hsize⟩ := hpacket
    refine ⟨htimer, p, mem_of_find?_eq_some hp, header, hp, ?_, hdata, hseq, ?_, ?_⟩
    · simpa using find?_some hp
    · omega
    · omega
  · cases hpacket

/-- A sender that is not scheduled waits for an acknowledgment under a timer, has not been
released, or is done. -/
theorem unscheduled (hfree : g.nextEmission.status ≠ .scheduled) :
    tcp.highestAck < tcp.nextSequence ∨ tcp.activeTimer = none ∧
      (tcp.highestAck = 0 ∧ tcp.nextSequence = 0 ∨ tcp.highestAck = tcp.totalBytes) := by
  obtain ⟨-, -, -, hflight, -, hstatus⟩ := hv.counts hh hg hkind
  unfold validateTcpStatus at hstatus
  split at hstatus
  · next hheld => exact absurd hheld hfree
  · simp only [Bool.and_eq_true, beq_iff_eq, isNone_iff_eq_none] at hstatus
    exact .inr ⟨hstatus.2, .inr hstatus.1.1.2⟩
  · cases hstatus
  · split at hstatus
    · simp only [validateUnreleasedTcpStage, Bool.and_eq_true, beq_iff_eq,
        isNone_iff_eq_none] at hstatus
      obtain ⟨⟨⟨⟨⟨⟨⟨⟨⟨⟨⟨-, -⟩, hnext⟩, hack⟩, -⟩, -⟩, -⟩, -⟩, -⟩, htimer⟩, -⟩, -⟩ := hstatus
      exact .inr ⟨htimer, .inl ⟨hack, hnext⟩⟩
    · simp only [validateBlockedTcpTimer, Bool.and_eq_true, bne_iff_ne] at hstatus
      left
      omega

/-- The senders of a validated image are in order. -/
theorem ok : TcpOk g tcp (ledger.block g.flow) (scheduledSize image g.flow) := by
  have hmem := mem_generators hh (mem_of_getElem? hg)
  obtain ⟨hmss, hnext, hack, hflight, hrecovery, -⟩ := hv.counts hh hg hkind
  refine ⟨hv.tiles hmem hkind, hnext, hflight, hrecovery, ?_, ?_, ?_, fun s n hn => ?_⟩
  · intro hactive
    by_cases hheld : g.nextEmission.status = .scheduled
    · rw [(hv.scheduled hh hg hkind hheld).1] at hactive
      cases hactive
    · rcases hv.unscheduled hh hg hkind hheld with hlt | ⟨hnone, -⟩
      · exact hlt
      · rw [hnone] at hactive
        cases hactive
  · intro hheld
    obtain ⟨htimer, p, hp, header, hfound, hid, hdata, hseq, hpos, hfits⟩ :=
      hv.scheduled hh hg hkind hheld
    rw [hv.scheduledSize_eq hmem hfound]
    by_cases hflow : p.flow = g.flow
    · rw [if_pos hflow]
      refine ⟨htimer, fun _ => hfits, fun s n hs hn => ?_⟩
      have hstart : s = tcp.nextSequence := by
        rcases (hv.block_starts hmem hkind hn).2 with hlt | ⟨-, heq⟩ | ⟨heq, -⟩ <;> omega
      refine ⟨hstart, fun _ => ?_⟩
      -- The scheduled packet was remembered at the next byte, and nothing else fits there.
      obtain ⟨seeded, hseed, hcut⟩ := seedImage_cut hv.seeded hv.owners
      have hgiven := (seedAll_blocks hseed).2.1 p hp header hdata
      rw [hflow, hseq] at hgiven
      have hkept := (hcut g hmem tcp hkind).keep _ _ hack hgiven
      rw [hstart, hkept] at hn
      exact (some.inj hn).symm
    · rw [if_neg hflow]
      refine ⟨htimer, by omega, fun s n hs hn => ⟨?_, by omega⟩⟩
      rcases (hv.block_starts hmem hkind hn).2 with hlt | ⟨-, heq⟩ | ⟨heq, -⟩ <;> omega
  · intro hfree hmore s hs
    cases hblock : ledger.block g.flow s with
    | none => rfl
    | some n =>
      rcases (hv.block_starts hmem hkind hblock).2 with hlt | ⟨hheld, -⟩ | ⟨heq, hpos⟩
      · omega
      · exact absurd hheld hfree
      · rcases hv.unscheduled hh hg hkind hfree with hlt | ⟨-, ⟨hzero, -⟩ | hall⟩ <;> omega
  · rcases (hv.block_starts hmem hkind hn).2 with hlt | ⟨-, heq⟩ | ⟨heq, -⟩ <;> omega

end

end TcpValidated

/-! ## §5. The start of a run. -/

theorem loadHost_flows (image : SimulationImage) (h : HostState) :
    (loadHost image h).flows.1 = h.generators.map (·.flow) := rfl

/-- The table of a host without doubles names every flow's position. -/
theorem loadHost_named {h : HostState}
    (hnodup : (h.generators.map (·.flow)).Nodup) : (loadHost image h).Named := by
  intro flow position
  rw [loadHost_flows]
  have hmem : ∀ position : Nat, (h.generators.map (·.flow))[position]? = some flow ↔
      position ∈ (loadHost image h).index.generatorsOf flow := by
    intro position
    show _ ↔ position ∈ ((byFlow (h.generators.map (·.flow))).filter (·.1 == flow)).map (·.2)
    rw [List.mem_map]
    constructor
    · intro hposition
      refine ⟨(flow, position), mem_filter.2 ⟨?_, by simp⟩, rfl⟩
      unfold byFlow
      rw [mem_insertionSort]
      exact mk_mem_zipIdx_iff_getElem?.2 hposition
    · rintro ⟨⟨flow', position'⟩, hfilter, rfl⟩
      obtain ⟨hin, heq⟩ := mem_filter.1 hfilter
      obtain rfl : flow' = flow := by simpa using heq
      exact mem_byFlow hin
  constructor
  · intro hfirst
    exact (hmem position).2 (mem_of_head? hfirst)
  · intro hposition
    have hin := (hmem position).1 hposition
    unfold HostStageIndex.firstGenerator
    cases hhead : ((loadHost image h).index.generatorsOf flow).head? with
    | none =>
      rw [head?_eq_none_iff.1 hhead] at hin
      cases hin
    | some first =>
      have hfirst := (hmem first).2 (mem_of_head? hhead)
      rw [(getElem?_inj (List.getElem?_eq_some_iff.1 hfirst).1 hnodup).1
        (hfirst.trans hposition.symm)]

theorem loadPackets_mem {packets : List PacketDescriptor}
    {store store' : Std.ExtTreeMap PayloadId ResidentPacket}
    (h : loadPackets store packets = .ok store') {id : PayloadId} {r : ResidentPacket}
    (hr : store'[id]? = some r) : store[id]? = some r ∨ r.descriptor ∈ packets := by
  induction packets generalizing store with
  | nil =>
    cases h
    exact .inl hr
  | cons p rest ih =>
    unfold loadPackets at h
    split at h
    · cases h
    · rcases ih h with hold | hmem
      · rw [Std.ExtTreeMap.getElem?_insert] at hold
        split at hold
        · cases hold
          exact .inr mem_cons_self
        · exact .inl hold
      · exact .inr (mem_cons_of_mem _ hmem)

theorem loadTransmitters_descriptor {node : NodeId} {ids : List PayloadId}
    {store store' : Std.ExtTreeMap PayloadId ResidentPacket}
    (h : loadTransmitters node store ids = .ok store') {id : PayloadId} {r : ResidentPacket}
    (hr : store'[id]? = some r) :
    ∃ r₀ : ResidentPacket, store[id]? = some r₀ ∧ r₀.descriptor = r.descriptor := by
  induction ids generalizing store with
  | nil =>
    cases h
    exact ⟨r, hr, rfl⟩
  | cons first rest ih =>
    obtain ⟨r₁, hr₁, h⟩ := bind_ok h
    obtain ⟨transmitters, -, h⟩ := bind_ok h
    rw [okOr_eq_ok] at hr₁
    obtain ⟨r₀, hr₀, hsame⟩ := ih h
    rw [Std.ExtTreeMap.getElem?_insert] at hr₀
    split at hr₀
    · next heq =>
      cases hr₀
      obtain rfl : first = id := by simpa using heq
      exact ⟨r₁, hr₁, hsame⟩
    · exact ⟨r₀, hr₀, hsame⟩

namespace TcpValidated

variable {image : SimulationImage} {ledger : TcpSegmentLedger} {h : HostState}

section

variable (hv : TcpValidated image ledger)

include hv

theorem named (hh : h ∈ image.hostStates) : (loadHost image h).Named := by
  have howners := hv.owners
  unfold SimulationImage.generators at howners
  rw [map_flatMap, nodup_flatMap] at howners
  exact loadHost_named (howners.1 h hh)

/-- The sender the table finds is the generator at some position. -/
theorem tcpSender (hh : h ∈ image.hostStates) {flow : FlowId}
    {g : FlowGeneratorState} {tcp : TcpGenerator}
    (hs : (loadHost image h).tcpSender flow = some (g, tcp)) :
    ∃ position : Nat, h.generators[position]? = some g ∧ g.kind = .tcp tcp ∧ g.flow = flow := by
  obtain ⟨hsender, hkind⟩ := HostEntry.tcpSender_eq_some.1 hs
  obtain ⟨position, hposition, hg⟩ := HostEntry.sender_eq_some.1 hsender
  refine ⟨position, hg, hkind, ?_⟩
  have hname := ((hv.named hh) flow position).1 hposition
  rw [loadHost_flows, getElem?_map] at hname
  have hg' : h.generators[position]? = some g := hg
  rw [hg'] at hname
  exact some.inj hname

/-- What an image stores at a reserved byte is the scheduled segment. -/
theorem harmless (hh : h ∈ image.hostStates) (hp : p ∈ image.initialPackets) :
    Harmless (scheduledSize image) (loadHost image h) p := by
  intro header g tcp hdata hs hheld hseq
  obtain ⟨position, hg, hkind, hflow⟩ := hv.tcpSender hh hs
  have hmem := mem_generators hh (mem_of_getElem? hg)
  obtain ⟨-, q, hq, -, hfound, hid, -, -, hpos, -⟩ := hv.scheduled hh hg hkind hheld
  have heq : p = q := by
    rcases hv.initialSegment hmem hkind hp hflow.symm hdata with hlt | ⟨-, hpid, -⟩
    · omega
    · exact hv.packet_eq hp hq (hpid.trans hid.symm)
  subst heq
  rw [← hflow, hv.scheduledSize_eq hmem hfound, if_pos hflow.symm]
  exact ⟨rfl, hpos⟩

/-- The run of a validated image begins with its senders in order. -/
theorem start {run : ScalarRun}
    (hrun : scalarStart image = .ok run) : SendersInv (scheduledSize image) run.state := by
  obtain ⟨s, hs, hrun⟩ := bind_ok hrun
  obtain ⟨events, -, ⟨⟩⟩ := bind_pure_ok hrun
  obtain ⟨ledger', hledger, hs⟩ := bind_ok hs
  obtain ⟨store, hstore, hs⟩ := bind_ok hs
  obtain ⟨store', hstore', hs⟩ := bind_ok hs
  obtain ⟨switches, -, hs⟩ := bind_ok hs
  rw [Prog.liftConflict_eq_ok, hv.seeded] at hledger
  cases hledger
  rw [Prog.liftPlain_eq_ok] at hstore hstore'
  cases pure_eq_ok.1 hs
  have hhosts : ∀ e ∈ image.hostStates.map (loadHost image), ∃ h ∈ image.hostStates,
      loadHost image h = e := fun e he => mem_map.1 he
  refine ⟨rfl, ?_, ?_, ?_, ?_, ?_⟩
  · intro e he
    obtain ⟨h, hh, rfl⟩ := hhosts e he
    exact hv.named hh
  · intro e he position stage g hstage hrole hg tcp hkind
    obtain ⟨h, hh, rfl⟩ := hhosts e he
    obtain ⟨compute, hcompute⟩ := hrole
    exact (hv.sender hh hg hkind).1 stage hstage compute hcompute
  · intro e he flow g tcp hsender
    obtain ⟨h, hh, rfl⟩ := hhosts e he
    obtain ⟨position, hg, hkind, rfl⟩ := hv.tcpSender hh hsender
    exact hv.ok hh hg hkind
  · -- No flow has generators on two hosts: the validator wants them distinct over the image.
    intro i j e e' flow hi hj hflow hflow'
    obtain ⟨h, hh, rfl⟩ := map_eq_some_iff.1 (getElem?_map ▸ hi)
    obtain ⟨h', hh', rfl⟩ := map_eq_some_iff.1 (getElem?_map ▸ hj)
    have howners := hv.owners
    unfold SimulationImage.generators at howners
    rw [map_flatMap, nodup_flatMap] at howners
    have hpairs := pairwise_iff_getElem.1 howners.2
    obtain ⟨hi', hgeti⟩ := List.getElem?_eq_some_iff.1 hh
    obtain ⟨hj', hgetj⟩ := List.getElem?_eq_some_iff.1 hh'
    rcases Nat.lt_trichotomy i j with hlt | heq | hlt
    · have := hpairs i j hi' hj' hlt
      rw [hgeti, hgetj] at this
      exact absurd hflow' (this hflow)
    · exact heq
    · have := hpairs j i hj' hi' hlt
      rw [hgeti, hgetj] at this
      exact absurd hflow (this hflow')
  · -- What is stored was an initial packet, apart from its transmitter count.
    intro id r hr e he
    obtain ⟨h, hh, rfl⟩ := hhosts e he
    obtain ⟨r₀, hr₀, hsame⟩ := loadTransmitters_descriptor hstore' hr
    rcases loadPackets_mem hstore hr₀ with hold | hmem
    · simp at hold
    · rw [← hsame]
      exact hv.harmless hh (mem_filter.1 hmem).1

/-- Loading a validated image fails on no segment. -/
theorem start_safe : SegmentSafe (scalarStart image) := by
  refine .bind ?_ fun s _ => .bind (initialEventQueue_safe _ _ _) fun _ _ => .ok _
  unfold TransitionState.new
  rw [hv.seeded]
  refine .bind (.ok _) fun _ _ => .bind (.lift _) fun _ _ => .bind (.lift _) fun _ _ => ?_
  exact .bind (.lift _) fun _ _ => .ok _

end

end TcpValidated

/-- In every state a validated image reaches, the bytes in flight of each TCP flow are those
between its highest acknowledgment and its next byte, the segments that start below the next
byte tile them, and any other segment starts at the next byte.  No run fails on a segment. -/
theorem tcp_ledger_invariant (image : SimulationImage) (mode : ObservationMode)
    (horizonNs : Option Nat) (hvalid : validateTcp image = true) :
    (∀ first run : ScalarRun, scalarStart image = .ok first →
      Relation.ReflTransGen (ScalarNext image mode horizonNs) first run →
      ∀ e ∈ run.state.hosts, ∀ g ∈ e.state.generators, ∀ tcp, g.kind = .tcp tcp →
        tcp.bytesInFlight = tcp.nextSequence - tcp.highestAck ∧
        Tiles (below tcp.nextSequence (run.state.tcpSentSegments.block g.flow)) tcp.highestAck
          tcp.nextSequence ∧
        ∀ sequence n, run.state.tcpSentSegments.block g.flow sequence = some n →
          sequence ≤ tcp.nextSequence) ∧
      ∀ fuel error, runScalar image mode horizonNs fuel = some (.error error) →
        LedgerFree error := by
  obtain ⟨ledger, hv⟩ := validateTcp_eq_true hvalid
  constructor
  · intro first run hfirst hrun e he g hg tcp hkind
    have hinv := (hv.start hfirst).run hrun
    obtain ⟨position, hposition⟩ := mem_iff_getElem?.1 hg
    have hsender := (hinv.named e he).found hposition
    have hok := hinv.ok e he g.flow g tcp (HostEntry.tcpSender_eq_some.2 ⟨hsender, hkind⟩)
    exact ⟨hok.flight, hok.tiles, hok.only⟩
  · intro fuel error hrun
    unfold runScalar at hrun
    split at hrun
    · next e hstart =>
      cases hrun
      exact hv.start_safe error hstart
    · next first hfirst =>
      obtain ⟨ended, hended, hresult⟩ := map_eq_some_iff.1 hrun
      have hsafe : SegmentSafe (ended >>= fun run => run.result mode) := by
        refine .bind ((hv.start hfirst).scalarLoop hended) fun run _ => ?_
        exact .bind run.events.intoSortedVec_safe fun _ _ => .ok _
      exact hsafe error hresult

/-- Two hosts with a link each way, and a TCP flow whose first segment is due at 100 ns. -/
def sampleTcpImage : SimulationImage where
  stopTimeNs := 1000000000
  nodes := [⟨0, .host, 0⟩, ⟨1, .host, 1⟩]
  hostStates := [
    { emptyHost with
      generators := [⟨0, 0, 0, ⟨.scheduled, 100, 0⟩, 0, ⟨0, 0, 0⟩, .tcp {
        totalBytes := 3000
        mssBytes := 1000
        ackSizeBytes := 40
        nextSequence := 0
        highestAck := 0
        bytesInFlight := 0
        duplicateAcks := 0
        recoveryHighSequence := 0
        lastAttempt := 0
        timerGeneration := 0
        activeTimer := none
        srttNs := 0
        rttVarNs := 0
        rtoNs := minRtoNs
        control := .reno ⟨1000, 1000, 65535, .slowStart, 0, 0, 0⟩ }⟩]
      nextOriginSeq := 1 },
    { emptyHost with
      egressLink := 1
      tcpReceivers := [⟨0, 40, 0, []⟩]
      nextPayloadSeq := 0 }]
  switchStates := []
  flows := [⟨0, 0, 1, 0, 0, [0], [1]⟩]
  initialPackets := [⟨0, 0, 1000, false, .tcpData ⟨0, 100, false⟩⟩]
  links := [⟨0, 0, 1, 1000000000, 1000⟩, ⟨1, 1, 0, 1000000000, 1000⟩]
  channels := [⟨0, 1, 0, .remoteArrival, 1000⟩, ⟨1, 0, 1, .remoteArrival, 1000⟩]
  initialEvents := [⟨⟨100, eventPhase .packetArrival, 0, 0⟩, 0, .packetArrival, 0⟩]
  seed := 1
  stageJoins := []

/-- Whether some TCP sender of the run meets the condition. -/
def ScalarRun.anySender (run : ScalarRun) (p : FlowGeneratorState → TcpGenerator → Bool) : Bool :=
  run.state.hosts.any fun e => e.state.generators.any fun g =>
    match g.kind with
    | .tcp tcp => p g tcp
    | _ => false

theorem ScalarRun.anySender_eq_true {run : ScalarRun} {p : FlowGeneratorState → TcpGenerator → Bool}
    (h : run.anySender p = true) :
    ∃ e ∈ run.state.hosts, ∃ g ∈ e.state.generators, ∃ tcp, g.kind = .tcp tcp ∧ p g tcp = true := by
  simp only [anySender, List.any_eq_true] at h
  obtain ⟨e, he, g, hg, h⟩ := h
  split at h
  · next tcp hkind => exact ⟨e, he, g, hg, tcp, hkind, h⟩
  · cases h

/-- The first turn of the flow sends its first segment. -/
theorem sampleTcpImage_sends : ∃ first next, scalarStart sampleTcpImage = .ok first ∧
    ScalarNext sampleTcpImage .summary none first next ∧
    ∃ e ∈ next.state.hosts, ∃ g ∈ e.state.generators, ∃ tcp, g.kind = .tcp tcp ∧
      tcp.bytesInFlight ≠ 0 := by
  obtain ⟨turned, hturn, hsome⟩ := exists_ok (scalarStart sampleTcpImage >>=
    scalarStep sampleTcpImage .summary none)
    (·.any (·.anySender fun _ tcp => tcp.bytesInFlight != 0)) (by decide +kernel)
  obtain ⟨next, rfl, hsends⟩ := (any_eq_true _ _).1 hsome
  obtain ⟨first, hfirst, hnext⟩ := bind_ok hturn
  obtain ⟨e, he, g, hg, tcp, hkind, hflight⟩ := ScalarRun.anySender_eq_true hsends
  exact ⟨first, next, hfirst, hnext, e, he, g, hg, tcp, hkind, by simpa using hflight⟩

/-- The segment in flight after that turn. -/
theorem tcp_ledger_invariant_sample :
    validateTcp sampleTcpImage = true ∧
      (∃ first next, scalarStart sampleTcpImage = .ok first ∧
        ScalarNext sampleTcpImage .summary none first next ∧
        ∃ e ∈ next.state.hosts, ∃ g ∈ e.state.generators, ∃ tcp, g.kind = .tcp tcp ∧
          tcp.highestAck < tcp.nextSequence ∧
          Tiles (below tcp.nextSequence (next.state.tcpSentSegments.block g.flow)) tcp.highestAck
            tcp.nextSequence) ∧
      ∀ fuel error, runScalar sampleTcpImage .summary none fuel = some (.error error) →
        LedgerFree error := by
  obtain ⟨first, next, hfirst, hnext, e, he, g, hg, tcp, hkind, hbytes⟩ := sampleTcpImage_sends
  obtain ⟨hledger, hsafe⟩ := tcp_ledger_invariant sampleTcpImage .summary none (by decide +kernel)
  obtain ⟨hflight, htiles, -⟩ := hledger first next hfirst (.single hnext) e he g hg tcp hkind
  exact ⟨by decide +kernel,
    ⟨first, next, hfirst, hnext, e, he, g, hg, tcp, hkind, by omega, htiles⟩, hsafe⟩

/-- A flow that is about to start has its first segment in the ledger although nothing is in
flight. -/
theorem tcp_ledger_reserves_ahead :
    validateTcp sampleTcpImage = true ∧ ∃ first, scalarStart sampleTcpImage = .ok first ∧
      ∃ e ∈ first.state.hosts, ∃ g ∈ e.state.generators, ∃ tcp, g.kind = .tcp tcp ∧
        ¬ Tiles (first.state.tcpSentSegments.block g.flow) tcp.highestAck tcp.nextSequence := by
  refine ⟨by decide +kernel, ?_⟩
  -- A segment at the next byte belongs to no tiling of what is in flight.
  obtain ⟨first, hfirst, hahead⟩ := exists_ok (scalarStart sampleTcpImage) (fun run =>
    run.anySender fun g tcp => (run.state.tcpSentSegments.block g.flow tcp.nextSequence).isSome)
    (by decide +kernel)
  obtain ⟨e, he, g, hg, tcp, hkind, hblock⟩ := ScalarRun.anySender_eq_true hahead
  refine ⟨first, hfirst, e, he, g, hg, tcp, hkind, fun htiles => ?_⟩
  obtain ⟨n, hn⟩ := Option.isSome_iff_exists.1 hblock
  have := htiles.inside _ _ hn
  omega

/-- TCP senders.  In every state that a serial run of a validated image goes through, no flow is sent
by two hosts, and each sender keeps what the validator asked of it: it has acknowledged no more than
it sent and sent no more than it has, a recovery ends within what was sent, a scheduled sender has no
timer, and while bytes are in flight the segment a retransmission would repeat is in the ledger. -/
theorem tcp_senders_stay_valid (image : SimulationImage) (mode : ObservationMode)
    (horizonNs : Option Nat) (hvalid : validateTcp image = true) (first run : ScalarRun)
    (hfirst : scalarStart image = .ok first)
    (hrun : Relation.ReflTransGen (ScalarNext image mode horizonNs) first run) :
    (∀ (i j : Nat) (e e' : HostEntry), run.state.hosts[i]? = some e → run.state.hosts[j]? = some e' →
      ∀ g ∈ e.state.generators, ∀ g' ∈ e'.state.generators, g.flow = g'.flow → i = j) ∧
    ∀ e ∈ run.state.hosts, ∀ g ∈ e.state.generators, ∀ tcp, g.kind = .tcp tcp →
      tcp.highestAck ≤ tcp.nextSequence ∧ tcp.nextSequence ≤ tcp.totalBytes ∧
      (tcp.control.phase = .fastRecovery → tcp.recoveryHighSequence ≤ tcp.nextSequence) ∧
      (g.nextEmission.status = .scheduled → tcp.activeTimer = none) ∧
      (tcp.activeTimer.isSome → tcp.bytesInFlight ≠ 0) ∧
      (tcp.bytesInFlight ≠ 0 → (run.state.tcpSentSegments.block g.flow tcp.highestAck).isSome) := by
  obtain ⟨ledger, hv⟩ := validateTcp_eq_true hvalid
  have hinv := (hv.start hfirst).run hrun
  refine ⟨fun i j e e' he he' g hg g' hg' hflow => ?_, fun e he g hg tcp hkind => ?_⟩
  · exact hinv.apart i j e e' g.flow he he' (mem_map_of_mem hg) (hflow ▸ mem_map_of_mem hg')
  · obtain ⟨position, hposition⟩ := mem_iff_getElem?.1 hg
    have hsender := (hinv.named e he).found hposition
    have hok := hinv.ok e he g.flow g tcp (HostEntry.tcpSender_eq_some.2 ⟨hsender, hkind⟩)
    have hflight := hok.flight
    refine ⟨hok.ack_le, hok.next_le, hok.recovery, fun hheld => (hok.held hheld).1, fun htimer => ?_,
      fun hbytes => ?_⟩
    · have := hok.timer htimer
      omega
    · obtain ⟨n, hn⟩ := hok.first (by omega)
      rw [hn]
      rfl

/-- The sender of the sample after its first turn: bytes are in flight, and the segment that a
retransmission would repeat is in the ledger. -/
theorem tcp_senders_stay_valid_sample : ∃ first next, scalarStart sampleTcpImage = .ok first ∧
    ScalarNext sampleTcpImage .summary none first next ∧
    ∃ e ∈ next.state.hosts, ∃ g ∈ e.state.generators, ∃ tcp, g.kind = .tcp tcp ∧
      tcp.bytesInFlight ≠ 0 ∧ tcp.nextSequence ≤ tcp.totalBytes ∧
      (next.state.tcpSentSegments.block g.flow tcp.highestAck).isSome := by
  obtain ⟨first, next, hfirst, hnext, e, he, g, hg, tcp, hkind, hbytes⟩ := sampleTcpImage_sends
  obtain ⟨-, hle, -, -, -, hledger⟩ := (tcp_senders_stay_valid sampleTcpImage .summary none
    (by decide +kernel) first next hfirst (.single hnext)).2 e he g hg tcp hkind
  exact ⟨first, next, hfirst, hnext, e, he, g, hg, tcp, hkind, hbytes, hle, hledger hbytes⟩

end Days
