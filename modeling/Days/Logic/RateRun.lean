/-
  Days.Logic.RateRun — a rate source run tick by tick against the validator's
  closed forms.

  After `t` ticks with `j` packets sent the credit is what `t` ticks earn less
  what `j` packets cost, and `j` is the number of packets paid by then.
-/
import Days.Logic.RateTicks
import Days.Logic.Pair

namespace Days

open List Option

variable {c : Ctx} {pacer : RatePacer}

open Lib.Pacing

/-! ## §1. Runs of a rate source. -/

/-- A rate source with its host and the packet that serves as its timer token. -/
structure RatePacer where
  entry : HostEntry
  generator : FlowGeneratorState
  rate : RateGenerator
  token : PacketDescriptor

/-- The context of the timer event a source waits for. -/
def Ctx.atTick (c : Ctx) (g : FlowGeneratorState) : Ctx :=
  { c with
    event :=
      { c.event with
        key := { c.event.key with timeNs := g.nextEmission.departureTimeNs }
        payload := g.nextEmission.payload } }

namespace RatePacer

/-- The source waits for a tick that the run still executes. -/
def ticking (c : Ctx) (pacer : RatePacer) : Bool :=
  pacer.generator.awaitsTick (c.atTick pacer.generator) &&
    decide (pacer.generator.nextEmission.departureTimeNs ≤ c.image.stopTimeNs)

/-- The tick of `hostRatePacingTimer`. -/
def tick (c : Ctx) (pacer : RatePacer) : Except PlainError (Paced × RatePacer) := do
  let paced ← paceStep (c.atTick pacer.generator) pacer.token pacer.rate
    pacer.rate.rateNumeratorBitsPerSecond pacer.entry pacer.generator
  let rate := { pacer.rate with creditQuanta := paced.creditQuanta }
  return (paced, {
    entry := paced.entry
    generator := { paced.generator with kind := .rate rate }
    rate
    token := paced.nextPacket.getD pacer.token })

/-- The ticks until the source has finished or passed the stop time: each with its token. -/
def run (c : Ctx) : Nat → RatePacer → Except PlainError (List (PacketDescriptor × Paced) × RatePacer)
  | 0, pacer => .ok ([], pacer)
  | fuel + 1, pacer =>
    if pacer.ticking c then do
      let (paced, next) ← pacer.tick c
      let (log, last) ← run c fuel next
      return ((pacer.token, paced) :: log, last)
    else .ok ([], pacer)

end RatePacer

theorem Ctx.atTick_of_awaits {c : Ctx} {g : FlowGeneratorState} (h : g.awaitsTick c = true) :
    c.atTick g = c := by
  simp only [FlowGeneratorState.awaitsTick, Bool.and_eq_true, beq_iff_eq] at h
  obtain ⟨⟨-, hpayload⟩, htime⟩ := h
  unfold Ctx.atTick
  rw [hpayload, htime]
  rfl

theorem lift_map_bind {α β γ : Type} (x : Except PlainError α) (f : α → β) (k : β → Prog γ) :
    ((liftM (x >>= fun a => pure (f a)) : Prog β) >>= k) = (liftM x : Prog α) >>= fun a => k (f a) := by
  cases x <;> rfl

/-- The handler takes the tick of the source it finds, and writes that source back. -/
theorem hostRatePacingTimer_tick (c : Ctx) (p : PacketDescriptor) :
    hostRatePacingTimer c p = (do
      let entry ← getHost
      match entry.index.firstGenerator p.flow with
      | none => return ()
      | some position =>
        let generator ← okOr entry.state.generators[position]? (.unknownGenerator c.node.id p.flow)
        match generator.kind with
        | .rate rate =>
          Prog.when (generator.awaitsTick c) do
            let (paced, next) ← (⟨entry, generator, rate, p⟩ : RatePacer).tick c
            setHost (paced.entry.setGenerator position next.generator)
            Prog.when c.full (pushMechanism (rateRecord c p rate generator paced))
            finishPacedTick c p paced
        | _ => return ()) := by
  refine congrArg (getHost >>= ·) (funext fun entry => ?_)
  cases entry.index.firstGenerator p.flow with
  | none => dsimp only
  | some position =>
    refine congrArg (_ >>= ·) (funext fun generator => ?_)
    cases generator.kind with
    | rate rate =>
      cases hawaits : generator.awaitsTick c with
      | false => simp only [Prog.when, Bool.false_eq_true, if_false]
      | true => simp only [RatePacer.tick, Ctx.atTick_of_awaits hawaits, Prog.when, if_true, lift_map_bind]
    | _ => dsimp only

/-- The packets a run sent. -/
def sentPackets (log : List (PacketDescriptor × Paced)) : List PacketDescriptor :=
  (log.filter (·.2.emitted)).map Prod.fst

/-- The validator's conditions on a rate source and its token. -/
structure RatePacer.Valid (pacer : RatePacer) : Prop where
  positive : pacer.rate.Positive
  counted : Counted pacer.generator pacer.rate
  tickCredit : pacer.rate.tickCredit ≤ pacer.rate.fullPacketCost
  credit : pacer.rate.fullPacketCost - 1 + pacer.rate.tickCredit < width 128
  active : pacer.generator.nextEmission.status = .scheduled ∨
      pacer.generator.nextEmission.status = .blocked →
    0 < remainingBytes pacer.generator pacer.rate ∧
      pacer.token.sizeBytes =
        min pacer.rate.packetSizeBytes (remainingBytes pacer.generator pacer.rate) ∧
      pacer.rate.creditQuanta + pacer.rate.tickCredit < width 128
  finished : pacer.generator.nextEmission.status = .finished →
    remainingBytes pacer.generator pacer.rate = 0

/-- The clock, the counters and the payload ids suffice for the counts of the closed forms. -/
structure RatePacer.Fits (c : Ctx) (pacer : RatePacer) : Prop where
  time : ∀ ticks,
    executableRatePacingTicks c.image.stopTimeNs pacer.generator pacer.rate = .ok ticks →
    pacer.generator.nextEmission.departureTimeNs + ticks * pacer.rate.pacingIntervalNs < width 64
  sourced : ∀ packets,
    executableRatePackets c.image.stopTimeNs pacer.generator pacer.rate = .ok packets →
    pacer.entry.state.sourcedPackets + packets < width 64
  payloads : ∀ allocations,
    ratePayloadAllocations c.image.stopTimeNs pacer.generator pacer.rate = .ok allocations →
    ∀ i < allocations, (PayloadId.fromNodeSequence c.node.id c.nodeCount
      (pacer.entry.state.nextPayloadSeq + i)).isSome

/-! ## §2. One tick. -/

section PaceStep

variable {c : Ctx} {p : PacketDescriptor} {rate : RateGenerator} {rateBps scale tickCredit cost credit : Nat}
  {entry : HostEntry} {g : FlowGeneratorState} {emitted : Bool} {left : Nat} {entry' : HostEntry}
  {g' : FlowGeneratorState}

/-- The arithmetic of a tick and what it spends. -/
structure Spends (c : Ctx) (p : PacketDescriptor) (rate : RateGenerator) (rateBps scale tickCredit : Nat)
    (entry : HostEntry) (g : FlowGeneratorState) (emitted : Bool) (left : Nat) (entry' : HostEntry)
    (g' : FlowGeneratorState) : Prop where
  hscale : pacingCreditScale rate.rateDenominator = some scale
  htick : pacingTickCredit rateBps rate.pacingIntervalNs = some tickCredit
  spent : ∃ cost credit, pacedPacketCost p.sizeBytes scale = some cost ∧
    checkedAdd 128 rate.creditQuanta tickCredit = some credit ∧
    spendTick c p credit cost entry g = .ok (emitted, left, entry', g')

/-- A tick whose credit covers the packet sends it. -/
theorem spendTick_pays {credit cost : Nat} (hpays : cost ≤ credit)
    (hpackets : g.packetsEmitted + 1 < width 64) (hbytes : g.bytesEmitted + p.sizeBytes < width 64)
    (hsourced : entry.state.sourcedPackets + 1 < width 64) :
    spendTick c p credit cost entry g = .ok (true, credit - cost,
      { entry with state := { entry.state with sourcedPackets := entry.state.sourcedPackets + 1 } },
      { g with
        packetsEmitted := g.packetsEmitted + 1
        bytesEmitted := g.bytesEmitted + p.sizeBytes }) := by
  unfold spendTick
  rw [if_pos hpays]
  exact bind_eq_ok.2 ⟨_, okOr_eq_ok.2 (checkedAdd_of_lt hpackets),
    bind_eq_ok.2 ⟨_, okOr_eq_ok.2 (checkedAdd_of_lt hbytes),
      bind_eq_ok.2 ⟨_, bind_eq_ok.2 ⟨_, okOr_eq_ok.2 (checkedAdd_of_lt hsourced), rfl⟩, rfl⟩⟩⟩

theorem nextTick_of_lt (flow : FlowId) (hmore : g'.bytesEmitted < rate.totalBytes)
    (htime : c.now + rate.pacingIntervalNs < width 64) :
    nextTick c flow rate g' = .ok (some (c.now + rate.pacingIntervalNs)) := by
  unfold nextTick
  rw [if_neg (Nat.not_le.2 hmore)]
  exact bind_eq_ok.2 ⟨_, okOr_eq_ok.2 (checkedAdd_of_lt htime), rfl⟩

section

variable (h : Spends c p rate rateBps scale tickCredit entry g emitted left entry' g')

include h

theorem paceStep_finishes (hdone : rate.totalBytes ≤ g'.bytesEmitted) :
    paceStep c p rate rateBps entry g = .ok {
      entry := entry'
      generator := { g' with nextEmission := { g'.nextEmission with status := .finished } }
      creditQuanta := left
      emitted
      nextPacket := none
      nextTimer := none } := by
  have hnext : nextTick c p.flow rate g' = .ok none := if_pos hdone
  obtain ⟨cost, credit, hcost, hcredit, hspend⟩ := h.spent
  exact bind_eq_ok.2 ⟨_, okOr_eq_ok.2 h.hscale, bind_eq_ok.2 ⟨_, okOr_eq_ok.2 h.htick,
    bind_eq_ok.2 ⟨_, okOr_eq_ok.2 hcost, bind_eq_ok.2 ⟨_, okOr_eq_ok.2 hcredit,
      bind_eq_ok.2 ⟨_, hspend, bind_eq_ok.2 ⟨_, hnext, rfl⟩⟩⟩⟩⟩⟩

theorem paceStep_stops
    (hmore : g'.bytesEmitted < rate.totalBytes) (htime : c.now + rate.pacingIntervalNs < width 64)
    (hlate : c.image.stopTimeNs < c.now + rate.pacingIntervalNs) :
    paceStep c p rate rateBps entry g = .ok {
      entry := entry'
      generator :=
        { g' with
          nextEmission :=
            { g'.nextEmission with
              status := .stopped
              departureTimeNs := c.now + rate.pacingIntervalNs } }
      creditQuanta := left
      emitted
      nextPacket := none
      nextTimer := none } := by
  have hcandidate := nextTick_of_lt p.flow hmore htime
  have hfilter : (some (c.now + rate.pacingIntervalNs)).filter (· ≤ c.image.stopTimeNs) = none :=
    filter_eq_none_iff.2 fun _ ha => by
      obtain rfl := some.inj ha
      simpa using hlate
  obtain ⟨cost, credit, hcost, hcredit, hspend⟩ := h.spent
  refine bind_eq_ok.2 ⟨_, okOr_eq_ok.2 h.hscale, bind_eq_ok.2 ⟨_, okOr_eq_ok.2 h.htick,
    bind_eq_ok.2 ⟨_, okOr_eq_ok.2 hcost, bind_eq_ok.2 ⟨_, okOr_eq_ok.2 hcredit,
      bind_eq_ok.2 ⟨_, hspend, bind_eq_ok.2 ⟨_, hcandidate, ?_⟩⟩⟩⟩⟩⟩
  simp only [hfilter]
  rfl

theorem paceStep_continues {token : PacketDescriptor} {entry'' : HostEntry} {nextCost : Nat}
    (hmore : g'.bytesEmitted < rate.totalBytes) (htime : c.now + rate.pacingIntervalNs < width 64)
    (hnext : c.now + rate.pacingIntervalNs ≤ c.image.stopTimeNs)
    (htoken : nextToken c p rate.packetSizeBytes (rate.totalBytes - g'.bytesEmitted) emitted entry' =
      .ok (token, entry'')) (hcost : pacedPacketCost token.sizeBytes scale = some nextCost) :
    ∃ status, (status = .scheduled ∨ status = .blocked) ∧
    paceStep c p rate rateBps entry g = .ok {
      entry := entry''
      generator :=
        { g' with nextEmission := ⟨status, c.now + rate.pacingIntervalNs, token.id⟩ }
      creditQuanta := left
      emitted
      nextPacket := if emitted then some token else none
      nextTimer := some (token.id, c.now + rate.pacingIntervalNs) } := by
  have hcandidate := nextTick_of_lt p.flow hmore htime
  have hfilter : (some (c.now + rate.pacingIntervalNs)).filter (· ≤ c.image.stopTimeNs) =
      some (c.now + rate.pacingIntervalNs) :=
    filter_eq_some_iff.2 ⟨rfl, decide_eq_true hnext⟩
  obtain ⟨cost, credit, hspentCost, hcredit, hspend⟩ := h.spent
  let covered := (checkedAdd 128 left tickCredit).any fun credit => decide (credit ≥ nextCost)
  refine ⟨if covered then .scheduled else .blocked, by cases covered <;> simp, ?_⟩
  refine bind_eq_ok.2 ⟨_, okOr_eq_ok.2 h.hscale, bind_eq_ok.2 ⟨_, okOr_eq_ok.2 h.htick,
    bind_eq_ok.2 ⟨_, okOr_eq_ok.2 hspentCost, bind_eq_ok.2 ⟨_, okOr_eq_ok.2 hcredit,
      bind_eq_ok.2 ⟨_, hspend, bind_eq_ok.2 ⟨_, hcandidate, ?_⟩⟩⟩⟩⟩⟩
  simp only [hfilter]
  exact bind_eq_ok.2 ⟨_, htoken, bind_eq_ok.2 ⟨_, okOr_eq_ok.2 hcost, rfl⟩⟩

end

end PaceStep

/-! ## §3. The state after some ticks. -/

theorem checkedMul_of_lt {w a b : Nat} (h : a * b < width w) : checkedMul w a b = some (a * b) :=
  if_pos h

/-- The credit left of `t` ticks after `j` packets. -/
def creditAfter (start : RatePacer) (t j : Nat) : Nat :=
  start.rate.creditQuanta + t * start.rate.tickCredit - costOf start.generator start.rate j

/-- A source that started as `start`, after `t` ticks and `j` packets. -/
structure Paces (start pacer : RatePacer) (t j : Nat) : Prop where
  rate : pacer.rate = { start.rate with creditQuanta := creditAfter start t j }
  status : pacer.generator.nextEmission.status = .scheduled ∨
    pacer.generator.nextEmission.status = .blocked
  departure : pacer.generator.nextEmission.departureTimeNs =
    start.generator.nextEmission.departureTimeNs + t * start.rate.pacingIntervalNs
  packets : pacer.generator.packetsEmitted = start.generator.packetsEmitted + j
  bytes : pacer.generator.bytesEmitted =
    start.generator.bytesEmitted + bytesOf start.generator start.rate j
  token : pacer.token.sizeBytes = min start.rate.packetSizeBytes
    (remainingBytes start.generator start.rate - bytesOf start.generator start.rate j)
  sourced : pacer.entry.state.sourcedPackets = start.entry.state.sourcedPackets + j
  sequence : pacer.entry.state.nextPayloadSeq = start.entry.state.nextPayloadSeq + j
  sent : SentBy start.generator start.rate t j
  more : j < packetsLeft start.generator start.rate
  credit : creditAfter start t j ≤ max start.rate.creditQuanta (start.rate.fullPacketCost - 1)

namespace RatePacer.Valid

variable {start : RatePacer}

section

variable (h : start.Valid)

include h

theorem fullPacketCost_lt : start.rate.fullPacketCost < width 128 := by
  have hcredit := h.credit
  have htick := h.positive.tickCredit_pos
  omega

theorem scale_ok : pacingCreditScale start.rate.rateDenominator = some start.rate.scale := by
  have hle : start.rate.scale ≤ start.rate.fullPacketCost :=
    Nat.le_mul_of_pos_left _ (Nat.mul_pos h.positive.packetSize (by decide))
  exact checkedMul_of_lt (hle.trans_lt h.fullPacketCost_lt)

theorem tickCredit_ok :
    pacingTickCredit start.rate.rateNumeratorBitsPerSecond start.rate.pacingIntervalNs =
      some start.rate.tickCredit :=
  checkedMul_of_lt (h.tickCredit.trans_lt h.fullPacketCost_lt)

theorem packetCost_ok {size : Nat} (hsize : size ≤ start.rate.packetSizeBytes) :
    pacedPacketCost size start.rate.scale = some (size * 8 * start.rate.scale) := by
  have hcost : size * 8 * start.rate.scale < width 128 :=
    (Nat.mul_le_mul_right _ (Nat.mul_le_mul_right _ hsize)).trans_lt h.fullPacketCost_lt
  have hbits : size * 8 < width 128 :=
    (Nat.le_mul_of_pos_right _ h.positive.scale_pos).trans_lt hcost
  unfold pacedPacketCost
  rw [checkedMul_of_lt hbits, bind_some, checkedMul_of_lt hcost]

/-- Neither counter of the generator can overflow before the last byte. -/
theorem packets_lt {j : Nat} (hj : j < packetsLeft start.generator start.rate) :
    start.generator.packetsEmitted + j + 1 < width 64 := by
  have hleft := packetsLeft_le (g := start.generator) h.positive
  have hbytes := h.counted.bytes
  have htotal := h.counted.total
  have hmul := Nat.le_mul_of_pos_right start.generator.packetsEmitted h.positive.packetSize
  unfold remainingBytes at hleft
  omega

theorem bytes_lt (j : Nat) :
    start.generator.bytesEmitted + bytesOf start.generator start.rate j < width 64 := by
  have hle : bytesOf start.generator start.rate j ≤ _ := bytesOf_le j
  have hbytes := h.counted.bytes
  have htotal := h.counted.total
  unfold remainingBytes at hle
  omega

end

end RatePacer.Valid

/-! ## §4. A tick keeps the plan. -/

section Tick

variable {c : Ctx} {start pacer : RatePacer} {t j : Nat}

theorem Paces.covered (h : Paces start pacer t j) (hvalid : start.Valid) :
    costOf start.generator start.rate j ≤
      start.rate.creditQuanta + t * start.rate.tickCredit := by
  have hzero : costOf start.generator start.rate 0 = 0 := by simp [costOf, bytesOf]
  exact total_le_of_payTick_le hvalid.positive.tickCredit_pos hzero h.sent.paid

/-- What a tick spends: the next packet exactly when the plan sends it now. -/
theorem Paces.spends (h : Paces start pacer t j) (hvalid : start.Valid)
    (hcredit : start.rate.creditQuanta + start.rate.tickCredit < width 128)
    (hsourced : ∀ k, SentBy start.generator start.rate (t + 1) k →
      start.entry.state.sourcedPackets + k < width 64) :
    ∃ emitted j' entry' g', Spends (c.atTick pacer.generator) pacer.token pacer.rate
        pacer.rate.rateNumeratorBitsPerSecond start.rate.scale start.rate.tickCredit pacer.entry
        pacer.generator emitted (creditAfter start (t + 1) j') entry' g' ∧
      (emitted = true ∧ j' = j + 1 ∨ emitted = false ∧ j' = j) ∧
      SentBy start.generator start.rate (t + 1) j' ∧
      g'.packetsEmitted = start.generator.packetsEmitted + j' ∧
      g'.bytesEmitted = start.generator.bytesEmitted + bytesOf start.generator start.rate j' ∧
      g'.nextEmission = pacer.generator.nextEmission ∧
      entry'.state.sourcedPackets = start.entry.state.sourcedPackets + j' ∧
      entry'.state.nextPayloadSeq = start.entry.state.nextPayloadSeq + j ∧
      (j' < packetsLeft start.generator start.rate →
        creditAfter start (t + 1) j' ≤ max start.rate.creditQuanta (start.rate.fullPacketCost - 1)) := by
  have hpos := hvalid.positive
  have hcovered := h.covered hvalid
  have hsucc : costOf start.generator start.rate (j + 1) = _ := costOf_succ j
  have hfull := hvalid.tickCredit
  have hbound := hvalid.credit
  have hheld := h.credit
  have htoken := h.token
  have hsize : pacer.token.sizeBytes ≤ start.rate.packetSizeBytes := by rw [htoken]; omega
  have hcost := hvalid.packetCost_ok hsize
  have hcheap : pacer.token.sizeBytes * 8 * start.rate.scale ≤ start.rate.fullPacketCost :=
    Nat.mul_le_mul_right _ (Nat.mul_le_mul_right _ hsize)
  rw [← htoken] at hsucc
  have hmul : (t + 1) * start.rate.tickCredit = t * start.rate.tickCredit + start.rate.tickCredit :=
    Nat.succ_mul _ _
  have hsends := payTick_succ_eq_iff hpos.tickCredit_pos h.sent.paid (h.sent.unpaid h.more)
  have hlater : sendTick start.generator start.rate (j + 1) <
      sendTick start.generator start.rate (j + 1 + 1) := payTick_lt_succ (j + 1)
  have hadd : checkedAdd 128 pacer.rate.creditQuanta start.rate.tickCredit =
      some (creditAfter start t j + start.rate.tickCredit) := by
    rw [h.rate]
    refine checkedAdd_of_lt ?_
    show creditAfter start t j + start.rate.tickCredit < width 128
    omega
  have hscale : pacingCreditScale pacer.rate.rateDenominator = some start.rate.scale := by
    rw [h.rate]; exact hvalid.scale_ok
  have htick : pacingTickCredit pacer.rate.rateNumeratorBitsPerSecond pacer.rate.pacingIntervalNs =
      some start.rate.tickCredit := by
    rw [h.rate]; exact hvalid.tickCredit_ok
  by_cases hpays : pacer.token.sizeBytes * 8 * start.rate.scale ≤
      creditAfter start t j + start.rate.tickCredit
  · have hnow : sendTick start.generator start.rate (j + 1) = t + 1 := by
      refine hsends.2 ?_
      unfold creditAfter at hpays
      omega
    have hsent : SentBy start.generator start.rate (t + 1) (j + 1) :=
      ⟨h.more, hnow.le, fun _ => hnow ▸ hlater⟩
    have hleft : creditAfter start t j + start.rate.tickCredit
        - pacer.token.sizeBytes * 8 * start.rate.scale = creditAfter start (t + 1) (j + 1) := by
      unfold creditAfter
      omega
    have hpackets : pacer.generator.packetsEmitted + 1 < width 64 := by
      rw [h.packets]; exact hvalid.packets_lt h.more
    have hbytes : pacer.generator.bytesEmitted + pacer.token.sizeBytes =
        start.generator.bytesEmitted + bytesOf start.generator start.rate (j + 1) := by
      rw [bytesOf_succ, h.bytes, htoken, Nat.add_assoc]
    have hfits := hsourced (j + 1) hsent
    have hcount := h.sourced
    have hspend := spendTick_pays (c := c.atTick pacer.generator) (p := pacer.token) hpays hpackets
      (hbytes ▸ hvalid.bytes_lt (j + 1)) (show pacer.entry.state.sourcedPackets + 1 < width 64 by omega)
    rw [hleft] at hspend
    refine ⟨true, j + 1, _, _, ⟨hscale, htick, _, _, hcost, hadd, hspend⟩, .inl ⟨rfl, rfl⟩, hsent,
      ?_, hbytes, rfl, ?_, h.sequence, fun hmore => ?_⟩
    · show pacer.generator.packetsEmitted + 1 = _
      rw [h.packets, Nat.add_assoc]
    · show pacer.entry.state.sourcedPackets + 1 = _
      rw [hcount, Nat.add_assoc]
    · -- A packet that is not the last has the full size, so it costs at least what a tick earns.
      have hlong := (lt_packetsLeft_iff hpos).1 hmore
      rw [Nat.succ_mul] at hlong
      rw [bytesOf_of_lt hpos h.more, Nat.min_eq_left (by omega)] at htoken
      rw [htoken] at hleft
      unfold RateGenerator.fullPacketCost at hfull hheld ⊢
      omega
  · have hwait : sendTick start.generator start.rate (j + 1) ≠ t + 1 := by
      intro hnow
      have hpaid := hsends.1 hnow
      unfold creditAfter at hpays
      omega
    have hafter : t < sendTick start.generator start.rate (j + 1) := h.sent.unpaid h.more
    have hpaid : sendTick start.generator start.rate j ≤ t := h.sent.paid
    have hkept : creditAfter start t j + start.rate.tickCredit = creditAfter start (t + 1) j := by
      unfold creditAfter
      omega
    refine ⟨false, j, pacer.entry, pacer.generator, ⟨hscale, htick, _, _, hcost, hadd, ?_⟩,
      .inr ⟨rfl, rfl⟩, ⟨h.more.le, Nat.le_succ_of_le hpaid, fun _ => show t + 1 < _ from ?_⟩, h.packets, h.bytes, rfl,
      h.sourced, h.sequence, fun _ => ?_⟩
    · unfold spendTick
      rw [if_neg hpays, hkept]
    · exact lt_of_le_of_ne hafter (Ne.symm hwait)
    · omega

/-- The token of the next tick has the size of the next packet. -/
theorem nextToken_ok (p : PacketDescriptor) (size left : Nat) (emitted : Bool) (entry' : HostEntry)
    (hsize : emitted = false → p.sizeBytes = min size left) (hpayload : emitted = true →
      (PayloadId.fromNodeSequence c.node.id c.nodeCount entry'.state.nextPayloadSeq).isSome) :
    ∃ token entry'', nextToken c p size left emitted entry' =
        .ok (token, entry'') ∧
      token.sizeBytes = min size left ∧
      (emitted = false → token = p) ∧
      entry''.state.sourcedPackets = entry'.state.sourcedPackets ∧
      entry''.state.nextPayloadSeq = entry'.state.nextPayloadSeq + if emitted then 1 else 0 := by
  cases emitted with
  | false => exact ⟨p, entry', rfl, hsize rfl, fun _ => rfl, rfl, rfl⟩
  | true =>
    obtain ⟨payload, hid⟩ := isSome_iff_exists.1 (hpayload rfl)
    have hroom : ∃ next, checkedAdd 64 entry'.state.nextPayloadSeq 1 = some next := by
      obtain ⟨next, hnext, _⟩ := bind_eq_some_iff.1 hid
      exact ⟨next, hnext⟩
    obtain ⟨next, hnext⟩ := hroom
    refine ⟨⟨payload, p.flow, min size left, false, .data⟩,
      { entry' with state := { entry'.state with nextPayloadSeq := next } },
      bind_eq_ok.2 ⟨_, bind_eq_ok.2 ⟨_, okOr_eq_ok.2 hid, bind_eq_ok.2 ⟨_, okOr_eq_ok.2 hnext, rfl⟩⟩,
        rfl⟩, rfl, nofun, rfl, ?_⟩
    exact (checkedAdd_eq_some hnext).1

/-- A tick after which the source does not tick again. -/
structure Ends (c : Ctx) (start next : RatePacer) (t j j' : Nat) : Prop where
  idle : next.ticking c = false
  cause : j' = packetsLeft start.generator start.rate ∨
    c.image.stopTimeNs <
      start.generator.nextEmission.departureTimeNs + t * start.rate.pacingIntervalNs
  sequence : next.entry.state.nextPayloadSeq = start.entry.state.nextPayloadSeq + j
  finished : next.generator.nextEmission.status = .finished ↔
    j' = packetsLeft start.generator start.rate

/-- One tick of a source that follows its plan. -/
theorem Paces.tick (h : Paces start pacer t j) (hvalid : start.Valid)
    (hcredit : start.rate.creditQuanta + start.rate.tickCredit < width 128)
    (htime : start.generator.nextEmission.departureTimeNs
      + (t + 1) * start.rate.pacingIntervalNs < width 64)
    (hsourced : ∀ k, SentBy start.generator start.rate (t + 1) k →
      start.entry.state.sourcedPackets + k < width 64)
    (hpayload : ∀ k, SentBy start.generator start.rate (t + 1) k →
      k < packetsLeft start.generator start.rate →
      start.generator.nextEmission.departureTimeNs + (t + 1) * start.rate.pacingIntervalNs ≤
        c.image.stopTimeNs →
      ∀ i < k, (PayloadId.fromNodeSequence c.node.id c.nodeCount
        (start.entry.state.nextPayloadSeq + i)).isSome) :
    ∃ paced next j', pacer.tick c = .ok (paced, next) ∧
      (paced.emitted = true ∧ j' = j + 1 ∨ paced.emitted = false ∧ j' = j) ∧
      SentBy start.generator start.rate (t + 1) j' ∧
      next.generator.bytesEmitted =
        start.generator.bytesEmitted + bytesOf start.generator start.rate j' ∧
      (Paces start next (t + 1) j' ∧
          start.generator.nextEmission.departureTimeNs + (t + 1) * start.rate.pacingIntervalNs ≤
            c.image.stopTimeNs ∨
        Ends c start next (t + 1) j j') := by
  obtain ⟨emitted, j', entry', g', hspends, hemitted, hsent, hpackets, hbytes, hpending, hcount,
    hsequence, hkept⟩ := h.spends hvalid hcredit hsourced
  have hnow : (c.atTick pacer.generator).now + pacer.rate.pacingIntervalNs =
      start.generator.nextEmission.departureTimeNs + (t + 1) * start.rate.pacingIntervalNs := by
    rw [h.rate, Nat.succ_mul, ← Nat.add_assoc, ← h.departure]
    rfl
  have htotal : pacer.rate.totalBytes = start.rate.totalBytes := by rw [h.rate]
  have hused : start.generator.bytesEmitted ≤ start.rate.totalBytes := by
    rw [hvalid.counted.bytes]; omega
  have hall := bytesOf_lt_iff (g := start.generator) hvalid.positive (j := j')
  have hmost : bytesOf start.generator start.rate j' ≤ _ := bytesOf_le j'
  unfold remainingBytes at hall hmost
  by_cases hdone : j' = packetsLeft start.generator start.rate
  · -- The last packet is sent.
    have hstep := paceStep_finishes hspends (by omega)
    refine ⟨_, _, j', bind_eq_ok.2 ⟨_, hstep, rfl⟩, hemitted, hsent, hbytes, .inr ⟨?_, .inl hdone,
      hsequence, iff_of_true rfl hdone⟩⟩
    simp [RatePacer.ticking, FlowGeneratorState.awaitsTick]
  · have hmore : j' < packetsLeft start.generator start.rate := lt_of_le_of_ne hsent.le hdone
    have hbelow : g'.bytesEmitted < pacer.rate.totalBytes := by
      have := hall.2 hmore
      omega
    by_cases hlate : c.image.stopTimeNs <
        start.generator.nextEmission.departureTimeNs + (t + 1) * start.rate.pacingIntervalNs
    · -- The next tick lies past the stop time.
      have hstep := paceStep_stops hspends hbelow (hnow ▸ htime) (hnow ▸ hlate)
      refine ⟨_, _, j', bind_eq_ok.2 ⟨_, hstep, rfl⟩, hemitted, hsent, hbytes, .inr ⟨?_, .inr hlate,
        hsequence, iff_of_false nofun hdone⟩⟩
      simp [RatePacer.ticking, FlowGeneratorState.awaitsTick]
    · have hrest : start.rate.totalBytes - g'.bytesEmitted =
          remainingBytes start.generator start.rate - bytesOf start.generator start.rate j' := by
        unfold remainingBytes
        omega
      obtain ⟨token, entry'', htoken, hsize, hsame, hkeeps, hfresh⟩ :=
        nextToken_ok (c := c.atTick pacer.generator) pacer.token start.rate.packetSizeBytes
          (start.rate.totalBytes - g'.bytesEmitted) emitted entry'
          (by
            rintro rfl
            obtain ⟨hfalse, -⟩ | ⟨-, rfl⟩ := hemitted
            · cases hfalse
            · rw [hrest]; exact h.token)
          (by
            rintro rfl
            obtain ⟨-, rfl⟩ | ⟨hfalse, -⟩ := hemitted
            · rw [hsequence]
              exact hpayload (j + 1) hsent hmore (Nat.le_of_not_lt hlate) j (Nat.lt_succ_self j)
            · cases hfalse)
      have hfits : pacedPacketCost token.sizeBytes start.rate.scale = some _ :=
        hvalid.packetCost_ok (by rw [hsize]; omega)
      obtain ⟨status, hstatus, hstep⟩ := paceStep_continues hspends hbelow (hnow ▸ htime)
        (hnow ▸ Nat.le_of_not_lt hlate) (by rw [h.rate]; exact htoken) hfits
      refine ⟨_, _, j', bind_eq_ok.2 ⟨_, hstep, rfl⟩, hemitted, hsent, hbytes,
        .inl ⟨⟨?_, hstatus, hnow, hpackets, hbytes, ?_, ?_, ?_, hsent, hmore, hkept hmore⟩,
          Nat.le_of_not_lt hlate⟩⟩
      · rw [h.rate]
      · rw [← hrest]
        cases emitted with
        | true => exact hsize
        | false => rw [← hsize, hsame rfl]; rfl
      · exact hkeeps.trans hcount
      · refine hfresh.trans ?_
        obtain ⟨rfl, rfl⟩ | ⟨rfl, rfl⟩ := hemitted
        · rw [hsequence]; rfl
        · rw [hsequence]; rfl

end Tick

/-- A waiting source starts its plan. -/
theorem Paces.start {start : RatePacer} (hvalid : start.Valid)
    (hactive : start.generator.nextEmission.status = .scheduled ∨
      start.generator.nextEmission.status = .blocked) : Paces start start 0 0 where
  rate := by simp [creditAfter, costOf, bytesOf]
  status := hactive
  departure := by simp
  packets := rfl
  bytes := by simp [bytesOf]
  token := by simpa [bytesOf] using (hvalid.active hactive).2.1
  sourced := rfl
  sequence := rfl
  sent := ⟨Nat.zero_le _, le_rfl, fun _ => payTick_lt_succ 0⟩
  more := (lt_packetsLeft_iff hvalid.positive).2 (by rw [Nat.zero_mul]; exact (hvalid.active hactive).1)
  credit := by simp [creditAfter, costOf, bytesOf]

/-! ## §5. Whole runs. -/

/-- The ticks a waiting source still runs: to its last packet or to the stop time. -/
def planTicks (c : Ctx) (start : RatePacer) : Nat :=
  min (sendTick start.generator start.rate (packetsLeft start.generator start.rate))
    ((c.image.stopTimeNs - start.generator.nextEmission.departureTimeNs)
      / start.rate.pacingIntervalNs + 1)

theorem executableRatePacingTicks_waiting {stopTimeNs : Nat} {g : FlowGeneratorState}
    {rate : RateGenerator} (hpositive : rate.Positive) (hcounted : Counted g rate)
    (hactive : g.nextEmission.status = .scheduled ∨ g.nextEmission.status = .blocked)
    (hstop : g.nextEmission.departureTimeNs ≤ stopTimeNs) :
    executableRatePacingTicks stopTimeNs g rate = .ok (min (sendTick g rate (packetsLeft g rate))
      ((stopTimeNs - g.nextEmission.departureTimeNs) / rate.pacingIntervalNs + 1)) := by
  unfold executableRatePacingTicks
  rw [if_neg (by rintro (⟨hs, hb⟩ | hlate); · exact hactive.elim hs hb
                 · omega),
    remainingRatePackets_eq hcounted, ← remainingRatePacingTicks_eq hpositive]
  rfl

theorem RatePacer.ticking_iff {start : RatePacer} : start.ticking c = true ↔
    (start.generator.nextEmission.status = .scheduled ∨
      start.generator.nextEmission.status = .blocked) ∧
      start.generator.nextEmission.departureTimeNs ≤ c.image.stopTimeNs := by
  simp [RatePacer.ticking, FlowGeneratorState.awaitsTick, Ctx.atTick, Ctx.now]

theorem executableRatePacingTicks_of_ticking {start : RatePacer} (hvalid : start.Valid)
    (hticking : start.ticking c = true) :
    executableRatePacingTicks c.image.stopTimeNs start.generator start.rate =
      .ok (planTicks c start) := by
  obtain ⟨hactive, hstop⟩ := RatePacer.ticking_iff.1 hticking
  exact executableRatePacingTicks_waiting hvalid.positive hvalid.counted hactive hstop

theorem executableRatePacingTicks_of_idle {start : RatePacer} (hidle : start.ticking c = false) :
    executableRatePacingTicks c.image.stopTimeNs start.generator start.rate = .ok 0 := by
  refine if_pos ?_
  by_contra hactive
  simp only [not_or, not_and_or, not_not, Nat.not_lt] at hactive
  rw [RatePacer.ticking_iff.2 hactive] at hidle
  cases hidle

/-- The size of packet `i` of those still to be sent. -/
def packetSize (start : RatePacer) (i : Nat) : Nat :=
  min start.rate.packetSizeBytes
    (remainingBytes start.generator start.rate - bytesOf start.generator start.rate i)

theorem packetSize_le (start : RatePacer) (i : Nat) :
    packetSize start i ≤ start.rate.packetSizeBytes := Nat.min_le_left _ _

/-- A packet that another one follows has the full size. -/
theorem packetSize_of_lt {start : RatePacer} (hvalid : start.Valid) {i : Nat}
    (hi : i + 1 < packetsLeft start.generator start.rate) :
    packetSize start i = start.rate.packetSizeBytes := by
  have hlong := (lt_packetsLeft_iff hvalid.positive).1 hi
  rw [Nat.succ_mul] at hlong
  unfold packetSize
  rw [bytesOf_of_lt hvalid.positive (by omega)]
  omega

theorem sum_packetSize (start : RatePacer) (k : Nat) :
    ((range k).map (packetSize start)).sum = bytesOf start.generator start.rate k := by
  induction k with
  | zero => simp [bytesOf]
  | succ k ih =>
    rw [range_succ, map_append, sum_append, ih, bytesOf_succ]
    simp [packetSize]

theorem RatePacer.run_idle (h : pacer.ticking c = false) (fuel : Nat) :
    pacer.run c fuel = .ok ([], pacer) := by
  cases fuel with
  | zero => rfl
  | succ fuel =>
    unfold RatePacer.run
    rw [h]
    rfl

theorem RatePacer.run_tick {next last : RatePacer} {paced : Paced}
    {log : List (PacketDescriptor × Paced)} {fuel : Nat} (hwaits : pacer.ticking c = true)
    (htick : pacer.tick c = .ok (paced, next)) (hrest : next.run c fuel = .ok (log, last)) :
    pacer.run c (fuel + 1) = .ok ((pacer.token, paced) :: log, last) := by
  unfold RatePacer.run
  rw [if_pos hwaits]
  exact bind_eq_ok.2 ⟨_, htick, bind_eq_ok.2 ⟨_, hrest, rfl⟩⟩

/-- The sizes sent by a tick and the ticks after it. -/
theorem sentPackets_cons {start : RatePacer} {paced : Paced}
    {log : List (PacketDescriptor × Paced)} {j j' packets : Nat}
    (hsize : pacer.token.sizeBytes = packetSize start j)
    (hemitted : paced.emitted = true ∧ j' = j + 1 ∨ paced.emitted = false ∧ j' = j)
    (hle : j' ≤ packets) (hlog : (sentPackets log).map (·.sizeBytes) =
      (range' j' (packets - j')).map (packetSize start)) :
    (sentPackets ((pacer.token, paced) :: log)).map (·.sizeBytes) =
      (range' j (packets - j)).map (packetSize start) := by
  obtain ⟨hsends, rfl⟩ | ⟨hwaits, rfl⟩ := hemitted
  · obtain ⟨rest, hrest⟩ : ∃ rest, packets - j = rest + 1 := ⟨packets - (j + 1), by omega⟩
    rw [show packets - (j + 1) = rest by omega] at hlog
    rw [hrest, range'_succ, map_cons, ← hlog, ← hsize]
    simp [sentPackets, hsends]
  · rw [← hlog]
    simp [sentPackets, hwaits]

section Run

variable {c : Ctx} {start : RatePacer} {ticks packets allocations : Nat}

/-- A run from the middle of the plan, by induction on the fuel. -/
theorem Paces.run (hvalid : start.Valid) (hticking : start.ticking c = true)
    (hcredit : start.rate.creditQuanta + start.rate.tickCredit < width 128)
    (hticks : ticks = planTicks c start)
    (hpackets : SentBy start.generator start.rate ticks packets)
    (hallocations : SentBy start.generator start.rate (ticks - 1) allocations)
    (htime : start.generator.nextEmission.departureTimeNs
      + ticks * start.rate.pacingIntervalNs < width 64)
    (hsourced : start.entry.state.sourcedPackets + packets < width 64)
    (hpayloads : ∀ i < allocations, (PayloadId.fromNodeSequence c.node.id c.nodeCount
      (start.entry.state.nextPayloadSeq + i)).isSome)
    (fuel : Nat) : ∀ {pacer : RatePacer} {t j : Nat}, Paces start pacer t j → t < ticks →
      ticks - t ≤ fuel →
    ∃ log last, pacer.run c fuel = .ok (log, last) ∧ log.length = ticks - t ∧
      (sentPackets log).map (·.sizeBytes) = (range' j (packets - j)).map (packetSize start) ∧
      last.generator.bytesEmitted =
        start.generator.bytesEmitted + bytesOf start.generator start.rate packets ∧
      Ends c start last ticks allocations packets := by
  obtain ⟨-, hstop⟩ := RatePacer.ticking_iff.1 hticking
  have hinterval := hvalid.positive.interval
  unfold planTicks at hticks
  -- A tick is executed when its time has not passed the stop time.
  have hclock : ∀ t, t < (c.image.stopTimeNs - start.generator.nextEmission.departureTimeNs)
      / start.rate.pacingIntervalNs + 1 ↔
      start.generator.nextEmission.departureTimeNs + t * start.rate.pacingIntervalNs ≤
        c.image.stopTimeNs := by
    intro t
    rw [Nat.lt_succ_iff, Nat.le_div_iff_mul_le hinterval]
    omega
  induction fuel with
  | zero => intro pacer t j _ ht hfuel; omega
  | succ fuel ih =>
    intro pacer t j h ht hfuel
    have hmul := Nat.mul_le_mul_right start.rate.pacingIntervalNs (Nat.succ_le_of_lt ht)
    obtain ⟨paced, next, j', htick, hemitted, hsent, hbytes, hnext⟩ := h.tick (c := c) hvalid hcredit
      (by simp only [Nat.succ_eq_add_one] at hmul; omega)
      (fun k hk => by
        have := hk.mono hpackets (Nat.succ_le_of_lt ht)
        omega)
      (fun k hk hmore hsoon i hi => by
        refine hpayloads i (lt_of_lt_of_le hi (hk.mono hallocations ?_))
        have hlater : t + 1 < sendTick start.generator start.rate (packetsLeft start.generator start.rate) :=
          lt_of_lt_of_le (hk.unpaid hmore) (payTick_strictMono.monotone hmore)
        have := (hclock (t + 1)).2 hsoon
        omega)
    have hwaits : pacer.ticking c = true := by
      have hsoon := (hclock t).1 (by omega)
      rw [← h.departure] at hsoon
      exact RatePacer.ticking_iff.2 ⟨h.status, hsoon⟩
    have hsentBy : j' ≤ packets := hsent.mono hpackets (Nat.succ_le_of_lt ht)
    rcases hnext with ⟨hpaces, hsoon⟩ | hends
    · -- The plan goes on: the closed form counts a further tick too.
      have hlater : t + 1 <
          sendTick start.generator start.rate (packetsLeft start.generator start.rate) :=
        lt_of_lt_of_le (hsent.unpaid hpaces.more) (payTick_strictMono.monotone hpaces.more)
      have hroom := (hclock (t + 1)).2 hsoon
      obtain ⟨log, last, hrun, hlength, hsizes, hlast⟩ := ih hpaces (by omega) (by omega)
      refine ⟨_, last, RatePacer.run_tick hwaits htick hrun, ?_,
        sentPackets_cons h.token hemitted hsentBy hsizes, hlast⟩
      rw [length_cons, hlength]
      omega
    · -- The source is done or out of time, and this was the last tick of the closed form.
      have hlast : ticks = t + 1 := by
        rcases hends.cause with hdone | hlate
        · have hpaid : sendTick start.generator start.rate j' ≤ t + 1 := hsent.paid
          rw [hdone] at hpaid
          omega
        · have := (hclock (t + 1)).not.2 (Nat.not_le.2 hlate)
          omega
      have hcount : j' = packets := hsent.unique (hlast ▸ hpackets)
      have halloc : j = allocations := by
        refine h.sent.unique ?_
        rw [hlast] at hallocations
        exact hallocations
      subst hcount halloc
      refine ⟨_, next, RatePacer.run_tick hwaits htick (RatePacer.run_idle hends.idle fuel), ?_,
        sentPackets_cons h.token hemitted le_rfl ?_, hbytes, hlast ▸ hends⟩
      · rw [length_singleton]
        omega
      · rw [Nat.sub_self]; rfl

end Run

/-! ## §6. The closed forms. -/

/-- Iterating the tick of a rate source that the validator accepts, with room for the
counts it computes, executes `executable_rate_pacing_ticks` ticks, sends
`executable_rate_packets` packets (of full size, but for a last remainder when it
finishes) and allocates `rate_payload_allocations` payloads. -/
theorem rate_closed_forms_exact (c : Ctx) (start : RatePacer) (hvalid : start.Valid)
    (hfits : start.Fits c) :
    ∃ ticks packets allocations,
      executableRatePacingTicks c.image.stopTimeNs start.generator start.rate = .ok ticks ∧
      executableRatePackets c.image.stopTimeNs start.generator start.rate = .ok packets ∧
      ratePayloadAllocations c.image.stopTimeNs start.generator start.rate = .ok allocations ∧
      ∀ fuel, ticks ≤ fuel → ∃ log last, start.run c fuel = .ok (log, last) ∧
        last.ticking c = false ∧ log.length = ticks ∧
        (sentPackets log).length = packets ∧
        (∀ p ∈ (sentPackets log).dropLast, p.sizeBytes = start.rate.packetSizeBytes) ∧
        (∀ p ∈ sentPackets log, p.sizeBytes ≠ start.rate.packetSizeBytes →
          p.sizeBytes < start.rate.packetSizeBytes ∧
            last.generator.nextEmission.status = .finished) ∧
        last.generator.bytesEmitted =
          start.generator.bytesEmitted + ((sentPackets log).map (·.sizeBytes)).sum ∧
        (last.generator.nextEmission.status = .finished →
          last.generator.bytesEmitted = start.rate.totalBytes) ∧
        last.entry.state.nextPayloadSeq = start.entry.state.nextPayloadSeq + allocations := by
  cases hticking : start.ticking c with
  | false =>
    have hticks := executableRatePacingTicks_of_idle hticking
    obtain ⟨k, hwithin, hsent⟩ := ratePacketsWithinTicks_eq hvalid.positive hvalid.counted 0
    have hnone : k = 0 :=
      Nat.le_zero.1 ((payTick_strictMono.le_apply).trans hsent.paid)
    subst hnone
    refine ⟨0, 0, 0, hticks, bind_eq_ok.2 ⟨_, hticks, hwithin⟩, bind_eq_ok.2 ⟨_, hticks, rfl⟩,
      fun fuel _ => ⟨[], start, RatePacer.run_idle hticking fuel, hticking, rfl, rfl, nofun, nofun,
        rfl, fun hdone => ?_, rfl⟩⟩
    have hall := hvalid.finished hdone
    have hbytes := hvalid.counted.bytes
    unfold remainingBytes at hall
    omega
  | true =>
    obtain ⟨ticks, hn, hticks⟩ : ∃ ticks, ticks = planTicks c start ∧
        executableRatePacingTicks c.image.stopTimeNs start.generator start.rate = .ok ticks :=
      ⟨_, rfl, executableRatePacingTicks_of_ticking hvalid hticking⟩
    obtain ⟨packets, hwithin, hpackets⟩ :=
      ratePacketsWithinTicks_eq hvalid.positive hvalid.counted ticks
    obtain ⟨allocations, hbefore, hallocations⟩ :=
      ratePacketsWithinTicks_eq hvalid.positive hvalid.counted (ticks - 1)
    obtain ⟨hactive, -⟩ := RatePacer.ticking_iff.1 hticking
    obtain ⟨hbytes, htoken, hcredit⟩ := hvalid.active hactive
    have hsome : 0 < ticks := by
      have hleft : 0 < packetsLeft start.generator start.rate :=
        (lt_packetsLeft_iff hvalid.positive).2 (by rwa [Nat.zero_mul])
      rw [hn, planTicks, lt_min_iff]
      exact ⟨hleft.trans_le payTick_strictMono.le_apply, Nat.succ_pos _⟩
    have hexec : executableRatePackets c.image.stopTimeNs start.generator start.rate = .ok packets :=
      bind_eq_ok.2 ⟨_, hticks, hwithin⟩
    have halloc : ratePayloadAllocations c.image.stopTimeNs start.generator start.rate =
        .ok allocations := by
      refine bind_eq_ok.2 ⟨_, hticks, ?_⟩
      rw [if_neg (by omega)]
      exact hbefore
    have hpaces := Paces.start hvalid hactive
    refine ⟨ticks, packets, allocations, hticks, hexec, halloc, fun fuel hfuel => ?_⟩
    obtain ⟨log, last, hrun, hlength, hsizes, htotal, hends⟩ := Paces.run hvalid hticking hcredit hn
      hpackets hallocations (hfits.time _ hticks) (hfits.sourced _ hexec) (hfits.payloads _ halloc) fuel
      hpaces hsome (by omega)
    rw [Nat.sub_zero, ← range_eq_range'] at hsizes
    rw [Nat.sub_zero] at hlength
    refine ⟨log, last, hrun, hends.idle, hlength, ?_, fun p hp => ?_, fun p hp hsize => ?_, ?_,
      fun hdone => ?_, hends.sequence⟩
    · simpa using congrArg length hsizes
    · have hmem : p.sizeBytes ∈ ((range packets).map (packetSize start)).dropLast := by
        rw [← hsizes, ← map_dropLast]
        exact mem_map_of_mem hp
      cases packets with
      | zero => cases hmem
      | succ packets =>
        rw [range_succ, map_append, map_singleton, dropLast_concat] at hmem
        obtain ⟨i, hi, hpsize⟩ := mem_map.1 hmem
        rw [mem_range] at hi
        rw [← hpsize]
        exact packetSize_of_lt hvalid (lt_of_lt_of_le (Nat.succ_lt_succ hi) hpackets.le)
    · have hmem : p.sizeBytes ∈ (range packets).map (packetSize start) := by
        rw [← hsizes]
        exact mem_map_of_mem hp
      obtain ⟨i, hi, hpsize⟩ := mem_map.1 hmem
      rw [mem_range] at hi
      have hle := packetSize_le start i
      refine ⟨by omega, hends.finished.2 ?_⟩
      by_contra hfew
      have hmore := lt_of_le_of_ne hpackets.le hfew
      have hfull : packetSize start i = _ := packetSize_of_lt hvalid (by omega)
      omega
    · rw [hsizes, sum_packetSize, htotal]
    · have hall := hends.finished.1 hdone
      have hreached : ¬ bytesOf start.generator start.rate packets < _ :=
        (bytesOf_lt_iff hvalid.positive).not.2 (by omega)
      have hmost : bytesOf start.generator start.rate packets ≤ _ := bytesOf_le packets
      have hbytes := hvalid.counted.bytes
      unfold remainingBytes at hreached hmost
      omega

/-- Three bytes in packets of two, each tick earning half a packet. -/
def sampleRatePacer : RatePacer where
  entry := ⟨emptyHost, ⟨[], [], none⟩⟩
  generator := ⟨0, 0, 0, ⟨.blocked, 100, 0⟩, 0, ⟨0, 0, 0⟩, .rate ⟨100, 1, 2, 3, 8000000000, 1, 0⟩⟩
  rate := ⟨100, 1, 2, 3, 8000000000, 1, 0⟩
  token := ⟨0, 0, 2, false, .data⟩

theorem sampleRatePacer_valid : sampleRatePacer.Valid where
  positive := ⟨by decide, by decide, by decide, by decide⟩
  counted := ⟨by decide, by decide, by decide⟩
  tickCredit := by decide
  credit := by decide
  active := fun _ => by decide
  finished := nofun

theorem sampleRatePacer_ticks :
    executableRatePacingTicks 1000000 sampleRatePacer.generator sampleRatePacer.rate = .ok 3 := rfl

theorem sampleRatePacer_packets :
    executableRatePackets 1000000 sampleRatePacer.generator sampleRatePacer.rate = .ok 2 := rfl

theorem sampleRatePacer_allocations :
    ratePayloadAllocations 1000000 sampleRatePacer.generator sampleRatePacer.rate = .ok 1 := rfl

theorem sampleRatePacer_fits : sampleRatePacer.Fits (exchangeContext 0 100 .pacingTimer 0) where
  time := by
    intro ticks h
    obtain rfl := Except.ok.inj (sampleRatePacer_ticks.symm.trans h)
    decide
  sourced := by
    intro packets h
    obtain rfl := Except.ok.inj (sampleRatePacer_packets.symm.trans h)
    decide
  payloads := by
    intro allocations h i hi
    obtain rfl := Except.ok.inj (sampleRatePacer_allocations.symm.trans h)
    obtain rfl : i = 0 := by omega
    decide

theorem rate_closed_forms_exact_three_bytes :
    sampleRatePacer.Valid ∧ sampleRatePacer.Fits (exchangeContext 0 100 .pacingTimer 0) ∧
    ∃ log last,
      sampleRatePacer.run (exchangeContext 0 100 .pacingTimer 0) 5 = .ok (log, last) ∧
      log.length = 3 ∧ (sentPackets log).length = 2 ∧
      last.entry.state.nextPayloadSeq = sampleRatePacer.entry.state.nextPayloadSeq + 1 := by
  refine ⟨sampleRatePacer_valid, sampleRatePacer_fits, ?_⟩
  obtain ⟨ticks, packets, allocations, hticks, hpackets, hallocations, hrun⟩ :=
    rate_closed_forms_exact _ _ sampleRatePacer_valid sampleRatePacer_fits
  obtain rfl := Except.ok.inj (sampleRatePacer_ticks.symm.trans hticks)
  obtain rfl := Except.ok.inj (sampleRatePacer_packets.symm.trans hpackets)
  obtain rfl := Except.ok.inj (sampleRatePacer_allocations.symm.trans hallocations)
  obtain ⟨log, last, hlog, -, hlength, hsent, -, -, -, -, hsequence⟩ := hrun 5 (by decide)
  exact ⟨log, last, hlog, hlength, hsent, hsequence⟩

end Days
