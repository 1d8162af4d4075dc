/-
  Days.Logic.DcqcnPacing — a DCQCN source run tick by tick against the
  validator's bounds.

  The rate of a tick is the controller's, which CNPs move at any time. Between
  a lowest and a highest rate the source sends no sooner than at the highest
  and ticks no longer than at the lowest. The validator takes the configured
  minimum for the lowest rate; the truncating average can fall below it.
-/
import Days.Logic.RateRun
import Days.Logic.DcqcnRange

namespace Days

variable {pacer last : DcqcnPacer} {events : List PacerEvent} {rateBps : Nat}

open Lib.Pacing

variable {log : List (Nat × Paced)}

/-! ## §1. Runs of a DCQCN source. -/

/-- A DCQCN source with its host and the packet that serves as its timer token. -/
structure DcqcnPacer where
  entry : HostEntry
  generator : FlowGeneratorState
  dcqcn : DcqcnGenerator
  token : PacketDescriptor

/-- What happens to a DCQCN source: a CNP, or its pacing timer. -/
inductive PacerEvent where
  | cnp (timeNs : Nat)
  | timer

namespace DcqcnPacer

def active (pacer : DcqcnPacer) : Bool :=
  decide (pacer.generator.nextEmission.status = .scheduled) ||
    decide (pacer.generator.nextEmission.status = .blocked)

/-- The source waits for a tick that the run still executes. -/
def ticking (c : Ctx) (pacer : DcqcnPacer) : Bool :=
  pacer.active && decide (pacer.generator.nextEmission.departureTimeNs ≤ c.image.stopTimeNs)

/-- The reaction of `cnpReaction` to a CNP. -/
def cnp (timeNs : Nat) (pacer : DcqcnPacer) : DcqcnPacer :=
  if pacer.active then
    let controller := (pacer.dcqcn.controller.onFeedback timeNs).2
    let rate :=
      { pacer.dcqcn.rate with rateNumeratorBitsPerSecond := controller.currentRateBps }
    let dcqcn := { pacer.dcqcn with rate, controller }
    { pacer with dcqcn, generator := { pacer.generator with kind := .dcqcn dcqcn } }
  else pacer

/-- The tick of `hostDcqcnPacingTimer`. -/
def tick (c : Ctx) (pacer : DcqcnPacer) : Except PlainError (Paced × DcqcnPacer) := do
  let now := c.atTick pacer.generator
  let bound := saturatingAdd 64 now.now 1
  let (advance, controller) := dcqcnMaterialize pacer.dcqcn.controller false bound
  let paced ← paceStep now pacer.token pacer.dcqcn.rate controller.currentRateBps pacer.entry
    pacer.generator
  let (_, controller) :=
    settleTick controller (advance.getD DcqcnAdvance.none) bound paced.nextTimer.isSome
  let rate :=
    { pacer.dcqcn.rate with
      creditQuanta := paced.creditQuanta
      rateNumeratorBitsPerSecond := controller.currentRateBps }
  let dcqcn := { pacer.dcqcn with rate, controller }
  return (paced, {
    entry := paced.entry
    generator := { paced.generator with kind := .dcqcn dcqcn }
    dcqcn
    token := paced.nextPacket.getD pacer.token })

/-- The ticks executed along some events: each with its time. -/
def run (c : Ctx) : List PacerEvent → DcqcnPacer →
    Except PlainError (List (Nat × Paced) × DcqcnPacer)
  | [], pacer => .ok ([], pacer)
  | .cnp timeNs :: events, pacer => run c events (pacer.cnp timeNs)
  | .timer :: events, pacer =>
    if pacer.ticking c then do
      let (paced, next) ← pacer.tick c
      let (log, last) ← run c events next
      return ((pacer.generator.nextEmission.departureTimeNs, paced) :: log, last)
    else run c events pacer

end DcqcnPacer

/-- The packets a run sent. -/
def sentCount (log : List (Nat × Paced)) : Nat := log.countP (·.2.emitted)

/-- `validate_dcqcn_controller_state`, of a controller whose fields are `u64`. -/
structure DcqcnController.Validated (c : DcqcnController) : Prop where
  config : c.config.validate = .ok ()
  maximum : c.config.maximumRateBps < width 64
  alpha : c.alphaQ63 ≤ dcqcnAlphaOne
  stage : c.stage ≤ c.config.fastRecoverySteps + 1
  unarmed : c.armed = false → c = .pristine c.config
  current : dcqcnRateFloorBps c.config.minimumRateBps ≤ c.currentRateBps ∧
    c.currentRateBps ≤ c.config.maximumRateBps
  target : dcqcnRateFloorBps c.config.minimumRateBps ≤ c.targetRateBps ∧
    c.targetRateBps ≤ c.config.maximumRateBps

/-- The ticks left until the stop time. -/
def DcqcnPacer.availableTicks (c : Ctx) (pacer : DcqcnPacer) : Nat :=
  if pacer.ticking c then
    (c.image.stopTimeNs - pacer.generator.nextEmission.departureTimeNs) /
      pacer.dcqcn.rate.pacingIntervalNs + 1
  else 0

/-- The validator's conditions on a DCQCN source and its token. -/
structure DcqcnPacer.Valid (c : Ctx) (pacer : DcqcnPacer) : Prop where
  controller : pacer.dcqcn.controller.Validated
  interval : 0 < pacer.dcqcn.rate.pacingIntervalNs
  packetSize : 0 < pacer.dcqcn.rate.packetSizeBytes
  total : 0 < pacer.dcqcn.rate.totalBytes
  denominator : pacer.dcqcn.rate.rateDenominator = 1
  numerator : pacer.dcqcn.rate.rateNumeratorBitsPerSecond = pacer.dcqcn.controller.currentRateBps
  cnpSize : 0 < pacer.dcqcn.cnpSizeBytes
  counted : Counted pacer.generator pacer.dcqcn.rate
  credit : pacer.dcqcn.rate.creditQuanta + pacer.dcqcn.controller.config.maximumRateBps *
    pacer.dcqcn.rate.pacingIntervalNs * pacer.availableTicks c < width 128
  active : pacer.active = true →
    0 < remainingBytes pacer.generator pacer.dcqcn.rate ∧
    pacer.token.sizeBytes = min pacer.dcqcn.rate.packetSizeBytes
      (remainingBytes pacer.generator pacer.dcqcn.rate) ∧
    (pacer.generator.nextEmission.status = .scheduled ↔
      pacer.token.sizeBytes * 8 * pacer.dcqcn.rate.scale ≤
        pacer.dcqcn.rate.creditQuanta + pacer.dcqcn.rate.tickCredit) ∧
    pacer.dcqcn.rate.firstPacingTimeNs ≤ pacer.generator.nextEmission.departureTimeNs ∧
    (pacer.generator.nextEmission.departureTimeNs - pacer.dcqcn.rate.firstPacingTimeNs) %
      pacer.dcqcn.rate.pacingIntervalNs = 0

/-! ## §2. The handlers take these steps. -/

/-- The handler takes the tick of the source it finds, and writes that source back. -/
theorem hostDcqcnPacingTimer_tick (c : Ctx) (p : PacketDescriptor) (hfull : c.full = false) :
    hostDcqcnPacingTimer c p = (do
      let entry ← getHost
      let position ← okOr (entry.state.generators.findIdx? (·.flow == p.flow))
        (.unknownGenerator c.node.id p.flow)
      let generator ← okOr entry.state.generators[position]? (.unknownGenerator c.node.id p.flow)
      match generator.kind with
      | .dcqcn dcqcn =>
        Prog.when (generator.awaitsTick c) do
          let (paced, next) ← (⟨entry, generator, dcqcn, p⟩ : DcqcnPacer).tick c
          setHost (paced.entry.setGenerator position next.generator)
          finishPacedTick c p paced
      | _ => return ()) := by
  refine congrArg (getHost >>= ·) (funext fun entry => ?_)
  refine congrArg (_ >>= ·) (funext fun position => ?_)
  refine congrArg (_ >>= ·) (funext fun generator => ?_)
  cases hkind : generator.kind with
  | dcqcn dcqcn =>
    cases hawaits : generator.awaitsTick c with
    | false => simp only [Prog.when, Bool.false_eq_true, if_false]
    | true =>
      -- The event of an awaited tick is the one the source's own context describes.
      simp only [DcqcnPacer.tick, Ctx.atTick_of_awaits hawaits, hfull, Prog.when, if_true,
        Bool.false_eq_true, if_false]
      generalize saturatingAdd 64 c.now 1 = bound
      generalize dcqcnMaterialize dcqcn.controller false bound = materialized
      rw [lift_map_bind]
      refine congrArg (_ >>= ·) (funext fun paced => ?_)
      exact congrArg (setHost _ >>= ·) (funext fun _ => rfl)
  | _ => dsimp only

/-- A CNP, once it is counted, moves the source it finds. -/
theorem cnpReaction_cnp {c : Ctx} {p token : PacketDescriptor} {entry : HostEntry} {position : Nat}
    {generator counted : FlowGeneratorState} {dcqcn : DcqcnGenerator}
    (hfor : entry.generatorFor c.node.id p.flow = .ok (position, generator))
    (hcounted : applyGeneratorFeedback c.node.id generator = .ok counted)
    (hkind : counted.kind = .dcqcn dcqcn) :
    ∃ row, cnpReaction c p entry = .ok (row, entry.setGenerator position
      ((⟨entry, counted, dcqcn, token⟩ : DcqcnPacer).cnp c.now).generator) := by
  unfold cnpReaction DcqcnPacer.cnp DcqcnPacer.active
  simp only [hfor, hcounted, hkind, bind, Except.bind]
  by_cases hidle : counted.nextEmission.status ≠ .scheduled ∧ counted.nextEmission.status ≠ .blocked
  · rw [if_pos hidle, if_neg (by simp [hidle.1, hidle.2])]
    exact ⟨_, rfl⟩
  · have hwaits : counted.nextEmission.status = .scheduled ∨ counted.nextEmission.status = .blocked := by
      by_contra hnot
      exact hidle (not_or.1 hnot)
    rw [if_neg hidle, if_pos (by simpa using hwaits)]
    exact ⟨_, rfl⟩

/-! ## §3. A tick that answers. -/

/-- What a tick of a paced source did. -/
structure PaceOutcome (c : Ctx) (p : PacketDescriptor) (rate : RateGenerator) (rateBps : Nat)
    (g : FlowGeneratorState) (paced : Paced) : Prop where
  paid : paced.emitted = true ∧
      paced.creditQuanta + p.sizeBytes * 8 * rate.scale =
        rate.creditQuanta + rateBps * rate.pacingIntervalNs ∧
      paced.generator.bytesEmitted = g.bytesEmitted + p.sizeBytes ∨
    paced.emitted = false ∧
      rate.creditQuanta + rateBps * rate.pacingIntervalNs < p.sizeBytes * 8 * rate.scale ∧
      paced.creditQuanta = rate.creditQuanta + rateBps * rate.pacingIntervalNs ∧
      paced.generator.bytesEmitted = g.bytesEmitted
  waits : paced.generator.nextEmission.status = .scheduled ∨
      paced.generator.nextEmission.status = .blocked →
    paced.generator.bytesEmitted < rate.totalBytes ∧
    paced.generator.nextEmission.departureTimeNs = c.now + rate.pacingIntervalNs ∧
    (paced.nextPacket.getD p).sizeBytes =
      if paced.emitted then min rate.packetSizeBytes (rate.totalBytes - paced.generator.bytesEmitted)
      else p.sizeBytes

section Outcome

variable {c : Ctx} {p : PacketDescriptor} {rate : RateGenerator} {rateBps : Nat}
  {entry : HostEntry} {g : FlowGeneratorState} {paced : Paced}

theorem pacedPacketCost_eq_some {size scale cost : Nat} (h : pacedPacketCost size scale = some cost) :
    cost = size * 8 * scale := by
  obtain ⟨bits, hbits, hcost⟩ := Option.bind_eq_some_iff.1 h
  rw [(checkedMul_eq_some hcost).1, (checkedMul_eq_some hbits).1]

theorem paceStep_outcome (h : paceStep c p rate rateBps entry g = .ok paced) :
    PaceOutcome c p rate rateBps g paced := by
  obtain ⟨scale, hscale, h⟩ := bind_ok h
  obtain ⟨tickCredit, htick, h⟩ := bind_ok h
  obtain ⟨cost, hcost, h⟩ := bind_ok h
  obtain ⟨credit, hcredit, h⟩ := bind_ok h
  obtain ⟨⟨emitted, left, entry', g'⟩, hspend, h⟩ := bind_ok h
  obtain ⟨candidate, hcandidate, h⟩ := bind_ok h
  have hscale' : scale = rate.scale := (checkedMul_eq_some (okOr_eq_ok.1 hscale)).1
  have htick' : tickCredit = rateBps * rate.pacingIntervalNs :=
    (checkedMul_eq_some (okOr_eq_ok.1 htick)).1
  have hcost' := pacedPacketCost_eq_some (okOr_eq_ok.1 hcost)
  have hcredit' := (checkedAdd_eq_some (okOr_eq_ok.1 hcredit)).1
  obtain ⟨-, -, hspent⟩ := spendTick_spec hspend
  rw [hcost', hcredit', hscale', htick'] at hspent
  cases hfilter : candidate.filter (· ≤ c.image.stopTimeNs) with
  | some nextTime =>
    rw [hfilter] at h
    obtain ⟨⟨token, entry''⟩, htoken, h⟩ := bind_ok h
    obtain ⟨nextCost, -, h⟩ := bind_ok h
    cases h
    obtain ⟨hsome, -⟩ := Option.filter_eq_some_iff.1 hfilter
    rw [hsome] at hcandidate
    obtain ⟨hmore, htime⟩ := nextTick_spec hcandidate
    refine ⟨hspent, fun _ => ⟨hmore, htime, ?_⟩⟩
    obtain ⟨rfl, -, htoken⟩ | ⟨rfl, rfl, -⟩ := nextToken_spec htoken
    · exact congrArg (·.sizeBytes) htoken
    · rfl
  | none =>
    rw [hfilter] at h
    cases h
    refine ⟨hspent, fun hactive => ?_⟩
    split at hactive
    · rcases hactive with hstatus | hstatus <;> cases hstatus
    · rcases hactive with hstatus | hstatus <;> cases hstatus

end Outcome

/-! ## §4. The state after some ticks. -/

theorem DcqcnController.Validated.inRange {c : DcqcnController} (h : c.Validated) :
    c.InRange (dcqcnRateFloorBps c.config.minimumRateBps) c.config :=
  ⟨rfl, h.alpha, h.current, h.target, h.stage, DcqcnController.rateFloor_even_le _⟩

/-- A source that started as `start`, after `t` ticks and `j` packets, with no rate below `low`. -/
structure Plods (low : Nat) (start pacer : DcqcnPacer) (t j : Nat) : Prop where
  range : pacer.dcqcn.controller.InRange low start.dcqcn.controller.config
  interval : pacer.dcqcn.rate.pacingIntervalNs = start.dcqcn.rate.pacingIntervalNs
  packetSize : pacer.dcqcn.rate.packetSizeBytes = start.dcqcn.rate.packetSizeBytes
  total : pacer.dcqcn.rate.totalBytes = start.dcqcn.rate.totalBytes
  scale : pacer.dcqcn.rate.scale = start.dcqcn.rate.scale
  sent : j ≤ packetsLeft start.generator start.dcqcn.rate
  bytes : pacer.generator.bytesEmitted =
    start.generator.bytesEmitted + bytesOf start.generator start.dcqcn.rate j
  earned : ∃ earned,
    pacer.dcqcn.rate.creditQuanta + costOf start.generator start.dcqcn.rate j =
      start.dcqcn.rate.creditQuanta + earned ∧
    Between start.dcqcn.rate.creditQuanta (low * start.dcqcn.rate.pacingIntervalNs)
      (start.dcqcn.controller.config.maximumRateBps * start.dcqcn.rate.pacingIntervalNs)
      (costOf start.generator start.dcqcn.rate) t j earned
  waits : pacer.active = true →
    j < packetsLeft start.generator start.dcqcn.rate ∧
    pacer.generator.nextEmission.departureTimeNs =
      start.generator.nextEmission.departureTimeNs + t * start.dcqcn.rate.pacingIntervalNs ∧
    pacer.token.sizeBytes = min start.dcqcn.rate.packetSizeBytes
      (remainingBytes start.generator start.dcqcn.rate -
        bytesOf start.generator start.dcqcn.rate j)

section Steps

variable {c : Ctx} {low t j : Nat} {start pacer next : DcqcnPacer} {paced : Paced}

section

variable {config : DcqcnControllerConfig} {controller : DcqcnController} {bound : Nat}
  (hconfig : config.Usable) (hrates : config.minimumRateBps ≤ config.maximumRateBps)
  (h : controller.InRange low config) (hbound : bound ≤ u64Max)

include hconfig hrates h hbound

theorem DcqcnController.InRange.dcqcnMaterialize (frozen : Bool) :
    (Days.dcqcnMaterialize controller frozen bound).2.InRange low config := by
  unfold Days.dcqcnMaterialize
  split
  · exact h
  · exact (h.materialize hconfig hrates hbound).2

theorem DcqcnController.InRange.settleTick (advance : DcqcnAdvance) (ticking : Bool) :
    (Days.settleTick controller advance bound ticking).2.InRange low config := by
  unfold Days.settleTick
  split
  · exact h
  · exact (h.use hconfig hrates hbound .freeze).2

end

variable (hconfig : start.dcqcn.controller.config.Usable)
  (hrates : start.dcqcn.controller.config.minimumRateBps ≤
    start.dcqcn.controller.config.maximumRateBps)

include hconfig hrates in
/-- A CNP moves the controller alone. -/
theorem Plods.cnp (h : Plods low start pacer t j) {timeNs : Nat} (htime : timeNs ≤ u64Max) :
    Plods low start (pacer.cnp timeNs) t j := by
  unfold DcqcnPacer.cnp
  split
  · exact ⟨(h.range.use hconfig hrates htime .feedback).2, h.interval, h.packetSize, h.total,
      h.scale, h.sent, h.bytes, h.earned, h.waits⟩
  · exact h

theorem atTick_bound_le (g : FlowGeneratorState) : saturatingAdd 64 (c.atTick g).now 1 ≤ u64Max :=
  Nat.min_le_right _ _

include hconfig hrates in
/-- One tick: it sends the next packet or it does not. -/
theorem Plods.tick (h : Plods low start pacer t j)
    (hpositive : start.dcqcn.rate.Positive) (hlow : 0 < low)
    (hcounted : Counted start.generator start.dcqcn.rate) (hactive : pacer.active = true)
    (htick : pacer.tick c = .ok (paced, next)) :
    ∃ j', (paced.emitted = true ∧ j' = j + 1 ∨ paced.emitted = false ∧ j' = j) ∧
      Plods low start next (t + 1) j' := by
  obtain ⟨hmore, hdeparture, htoken⟩ := h.waits hactive
  obtain ⟨earned, hcredit, hbetween⟩ := h.earned
  have hinterval := hpositive.interval
  have hbound := atTick_bound_le (c := c) pacer.generator
  unfold DcqcnPacer.tick at htick
  dsimp only at htick
  obtain ⟨paced', hpace, hnext⟩ := bind_ok htick
  have hrange := h.range.dcqcnMaterialize hconfig hrates hbound false
  have hsettled := hrange.settleTick hconfig hrates hbound
    ((dcqcnMaterialize pacer.dcqcn.controller false
      (saturatingAdd 64 (c.atTick pacer.generator).now 1)).1.getD DcqcnAdvance.none)
    paced'.nextTimer.isSome
  obtain ⟨hpaid, hwaits⟩ := paceStep_outcome hpace
  generalize (dcqcnMaterialize pacer.dcqcn.controller false
      (saturatingAdd 64 (c.atTick pacer.generator).now 1)) = materialized at *
  generalize settleTick materialized.2 (materialized.1.getD DcqcnAdvance.none)
      (saturatingAdd 64 (c.atTick pacer.generator).now 1) paced'.nextTimer.isSome = settled at *
  cases hnext
  rw [h.interval, h.scale] at hpaid
  rw [h.interval, h.packetSize, h.total] at hwaits
  -- The rate of this tick lies between the bounds, so what it earns does.
  have hgain : low * start.dcqcn.rate.pacingIntervalNs ≤
      materialized.2.currentRateBps * start.dcqcn.rate.pacingIntervalNs :=
    Nat.mul_le_mul_right _ hrange.current.1
  have hgain' : materialized.2.currentRateBps * start.dcqcn.rate.pacingIntervalNs ≤
      start.dcqcn.controller.config.maximumRateBps * start.dcqcn.rate.pacingIntervalNs :=
    Nat.mul_le_mul_right _ hrange.current.2
  generalize materialized.2.currentRateBps * start.dcqcn.rate.pacingIntervalNs = gain at *
  have hlowPos : 0 < low * start.dcqcn.rate.pacingIntervalNs := Nat.mul_pos hlow hinterval
  have hcost : costOf start.generator start.dcqcn.rate (j + 1) = _ := costOf_succ j
  have hstep : bytesOf start.generator start.dcqcn.rate (j + 1) = _ := bytesOf_succ j
  rw [← htoken] at hcost hstep
  have hbytes := h.bytes
  have hused : start.generator.bytesEmitted ≤ start.dcqcn.rate.totalBytes := by
    rw [hcounted.bytes]
    exact Nat.min_le_right _ _
  have hnow : (c.atTick pacer.generator).now + start.dcqcn.rate.pacingIntervalNs =
      start.generator.nextEmission.departureTimeNs + (t + 1) * start.dcqcn.rate.pacingIntervalNs := by
    rw [Nat.succ_mul, ← Nat.add_assoc, ← hdeparture]
    rfl
  have hrest : ∀ i, paced.generator.bytesEmitted =
      start.generator.bytesEmitted + bytesOf start.generator start.dcqcn.rate i →
      (paced.generator.bytesEmitted < start.dcqcn.rate.totalBytes →
        i < packetsLeft start.generator start.dcqcn.rate) ∧
      start.dcqcn.rate.totalBytes - paced.generator.bytesEmitted =
        remainingBytes start.generator start.dcqcn.rate -
          bytesOf start.generator start.dcqcn.rate i := by
    intro i hi
    rw [← bytesOf_lt_iff hpositive]
    unfold remainingBytes
    omega
  rcases hpaid with ⟨hsends, hspent, hsize⟩ | ⟨hholds, hshort, hkept, hsize⟩
  · have hbytes' : paced.generator.bytesEmitted =
        start.generator.bytesEmitted + bytesOf start.generator start.dcqcn.rate (j + 1) := by
      omega
    refine ⟨j + 1, .inl ⟨hsends, rfl⟩, hsettled, h.interval, h.packetSize, h.total, h.scale, hmore,
      hbytes', ⟨earned + gain, ?_, hbetween.pay hgain hgain' (hlowPos.trans_le (hgain.trans hgain'))
        (by omega)⟩, fun hactive' => ?_⟩
    · show paced.creditQuanta + costOf start.generator start.dcqcn.rate (j + 1) = _
      omega
    · simp only [DcqcnPacer.active, Bool.or_eq_true, decide_eq_true_eq] at hactive'
      obtain ⟨hless, htime, htoken'⟩ := hwaits hactive'
      rw [if_pos hsends, (hrest _ hbytes').2] at htoken'
      exact ⟨(hrest _ hbytes').1 hless, htime.trans hnow, htoken'⟩
  · have hbytes' : paced.generator.bytesEmitted =
        start.generator.bytesEmitted + bytesOf start.generator start.dcqcn.rate j := by
      omega
    refine ⟨j, .inr ⟨hholds, rfl⟩, hsettled, h.interval, h.packetSize, h.total, h.scale, h.sent,
      hbytes', ⟨earned + gain, ?_, hbetween.wait hgain hgain' hlowPos (by omega)⟩, fun hactive' => ?_⟩
    · show paced.creditQuanta + costOf start.generator start.dcqcn.rate j = _
      omega
    · simp only [DcqcnPacer.active, Bool.or_eq_true, decide_eq_true_eq] at hactive'
      obtain ⟨hless, htime, htoken'⟩ := hwaits hactive'
      rw [if_neg (by simp [hholds])] at htoken'
      exact ⟨hmore, htime.trans hnow, htoken'.trans htoken⟩

end Steps

/-! ## §5. Whole runs. -/

/-- The ticks of the source at a fixed rate, to its last packet or to the stop time. -/
def DcqcnPacer.planTicksAt (c : Ctx) (start : DcqcnPacer) (rateBps : Nat) : Nat :=
  min (sendTick start.generator (start.dcqcn.rate.withRateNumerator rateBps)
      (packetsLeft start.generator start.dcqcn.rate))
    ((c.image.stopTimeNs - start.generator.nextEmission.departureTimeNs) /
      start.dcqcn.rate.pacingIntervalNs + 1)

section Run

variable {c : Ctx} {low : Nat} {start : DcqcnPacer}

theorem DcqcnPacer.ticking_iff :
    pacer.ticking c = true ↔ pacer.active = true ∧
      pacer.generator.nextEmission.departureTimeNs ≤ c.image.stopTimeNs := by
  simp [DcqcnPacer.ticking]

/-- A tick that is executed lies within the ticks at the low rate. -/
theorem Plods.lt_planTicksAt {t j : Nat} (h : Plods low start pacer t j)
    (hinterval : 0 < start.dcqcn.rate.pacingIntervalNs) (hticking : pacer.ticking c = true) :
    t < start.planTicksAt c low := by
  obtain ⟨hactive, hstop⟩ := DcqcnPacer.ticking_iff.1 hticking
  obtain ⟨hmore, hdeparture, -⟩ := h.waits hactive
  obtain ⟨earned, -, hbetween⟩ := h.earned
  have hlast : payTick start.dcqcn.rate.creditQuanta (low * start.dcqcn.rate.pacingIntervalNs)
      (costOf start.generator start.dcqcn.rate) (j + 1) ≤
      payTick start.dcqcn.rate.creditQuanta (low * start.dcqcn.rate.pacingIntervalNs)
        (costOf start.generator start.dcqcn.rate) (packetsLeft start.generator start.dcqcn.rate) :=
    payTick_strictMono.monotone hmore
  refine lt_min (lt_of_lt_of_le hbetween.slow hlast) (Nat.lt_succ_of_le ?_)
  rw [Nat.le_div_iff_mul_le hinterval]
  omega

theorem sentCount_cons (time : Nat) (log : List (Nat × Paced)) {paced : Paced} {j j' : Nat}
    (hemitted : paced.emitted = true ∧ j' = j + 1 ∨ paced.emitted = false ∧ j' = j) :
    j' + sentCount log = j + sentCount ((time, paced) :: log) := by
  unfold sentCount
  rcases hemitted with ⟨hsends, rfl⟩ | ⟨hholds, rfl⟩
  · simp only [List.countP_cons, hsends, if_true]
    omega
  · simp [hholds]

/-- A run ticks within the ticks at the low rate and sends no sooner than at the maximum. -/
theorem Plods.run (hconfig : start.dcqcn.controller.config.Usable)
    (hrates : start.dcqcn.controller.config.minimumRateBps ≤
      start.dcqcn.controller.config.maximumRateBps) (hpositive : start.dcqcn.rate.Positive)
    (hlow : 0 < low) (hcounted : Counted start.generator start.dcqcn.rate)
    (htimes : ∀ timeNs, .cnp timeNs ∈ events → timeNs ≤ u64Max)
    {t j : Nat} (h : Plods low start pacer t j)
    (ht : t ≤ start.planTicksAt c low) (hrun : pacer.run c events = .ok (log, last)) :
    t + log.length ≤ start.planTicksAt c low ∧
      (∀ entry ∈ log, entry.1 ≤ start.generator.nextEmission.departureTimeNs +
        start.dcqcn.rate.pacingIntervalNs * (start.planTicksAt c low - 1)) ∧
      j + sentCount log ≤ packetsLeft start.generator start.dcqcn.rate ∧
      payTick start.dcqcn.rate.creditQuanta
        (start.dcqcn.controller.config.maximumRateBps * start.dcqcn.rate.pacingIntervalNs)
        (costOf start.generator start.dcqcn.rate) (j + sentCount log) ≤ t + log.length := by
  induction events generalizing pacer t j log with
  | nil =>
    cases hrun
    obtain ⟨earned, -, hbetween⟩ := h.earned
    have hnone : j + sentCount [] = j := rfl
    rw [List.length_nil, Nat.add_zero, hnone]
    exact ⟨ht, fun entry hentry => absurd hentry List.not_mem_nil, h.sent, hbetween.fast⟩
  | cons event events ih =>
    have hrest : ∀ timeNs, .cnp timeNs ∈ events → timeNs ≤ u64Max :=
      fun timeNs hmem => htimes timeNs (List.mem_cons_of_mem _ hmem)
    cases event with
    | cnp timeNs =>
      exact ih hrest (h.cnp hconfig hrates (htimes timeNs List.mem_cons_self)) ht hrun
    | timer =>
      unfold DcqcnPacer.run at hrun
      cases hticking : pacer.ticking c with
      | false =>
        rw [hticking] at hrun
        exact ih hrest h ht hrun
      | true =>
        rw [hticking] at hrun
        obtain ⟨⟨paced, next⟩, htick, hrun⟩ := bind_ok hrun
        obtain ⟨⟨log', last'⟩, hlater, hrun⟩ := bind_ok hrun
        cases hrun
        have hactive := (DcqcnPacer.ticking_iff.1 hticking).1
        have hbefore := h.lt_planTicksAt hpositive.interval hticking
        obtain ⟨j', hemitted, hnext⟩ :=
          h.tick hconfig hrates hpositive hlow hcounted hactive htick
        obtain ⟨hlength, hlate, hsent, hpaid⟩ := ih hrest hnext (Nat.succ_le_of_lt hbefore) hlater
        have hcount := sentCount_cons pacer.generator.nextEmission.departureTimeNs log' hemitted
        rw [hcount] at hsent hpaid
        rw [List.length_cons]
        refine ⟨by omega, ?_, hsent, by omega⟩
        intro entry hentry
        rcases List.mem_cons.1 hentry with rfl | hentry
        · have hmul : t * start.dcqcn.rate.pacingIntervalNs ≤
              start.dcqcn.rate.pacingIntervalNs * (start.planTicksAt c low - 1) := by
            rw [Nat.mul_comm]
            exact Nat.mul_le_mul_left _ (by omega)
          have hdeparture := (h.waits hactive).2.1
          omega
        · exact hlate entry hentry

theorem DcqcnPacer.run_idle
    (hidle : pacer.ticking c = false) (hrun : pacer.run c events = .ok (log, last)) : log = [] := by
  induction events generalizing pacer with
  | nil =>
    cases hrun
    rfl
  | cons event events ih =>
    cases event with
    | cnp timeNs =>
      have hstill : (pacer.cnp timeNs).ticking c = false := by
        unfold DcqcnPacer.cnp
        split
        · exact hidle
        · exact hidle
      exact ih hstill hrun
    | timer =>
      unfold DcqcnPacer.run at hrun
      rw [hidle] at hrun
      exact ih hidle hrun

theorem Plods.initial (hvalid : start.Valid c)
    (hrange : start.dcqcn.controller.InRange low start.dcqcn.controller.config) :
    Plods low start start 0 0 where
  range := hrange
  interval := rfl
  packetSize := rfl
  total := rfl
  scale := rfl
  sent := Nat.zero_le _
  bytes := by simp [bytesOf]
  earned := ⟨0, by simp [costOf, bytesOf], Between.start⟩
  waits := by
    intro hactive
    obtain ⟨hmore, htoken, -⟩ := hvalid.active hactive
    refine ⟨?_, by simp, by simpa [bytesOf] using htoken⟩
    exact Nat.div_pos (by have := hvalid.packetSize; omega) hvalid.packetSize

theorem DcqcnPacer.Valid.positive (hvalid : start.Valid c) (hrate : 0 < rateBps) :
    (start.dcqcn.rate.withRateNumerator rateBps).Positive :=
  ⟨hvalid.interval, hvalid.packetSize, hrate, hvalid.denominator ▸ Nat.one_pos⟩

theorem DcqcnPacer.Valid.counted_at (hvalid : start.Valid c) (rateBps : Nat) :
    Counted start.generator (start.dcqcn.rate.withRateNumerator rateBps) :=
  ⟨hvalid.counted.packets, hvalid.counted.total, hvalid.counted.bytes⟩

/-- The ticks of the closed form at a fixed rate. -/
theorem executableTicks_at (hvalid : start.Valid c) (hticking : start.ticking c = true)
    (hrate : 0 < rateBps) :
    executableRatePacingTicks c.image.stopTimeNs start.generator
      (start.dcqcn.rate.withRateNumerator rateBps) = .ok (start.planTicksAt c rateBps) := by
  obtain ⟨hactive, hstop⟩ := DcqcnPacer.ticking_iff.1 hticking
  simp only [DcqcnPacer.active, Bool.or_eq_true, decide_eq_true_eq] at hactive
  exact executableRatePacingTicks_waiting (hvalid.positive hrate) (hvalid.counted_at rateBps)
    hactive hstop

theorem eq_of_checks {p q : Prop} [Decidable p] [Decidable q] {e : String} {value result : Nat}
    (h : (if p then Except.error e else if q then .error e else .ok value) = .ok result) :
    result = value := by
  split_ifs at h
  cases h
  rfl

/-- The latest time of the closed form at a fixed rate, when it is one. -/
theorem latestTime_at (hvalid : start.Valid c) (hticking : start.ticking c = true)
    {latest : Nat} (hrate : 0 < rateBps)
    (hlatest : latestRatePacingTime c.image.stopTimeNs start.generator
      (start.dcqcn.rate.withRateNumerator rateBps) = .ok latest) :
    latest = start.generator.nextEmission.departureTimeNs +
      start.dcqcn.rate.pacingIntervalNs * (start.planTicksAt c rateBps - 1) := by
  obtain ⟨-, hstop⟩ := DcqcnPacer.ticking_iff.1 hticking
  unfold latestRatePacingTime at hlatest
  rw [if_neg (Nat.not_lt.2 hstop)] at hlatest
  rw [eq_of_checks hlatest, remainingRatePacingTicks_eq (hvalid.positive hrate)]
  rfl

theorem executableTicks_idle (hidle : start.ticking c = false) (rate : RateGenerator) :
    executableRatePacingTicks c.image.stopTimeNs start.generator rate = .ok 0 := by
  refine @executableRatePacingTicks_of_idle c ⟨start.entry, start.generator, rate, start.token⟩ ?_
  rw [← hidle]
  simp [RatePacer.ticking, DcqcnPacer.ticking, DcqcnPacer.active, FlowGeneratorState.awaitsTick,
    Ctx.atTick, Ctx.now]

/-- The bounds at a rate below which the controller does not fall. -/
theorem DcqcnPacer.Valid.bounds_at (hvalid : start.Valid c) (hlow : 0 < low)
    (hrange : start.dcqcn.controller.InRange low start.dcqcn.controller.config)
    (htimes : ∀ timeNs, .cnp timeNs ∈ events → timeNs ≤ u64Max)
    (hrun : start.run c events = .ok (log, last)) :
    (∃ ticks, executableRatePacingTicks c.image.stopTimeNs start.generator
        (start.dcqcn.rate.withRateNumerator low) = .ok ticks ∧ log.length ≤ ticks) ∧
    (∀ latest, latestRatePacingTime c.image.stopTimeNs start.generator
        (start.dcqcn.rate.withRateNumerator low) = .ok latest → ∀ entry ∈ log, entry.1 ≤ latest) ∧
    ∃ packets, executableDcqcnPackets c.image.stopTimeNs start.generator start.dcqcn = .ok packets ∧
      sentCount log ≤ packets := by
  obtain ⟨hthree, hinitial, hinitial'⟩ :=
    DcqcnControllerConfig.rates_of_validate hvalid.controller.config
  have hrates := hinitial.trans hinitial'
  have hmaximum : 0 < start.dcqcn.controller.config.maximumRateBps := by omega
  have hfastest := hvalid.positive hmaximum
  cases hticking : start.ticking c with
  | false =>
    obtain rfl := DcqcnPacer.run_idle hticking hrun
    obtain ⟨packets, hwithin, -⟩ := ratePacketsWithinTicks_eq hfastest (hvalid.counted_at _) 0
    exact ⟨⟨0, executableTicks_idle hticking _, Nat.le_refl 0⟩,
      fun latest _ entry hentry => absurd hentry List.not_mem_nil,
      ⟨packets, bind_eq_ok.2 ⟨0, executableTicks_idle hticking _, hwithin⟩, Nat.zero_le _⟩⟩
  | true =>
    have hconfig :=
      DcqcnControllerConfig.usable_of_validate hvalid.controller.config hvalid.controller.maximum
    have hpositive : start.dcqcn.rate.Positive := by
      refine ⟨hvalid.interval, hvalid.packetSize, ?_, hvalid.denominator ▸ Nat.one_pos⟩
      rw [hvalid.numerator]
      exact hlow.trans_le hrange.current.1
    obtain ⟨hlength, hlate, hsent, hpaid⟩ := (Plods.initial hvalid hrange).run hconfig hrates
      hpositive hlow hvalid.counted htimes (Nat.zero_le _) hrun
    rw [Nat.zero_add] at hlength hsent hpaid
    refine ⟨⟨_, executableTicks_at hvalid hticking hlow, hlength⟩, ?_, ?_⟩
    · intro latest hlatest entry hentry
      rw [latestTime_at hvalid hticking hlow hlatest]
      exact hlate entry hentry
    · -- What was sent is paid at the maximum rate within the ticks of the fastest source.
      obtain ⟨packets, hwithin, hby⟩ := ratePacketsWithinTicks_eq hfastest
        (hvalid.counted_at _) (start.planTicksAt c start.dcqcn.controller.config.maximumRateBps)
      refine ⟨packets, bind_eq_ok.2 ⟨_, executableTicks_at hvalid hticking hmaximum, hwithin⟩, ?_⟩
      refine PaidBy.le_of_payTick hby hsent (le_min (payTick_strictMono.monotone hsent) ?_)
      rw [Nat.zero_add] at hpaid
      exact hpaid.trans (hlength.trans (Nat.min_le_right _ _))

end Run

/-- Whatever CNPs arrive, a DCQCN source that the validator accepts sends at most
`executable_dcqcn_packets` packets, and keeps within the ticks and the latest time computed at
the rate floor of its controller. With an even minimum and neither rate below it, it keeps within
`executable_dcqcn_pacing_ticks` and `latest_dcqcn_pacing_time`. -/
theorem dcqcn_pacing_bounds (c : Ctx) (start : DcqcnPacer) (hvalid : start.Valid c)
    (events : List PacerEvent) (htimes : ∀ timeNs, .cnp timeNs ∈ events → timeNs ≤ u64Max)
    (log : List (Nat × Paced)) (last : DcqcnPacer) (hrun : start.run c events = .ok (log, last)) :
    let config := start.dcqcn.controller.config
    let slowest := start.dcqcn.rate.withRateNumerator (dcqcnRateFloorBps config.minimumRateBps)
    let stop := c.image.stopTimeNs
    (∃ packets, executableDcqcnPackets stop start.generator start.dcqcn = .ok packets ∧
      sentCount log ≤ packets) ∧
    (∃ ticks, executableRatePacingTicks stop start.generator slowest = .ok ticks ∧
      log.length ≤ ticks) ∧
    (∀ latest, latestRatePacingTime stop start.generator slowest = .ok latest →
      ∀ entry ∈ log, entry.1 ≤ latest) ∧
    (config.minimumRateBps % 2 = 0 →
      config.minimumRateBps ≤ start.dcqcn.controller.currentRateBps →
      config.minimumRateBps ≤ start.dcqcn.controller.targetRateBps →
      (∃ ticks, executableDcqcnPacingTicks stop start.generator start.dcqcn = .ok ticks ∧
        log.length ≤ ticks) ∧
      ∀ latest, latestDcqcnPacingTime stop start.generator start.dcqcn = .ok latest →
        ∀ entry ∈ log, entry.1 ≤ latest) := by
  intro config slowest stop
  have hcontroller := hvalid.controller
  obtain ⟨hthree, -, -⟩ := DcqcnControllerConfig.rates_of_validate hcontroller.config
  have hminimum : 3 ≤ config.minimumRateBps := hthree
  have hfloor : 0 < dcqcnRateFloorBps config.minimumRateBps := by
    unfold dcqcnRateFloorBps
    omega
  obtain ⟨hticks, hlatest, hpackets⟩ := hvalid.bounds_at hfloor hcontroller.inRange htimes hrun
  refine ⟨hpackets, hticks, hlatest, fun heven hcurrent htarget => ?_⟩
  have hrange : start.dcqcn.controller.InRange config.minimumRateBps config :=
    ⟨rfl, hcontroller.alpha, ⟨hcurrent, hcontroller.current.2⟩, ⟨htarget, hcontroller.target.2⟩,
      hcontroller.stage, heven, Nat.le_refl _⟩
  have hpositive : 0 < config.minimumRateBps := by omega
  obtain ⟨hticks', hlatest', -⟩ := hvalid.bounds_at hpositive hrange htimes hrun
  exact ⟨hticks', hlatest'⟩

/-! ## §6. Two packets at a fixed rate.

Two packets of three bytes, a tick a second, at one fixed rate for minimum, start and
maximum; a CNP arrives after the first packet. -/

def secondsContext : Ctx :=
  { exchangeContext 0 100 .pacingTimer 0 with
    image := { (exchangeContext 0 100 .pacingTimer 0).image with stopTimeNs := 40000000000 } }

def twoPacketRate (rateBps : Nat) : DcqcnGenerator where
  rate := ⟨1000000000, 1000000000, 3, 6, rateBps, 1, 0⟩
  controller := .pristine ⟨rateBps, rateBps, rateBps, 0, 0, 0, 1000, 1000, 1000000000, 1, false⟩
  cnpSizeBytes := 64

def twoPacketPacer (rateBps : Nat) : DcqcnPacer where
  entry := ⟨emptyHost, ⟨[], [], none⟩⟩
  generator := ⟨0, 0, 0, ⟨.blocked, 1000000000, 0⟩, 0, ⟨0, 0, 0⟩, .dcqcn (twoPacketRate rateBps)⟩
  dcqcn := twoPacketRate rateBps
  token := ⟨0, 0, 3, false, .data⟩

/-- A CNP between the ticks of the first packet and those of the second. -/
def cnpAfter (ticks : Nat) : List PacerEvent :=
  List.replicate ticks .timer ++ .cnp (ticks * 1000000000 + 5) :: List.replicate 15 .timer

theorem twoPacketPacer_valid (rateBps : Nat) (h : rateBps = 3 ∨ rateBps = 4) :
    (twoPacketPacer rateBps).Valid secondsContext := by
  rcases h with rfl | rfl
  · refine ⟨⟨rfl, by decide, by decide, by decide, fun _ => rfl, by decide, by decide⟩, by decide,
      by decide, by decide, rfl, rfl, by decide, ⟨by decide, by decide, by decide⟩, by decide, fun _ => ?_⟩
    decide
  · refine ⟨⟨rfl, by decide, by decide, by decide, fun _ => rfl, by decide, by decide⟩, by decide,
      by decide, by decide, rfl, rfl, by decide, ⟨by decide, by decide, by decide⟩, by decide, fun _ => ?_⟩
    decide

/-- At a minimum of three bits a second the rate falls to two after the CNP: the source ticks
twenty times where the validator allows for sixteen. -/
theorem dcqcn_ticks_exceed_bound :
    (twoPacketPacer 3).Valid secondsContext ∧
    executableDcqcnPacingTicks 40000000000 (twoPacketPacer 3).generator (twoPacketPacer 3).dcqcn =
      .ok 16 ∧
    latestDcqcnPacingTime 40000000000 (twoPacketPacer 3).generator (twoPacketPacer 3).dcqcn =
      .ok 16000000000 ∧
    ((twoPacketPacer 3).run secondsContext (cnpAfter 8)).toOption.map (fun result =>
      (result.1.length, result.1.getLast?.map Prod.fst, result.2.dcqcn.controller.currentRateBps)) =
      some (20, some 20000000000, 2) := by
  refine ⟨twoPacketPacer_valid 3 (.inl rfl), ?_, ?_, ?_⟩
  · decide +kernel
  · decide +kernel
  · decide +kernel

theorem dcqcn_pacing_bounds_even :
    ∃ log last, (twoPacketPacer 4).run secondsContext (cnpAfter 6) = .ok (log, last) ∧
      ∃ ticks, executableDcqcnPacingTicks 40000000000 (twoPacketPacer 4).generator
        (twoPacketPacer 4).dcqcn = .ok ticks ∧ log.length ≤ ticks := by
  have hok : ((twoPacketPacer 4).run secondsContext (cnpAfter 6)).toOption.isSome = true := by
    decide +kernel
  cases hrun : (twoPacketPacer 4).run secondsContext (cnpAfter 6) with
  | error e =>
    rw [hrun] at hok
    cases hok
  | ok result =>
    obtain ⟨log, last⟩ := result
    have htimes : ∀ timeNs, PacerEvent.cnp timeNs ∈ cnpAfter 6 → timeNs ≤ u64Max := by
      intro timeNs hmem
      have htime : timeNs = 6 * 1000000000 + 5 := by simpa [cnpAfter] using hmem
      rw [htime]
      decide
    obtain ⟨-, -, -, hbounds⟩ := dcqcn_pacing_bounds secondsContext (twoPacketPacer 4)
      (twoPacketPacer_valid 4 (.inr rfl)) (cnpAfter 6) htimes log last hrun
    exact ⟨log, last, rfl, (hbounds rfl (Nat.le_refl _) (Nat.le_refl _)).1⟩

end Days
