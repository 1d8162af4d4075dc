/-
  Days.Logic.RateTicks — what the validator's closed forms for a rate source
  mean: the ticks are the tick that pays for the last packet, the packets within
  some ticks are the packets paid by then.
-/
import Days.Exec.RateForms
import Days.Lib.Pacing

namespace Days

open Lib.Pacing

variable {j : Nat}

/-! ## §1. The plan of a rate source. -/

namespace RateGenerator

def scale (rate : RateGenerator) : Nat := rate.rateDenominator * 1000000000

def tickCredit (rate : RateGenerator) : Nat :=
  rate.rateNumeratorBitsPerSecond * rate.pacingIntervalNs

def fullPacketCost (rate : RateGenerator) : Nat := rate.packetSizeBytes * 8 * rate.scale

/-- The validator's conditions on the parameters of a rate source. -/
structure Positive (rate : RateGenerator) : Prop where
  interval : 0 < rate.pacingIntervalNs
  packetSize : 0 < rate.packetSizeBytes
  numerator : 0 < rate.rateNumeratorBitsPerSecond
  denominator : 0 < rate.rateDenominator

theorem Positive.tickCredit_pos {rate : RateGenerator} (h : rate.Positive) : 0 < rate.tickCredit :=
  Nat.mul_pos h.numerator h.interval

theorem Positive.scale_pos {rate : RateGenerator} (h : rate.Positive) : 0 < rate.scale :=
  Nat.mul_pos h.denominator (by decide)

theorem Positive.fullPacketCost_pos {rate : RateGenerator} (h : rate.Positive) :
    0 < rate.fullPacketCost :=
  Nat.mul_pos (Nat.mul_pos h.packetSize (by decide)) h.scale_pos

end RateGenerator

section Plan

variable (g : FlowGeneratorState) (rate : RateGenerator)

def remainingBytes : Nat := rate.totalBytes - g.bytesEmitted

/-- The bytes of the first `j` packets still to be sent. -/
def bytesOf (j : Nat) : Nat := min (j * rate.packetSizeBytes) (remainingBytes g rate)

/-- What the first `j` packets still to be sent cost. -/
def costOf (j : Nat) : Nat := bytesOf g rate j * 8 * rate.scale

/-- The packets still to be sent. -/
def packetsLeft : Nat :=
  (remainingBytes g rate + rate.packetSizeBytes - 1) / rate.packetSizeBytes

/-- The tick, counted from now, that sends packet `j`. -/
def sendTick : Nat → Nat := payTick rate.creditQuanta rate.tickCredit (costOf g rate)

/-- `k` packets are sent within `t` ticks. -/
def SentBy (t k : Nat) : Prop :=
  PaidBy rate.creditQuanta rate.tickCredit (costOf g rate) (packetsLeft g rate) t k

end Plan

section Forms

variable {g : FlowGeneratorState} {rate : RateGenerator}

theorem packetsLeft_eq (h : rate.Positive) :
    packetsLeft g rate = remainingBytes g rate / rate.packetSizeBytes +
      if remainingBytes g rate % rate.packetSizeBytes = 0 then 0 else 1 := by
  have hsize := h.packetSize
  have hdiv := Nat.div_add_mod (remainingBytes g rate) rate.packetSizeBytes
  have hmod := Nat.mod_lt (remainingBytes g rate) hsize
  unfold packetsLeft
  generalize remainingBytes g rate / rate.packetSizeBytes = full at *
  generalize remainingBytes g rate % rate.packetSizeBytes = rest at *
  rw [← hdiv]
  split
  next hrest =>
    rw [hrest, Nat.add_zero, Nat.add_sub_assoc (by omega), Nat.mul_add_div hsize,
      Nat.div_eq_of_lt (by omega)]
  next hrest =>
    rw [show rate.packetSizeBytes * full + rest + rate.packetSizeBytes - 1
      = rate.packetSizeBytes * (full + 1) + (rest - 1) by rw [Nat.mul_succ]; omega,
      Nat.mul_add_div hsize, Nat.div_eq_of_lt (by omega), Nat.add_zero]

/-- Packets before the remainder have one price. -/
theorem costOf_of_full (hj : j ≤ remainingBytes g rate / rate.packetSizeBytes) :
    costOf g rate j = j * rate.fullPacketCost := by
  have hle : j * rate.packetSizeBytes ≤ remainingBytes g rate :=
    (Nat.mul_le_mul_right _ hj).trans (Nat.div_mul_le_self _ _)
  unfold costOf bytesOf RateGenerator.fullPacketCost
  rw [Nat.min_eq_left hle]
  ring

/-- The remainder comes on top of the full packets. -/
theorem costOf_remainder (h : rate.Positive) :
    costOf g rate (remainingBytes g rate / rate.packetSizeBytes + 1) =
      remainingBytes g rate / rate.packetSizeBytes * rate.fullPacketCost +
        remainingBytes g rate % rate.packetSizeBytes * 8 * rate.scale := by
  have hmod := Nat.mod_lt (remainingBytes g rate) h.packetSize
  have hdiv := Nat.div_add_mod (remainingBytes g rate) rate.packetSizeBytes
  unfold costOf bytesOf RateGenerator.fullPacketCost
  generalize remainingBytes g rate / rate.packetSizeBytes = full at *
  generalize remainingBytes g rate % rate.packetSizeBytes = rest at *
  have hle : remainingBytes g rate ≤ (full + 1) * rate.packetSizeBytes := by
    rw [← hdiv, Nat.succ_mul, Nat.mul_comm]
    omega
  rw [Nat.min_eq_right hle, ← hdiv]
  ring

theorem sendTick_of_full (h : rate.Positive) (hj : j ≤ remainingBytes g rate / rate.packetSizeBytes) :
    sendTick g rate j =
      max j (coverTicks rate.creditQuanta rate.tickCredit (j * rate.fullPacketCost)) :=
  payTick_uniform h.tickCredit_pos fun _ hi => costOf_of_full (hi.trans hj)

theorem bytesOf_succ (j : Nat) :
    bytesOf g rate (j + 1) = bytesOf g rate j +
      min rate.packetSizeBytes (remainingBytes g rate - bytesOf g rate j) := by
  unfold bytesOf
  rw [Nat.succ_mul]
  omega

theorem costOf_succ (j : Nat) :
    costOf g rate (j + 1) = costOf g rate j +
      min rate.packetSizeBytes (remainingBytes g rate - bytesOf g rate j) * 8 * rate.scale := by
  unfold costOf
  rw [bytesOf_succ]
  ring

theorem bytesOf_le (j : Nat) : bytesOf g rate j ≤ remainingBytes g rate := Nat.min_le_right _ _

theorem lt_packetsLeft_iff (h : rate.Positive) :
    j < packetsLeft g rate ↔ j * rate.packetSizeBytes < remainingBytes g rate := by
  have hsize := h.packetSize
  unfold packetsLeft
  rw [← Nat.succ_le_iff, Nat.le_div_iff_mul_le hsize, Nat.succ_mul]
  omega

/-- Packets are left as long as bytes are. -/
theorem bytesOf_lt_iff (h : rate.Positive) :
    bytesOf g rate j < remainingBytes g rate ↔ j < packetsLeft g rate := by
  rw [lt_packetsLeft_iff h, bytesOf]
  omega

theorem bytesOf_of_lt (h : rate.Positive) (hj : j < packetsLeft g rate) :
    bytesOf g rate j = j * rate.packetSizeBytes :=
  Nat.min_eq_left ((lt_packetsLeft_iff h).1 hj).le

/-! ## §2. Ticks. -/

theorem creditTicks_eq {cost credit tickCredit : Nat} (h : 0 < tickCredit) :
    creditTicks cost credit tickCredit = coverTicks credit tickCredit cost := by
  unfold creditTicks divideRoundingUp coverTicks
  split
  next hgt => rw [if_neg (by omega)]
  next hle =>
    have hzero : cost - credit = 0 := by omega
    rw [hzero, Nat.zero_add, Nat.div_eq_of_lt (by omega)]

/-- Covering a further cost with what is left after `ticks` ticks. -/
theorem coverTicks_carry {credit tick spent cost ticks : Nat} (htick : 0 < tick)
    (hspent : spent ≤ credit + ticks * tick) :
    max (ticks + 1) (coverTicks credit tick (spent + cost)) =
      ticks + max (coverTicks (credit + ticks * tick - spent) tick cost) 1 := by
  refine eq_of_forall_ge_iff fun t => ?_
  rw [max_le_iff, coverTicks_le_iff htick]
  constructor
  · rintro ⟨hlater, hcovered⟩
    obtain ⟨d, rfl⟩ : ∃ d, t = ticks + d := ⟨t - ticks, by omega⟩
    rw [Nat.add_mul] at hcovered
    have hcover : coverTicks (credit + ticks * tick - spent) tick cost ≤ d :=
      (coverTicks_le_iff htick).2 (by omega)
    omega
  · intro hle
    obtain ⟨d, rfl⟩ : ∃ d, t = ticks + d := ⟨t - ticks, by omega⟩
    have hcover : coverTicks (credit + ticks * tick - spent) tick cost ≤ d := by omega
    have hcovered := (coverTicks_le_iff htick).1 hcover
    rw [Nat.add_mul]
    omega

/-- The closed form in terms of the last full packet. -/
theorem remainingRatePacingTicks_full (h : rate.Positive) :
    remainingRatePacingTicks g rate =
      if remainingBytes g rate % rate.packetSizeBytes ≠ 0 then
        sendTick g rate (remainingBytes g rate / rate.packetSizeBytes) +
          max (coverTicks
            (rate.creditQuanta
              + sendTick g rate (remainingBytes g rate / rate.packetSizeBytes) * rate.tickCredit
              - remainingBytes g rate / rate.packetSizeBytes * rate.fullPacketCost)
            rate.tickCredit (remainingBytes g rate % rate.packetSizeBytes * 8 * rate.scale)) 1
      else sendTick g rate (remainingBytes g rate / rate.packetSizeBytes) := by
  have htick := h.tickCredit_pos
  by_cases hzero : remainingBytes g rate / rate.packetSizeBytes = 0
  · have hstart : sendTick g rate 0 = 0 := rfl
    have hdef : remainingRatePacingTicks g rate =
        if remainingBytes g rate % rate.packetSizeBytes ≠ 0 then
          0 + max (creditTicks (remainingBytes g rate % rate.packetSizeBytes * 8 * rate.scale)
            rate.creditQuanta rate.tickCredit) 1
        else 0 := by
      unfold remainingBytes at hzero
      unfold remainingRatePacingTicks
      simp only [hzero, ne_eq, not_true_eq_false, if_false]
      rfl
    rw [hdef, hzero, hstart, creditTicks_eq htick, Nat.zero_mul, Nat.zero_mul, Nat.add_zero,
      Nat.sub_zero]
  · rw [sendTick_of_full h le_rfl, ← creditTicks_eq htick, ← creditTicks_eq htick]
    unfold remainingBytes at hzero
    unfold remainingRatePacingTicks
    simp only [ne_eq, hzero, not_false_eq_true, if_true]
    rfl

/-- The remaining ticks end with the last packet. -/
theorem remainingRatePacingTicks_eq (h : rate.Positive) :
    remainingRatePacingTicks g rate = sendTick g rate (packetsLeft g rate) := by
  have htick := h.tickCredit_pos
  rw [remainingRatePacingTicks_full h, packetsLeft_eq h]
  by_cases hrest : remainingBytes g rate % rate.packetSizeBytes = 0
  · rw [if_neg (not_not_intro hrest), if_pos hrest, Nat.add_zero]
  · have hspent : remainingBytes g rate / rate.packetSizeBytes * rate.fullPacketCost ≤
        rate.creditQuanta
          + sendTick g rate (remainingBytes g rate / rate.packetSizeBytes) * rate.tickCredit := by
      rw [← coverTicks_le_iff htick, sendTick_of_full h le_rfl]
      exact le_max_right _ _
    rw [if_pos hrest, if_neg hrest, ← coverTicks_carry htick hspent, ← costOf_remainder h]
    rfl

/-! ## §3. Packets. -/

/-- The state a rate source keeps about what it has sent. -/
structure Counted (g : FlowGeneratorState) (rate : RateGenerator) : Prop where
  packets : g.packetsEmitted * rate.packetSizeBytes < width 128
  total : rate.totalBytes < width 64
  bytes : g.bytesEmitted = min (g.packetsEmitted * rate.packetSizeBytes) rate.totalBytes

theorem remainingRatePackets_eq (h : Counted g rate) :
    remainingRatePackets g rate = .ok (packetsLeft g rate) := by
  have hle : ¬ g.bytesEmitted > rate.totalBytes := by rw [h.bytes]; omega
  have hbytes := h.bytes
  simp only [remainingRatePackets, if_neg hle, checkedMul, if_pos h.packets, ← hbytes, ne_eq,
    not_true_eq_false, if_false]
  rfl

theorem packetsLeft_le (h : rate.Positive) : packetsLeft g rate ≤ remainingBytes g rate := by
  rw [← Nat.not_lt, lt_packetsLeft_iff h, Nat.not_lt]
  exact Nat.le_mul_of_pos_right _ h.packetSize

/-- The full packets within `t` ticks. -/
def fullWithin (g : FlowGeneratorState) (rate : RateGenerator) (t : Nat) : Nat :=
  min (min (remainingBytes g rate / rate.packetSizeBytes) t)
    ((rate.creditQuanta + t * rate.tickCredit) / rate.fullPacketCost)

theorem sendTick_fullWithin_le (h : rate.Positive) (t : Nat) :
    sendTick g rate (fullWithin g rate t) ≤ t := by
  have hcost := h.fullPacketCost_pos
  rw [sendTick_of_full h (by unfold fullWithin; omega), max_le_iff, coverTicks_le_iff h.tickCredit_pos,
    ← Nat.le_div_iff_mul_le hcost]
  unfold fullWithin
  omega

theorem lt_sendTick_fullWithin (h : rate.Positive) {t : Nat}
    (hfew : fullWithin g rate t < remainingBytes g rate / rate.packetSizeBytes) :
    t < sendTick g rate (fullWithin g rate t + 1) := by
  have hcost := h.fullPacketCost_pos
  rw [sendTick_of_full h hfew, ← Nat.not_le, max_le_iff, coverTicks_le_iff h.tickCredit_pos,
    ← Nat.le_div_iff_mul_le hcost]
  unfold fullWithin at hfew ⊢
  omega

/-- The closed form in terms of the full packets. -/
theorem ratePacketsWithinTicks_full (h : rate.Positive) (hcount : Counted g rate) {t : Nat}
    (hsome : ¬ (t = 0 ∨ packetsLeft g rate = 0)) :
    ratePacketsWithinTicks g rate t =
      if remainingBytes g rate % rate.packetSizeBytes ≠ 0 ∧
          fullWithin g rate t = remainingBytes g rate / rate.packetSizeBytes ∧
          remainingRatePacingTicks g rate ≤ t
      then .ok (fullWithin g rate t + 1) else .ok (fullWithin g rate t) := by
  have hwidth : width 64 = 2 ^ 64 := rfl
  have hmost : fullWithin g rate t ≤ remainingBytes g rate / rate.packetSizeBytes := by
    unfold fullWithin; omega
  have hleft := packetsLeft_eq (g := g) h
  have hsmall : packetsLeft g rate < width 64 := by
    have hle := packetsLeft_le (g := g) h
    have htotal := hcount.total
    unfold remainingBytes at hle
    omega
  have hfew : ¬ fullWithin g rate t ≥ 2 ^ 64 := by split at hleft <;> omega
  unfold ratePacketsWithinTicks
  simp only [remainingRatePackets_eq hcount, bind, Except.bind, if_neg hsome]
  show (if fullWithin g rate t ≥ 2 ^ 64 then _
    else if remainingBytes g rate % rate.packetSizeBytes ≠ 0 ∧
        fullWithin g rate t = remainingBytes g rate / rate.packetSizeBytes ∧
        remainingRatePacingTicks g rate ≤ t then _ else _) = _
  rw [if_neg hfew]
  by_cases hlast : remainingBytes g rate % rate.packetSizeBytes ≠ 0 ∧
      fullWithin g rate t = remainingBytes g rate / rate.packetSizeBytes ∧
      remainingRatePacingTicks g rate ≤ t
  · rw [if_pos hlast, if_pos hlast]
    rw [if_neg hlast.1] at hleft
    have hsum : checkedAdd 64 (fullWithin g rate t) 1 = some (fullWithin g rate t + 1) :=
      checkedAdd_of_lt (by omega)
    unfold fullWithin remainingBytes RateGenerator.tickCredit RateGenerator.fullPacketCost
      RateGenerator.scale at hsum
    rw [hsum]
    rfl
  · rw [if_neg hlast, if_neg hlast]
    rfl

/-- The packets within `t` ticks are those sent by then. -/
theorem ratePacketsWithinTicks_eq (h : rate.Positive) (hcount : Counted g rate) (t : Nat) :
    ∃ k, ratePacketsWithinTicks g rate t = .ok k ∧ SentBy g rate t k := by
  by_cases hnone : t = 0 ∨ packetsLeft g rate = 0
  · refine ⟨0, ?_, Nat.zero_le _, Nat.zero_le _, fun hsome => ?_⟩
    · unfold ratePacketsWithinTicks
      simp only [remainingRatePackets_eq hcount, bind, Except.bind, if_pos hnone]
      rfl
    · have hfirst : sendTick g rate 0 < sendTick g rate (0 + 1) := payTick_lt_succ 0
      unfold sendTick at hfirst
      omega
  · have hmost : fullWithin g rate t ≤ remainingBytes g rate / rate.packetSizeBytes := by
      unfold fullWithin; omega
    have hleft := packetsLeft_eq (g := g) h
    rw [ratePacketsWithinTicks_full h hcount hnone, remainingRatePacingTicks_eq h]
    split
    next hlast =>
      obtain ⟨hrest, hall, hdone⟩ := hlast
      rw [if_neg hrest] at hleft
      refine ⟨_, rfl, by omega, ?_, fun hsome => absurd hsome (by omega)⟩
      rw [hall, ← hleft]
      exact hdone
    next hnot =>
      refine ⟨_, rfl, by split at hleft <;> omega, sendTick_fullWithin_le h t, fun hsome => ?_⟩
      by_cases hall : fullWithin g rate t = remainingBytes g rate / rate.packetSizeBytes
      · have hrest : remainingBytes g rate % rate.packetSizeBytes ≠ 0 := by
          intro hzero
          rw [if_pos hzero] at hleft
          omega
        have hlate : ¬ sendTick g rate (packetsLeft g rate) ≤ t := fun hdone => hnot ⟨hrest, hall, hdone⟩
        rw [if_neg hrest, ← hall] at hleft
        rw [hleft] at hlate
        exact Nat.lt_of_not_le hlate
      · exact lt_sendTick_fullWithin h (by omega)

end Forms

end Days
