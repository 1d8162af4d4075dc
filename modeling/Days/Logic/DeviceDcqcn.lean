/-
  Days.Logic.DeviceDcqcn — the kernel's DCQCN row follows the host's controller.
-/
import Days.Device.Dcqcn
import Days.Logic.DcqcnRange

namespace Days.Device

open DcqcnController

/-! ## §1. Packed words. -/

/-- A low half of 32 bits under some flags. -/
def pack (flags low : Nat) : Nat := 2 ^ 32 * flags + low

theorem pack_and {f g s t : Nat} (hs : s < 2 ^ 32) (ht : t < 2 ^ 32) :
    pack f s &&& pack g t = pack (f &&& g) (s &&& t) := by
  refine Nat.eq_of_testBit_eq fun j => ?_
  unfold pack
  rw [Nat.testBit_and, Nat.testBit_two_pow_mul_add _ hs, Nat.testBit_two_pow_mul_add _ ht,
    Nat.testBit_two_pow_mul_add _ (Nat.and_lt_two_pow _ ht)]
  split <;> rw [Nat.testBit_and]

theorem pack_or {f g s t : Nat} (hs : s < 2 ^ 32) (ht : t < 2 ^ 32) :
    pack f s ||| pack g t = pack (f ||| g) (s ||| t) := by
  refine Nat.eq_of_testBit_eq fun j => ?_
  unfold pack
  rw [Nat.testBit_or, Nat.testBit_two_pow_mul_add _ hs, Nat.testBit_two_pow_mul_add _ ht,
    Nat.testBit_two_pow_mul_add _ (Nat.or_lt_two_pow hs ht)]
  split <;> rw [Nat.testBit_or]

/-- The four flags from bit 32 on. -/
def nibble (armed alphaPending decreasePending increaseArmed : Bool) : Nat :=
  armed.toNat ||| 2 * alphaPending.toNat ||| 4 * decreasePending.toNat ||| 8 * increaseArmed.toNat

section State

variable {s : Nat} (hs : s < 2 ^ 32) (a p d i : Bool)

include hs

theorem stateWord_eq : stateWord s a p d i = pack (nibble a p d i) s := by
  have hflag (flag : Bool) (k : Nat) : flagBit flag (2 ^ 32 * k) = pack (k * flag.toNat) 0 := by
    cases flag <;> simp [flagBit, pack]
  have hstage : s = pack 0 s := (Nat.zero_add s).symm
  change s ||| flagBit a (2 ^ 32 * 1) ||| flagBit p (2 ^ 32 * 2) ||| flagBit d (2 ^ 32 * 4) |||
    flagBit i (2 ^ 32 * 8) = _
  rw [hflag, hflag, hflag, hflag]
  nth_rewrite 1 [hstage]
  simp only [pack_or hs (Nat.two_pow_pos 32), Nat.or_zero, Nat.zero_or, Nat.one_mul, nibble]

/-- Masking some flags, and the stage or not. -/
theorem stateWord_and (g : Nat) :
    stateWord s a p d i &&& pack g 0 = pack (nibble a p d i &&& g) 0 ∧
      stateWord s a p d i &&& pack g (2 ^ 32 - 1) = pack (nibble a p d i &&& g) s := by
  rw [stateWord_eq hs, pack_and hs (by decide), pack_and hs (by decide), Nat.and_zero,
    Nat.and_two_pow_sub_one_eq_mod, Nat.mod_eq_of_lt hs]
  exact ⟨rfl, rfl⟩

theorem stateWord_flags :
    (stateWord s a p d i &&& armedBit ≠ 0 ↔ a = true) ∧
    (stateWord s a p d i &&& alphaPendingBit ≠ 0 ↔ p = true) ∧
    (stateWord s a p d i &&& decreasePendingBit ≠ 0 ↔ d = true) ∧
    (stateWord s a p d i &&& increaseArmedBit ≠ 0 ↔ i = true) := by
  have hflags : ∀ a p d i : Bool, (pack (nibble a p d i &&& 1) 0 ≠ 0 ↔ a = true) ∧
      (pack (nibble a p d i &&& 2) 0 ≠ 0 ↔ p = true) ∧
      (pack (nibble a p d i &&& 4) 0 ≠ 0 ↔ d = true) ∧
      (pack (nibble a p d i &&& 8) 0 ≠ 0 ↔ i = true) := by decide
  have h (k : Nat) := (stateWord_and hs a p d i k).1
  have hbits := hflags a p d i
  rw [← h, ← h, ← h, ← h] at hbits
  exact hbits

theorem stateWord_stage : stateWord s a p d i &&& stageMask = s := by
  have h := (stateWord_and hs a p d i 0).2
  rw [Nat.and_zero] at h
  exact h.trans (Nat.zero_add s)

theorem stateWord_or (a' p' d' i' : Bool) :
    stateWord s a p d i ||| stateWord 0 a' p' d' i' =
      stateWord s (a || a') (p || p') (d || d') (i || i') := by
  rw [stateWord_eq hs, stateWord_eq (Nat.two_pow_pos 32), stateWord_eq hs,
    pack_or hs (Nat.two_pow_pos 32), Nat.or_zero]
  congr 1
  revert a p d i a' p' d' i'
  decide

theorem stateWord_set :
    stateWord s a p d i ||| armedBit = stateWord s true p d i ∧
    stateWord s a p d i ||| alphaPendingBit = stateWord s a true d i ∧
    stateWord s a p d i ||| decreasePendingBit = stateWord s a p true i ∧
    stateWord s a p d i ||| increaseArmedBit = stateWord s a p d true := by
  have h := stateWord_or hs a p d i
  have h1 := h true false false false
  have h2 := h false true false false
  have h4 := h false false true false
  have h8 := h false false false true
  simp only [Bool.or_false, Bool.or_true] at h1 h2 h4 h8
  exact ⟨h1, h2, h4, h8⟩

theorem without_alphaPending :
    without (stateWord s a p d i) alphaPendingBit = stateWord s a false d i := by
  unfold without
  rw [show u64Max ^^^ alphaPendingBit = pack (2 ^ 32 - 3) (2 ^ 32 - 1) from by decide,
    (stateWord_and hs a p d i _).2, stateWord_eq hs]
  congr 1
  revert a p d i
  decide

theorem without_stage :
    without (stateWord s a p d i) (stageMask ||| decreasePendingBit) = stateWord 0 a p false i := by
  unfold without
  rw [show u64Max ^^^ (stageMask ||| decreasePendingBit) = pack (2 ^ 32 - 5) 0 from by decide,
    (stateWord_and hs a p d i _).1, stateWord_eq (Nat.two_pow_pos 32)]
  congr 1
  revert a p d i
  decide

theorem stateWord_succ (hnext : s + 1 < 2 ^ 32) :
    (stateWord s a p d i + 1) % 2 ^ 64 = stateWord (s + 1) a p d i := by
  have hsmall : nibble a p d i < 16 := by
    revert a p d i
    decide
  rw [stateWord_eq hs, stateWord_eq hnext]
  unfold pack
  omega

end State

/-! ## §2. Arithmetic. -/

theorem mulShr63Word_eq (a b : Nat) : mulShr63Word a b = mulShr63 a b := by
  unfold mulShr63Word mulShr63 mulHigh mulLow
  generalize a * b = product
  have hbit : product % 2 ^ 64 / 2 ^ 63 < 2 ^ 1 := by omega
  have heven : product / 2 ^ 64 * 2 % 2 ^ 64 = 2 ^ 1 * (product / 2 ^ 64 % 2 ^ 63) := by omega
  rw [heven, ← Nat.two_pow_add_eq_or_of_lt hbit]
  omega

theorem decayLoop_eq (retained remaining alpha : Nat) :
    DcqcnRow.decayLoop retained remaining alpha = decayAlpha retained remaining alpha := by
  induction remaining generalizing alpha with
  | zero => rfl
  | succ remaining ih =>
    rw [DcqcnRow.decayLoop, decayAlpha, mulShr63Word_eq, ih, ite_not]
    split
    · assumption
    · rfl

theorem saturatingAddWord_eq {a b : Nat} (ha : a ≤ u64Max) (hb : b ≤ u64Max) :
    saturatingAddWord a b = saturatingAdd 64 a b := by
  have hmax : u64Max = 2 ^ 64 - 1 := rfl
  unfold saturatingAddWord
  rw [saturatingAdd_eq]
  dsimp only
  split <;> omega

theorem gridInstant_eq {anchor : Nat} (hanchor : anchor ≤ u64Max) (steps interval : Nat) :
    gridInstant anchor steps interval = min (anchor + steps * interval) u64Max := by
  have hmax : u64Max = 2 ^ 64 - 1 := rfl
  unfold gridInstant mulLow mulHigh
  generalize steps * interval = offset
  dsimp only
  split <;> omega

theorem ceil_eq {interval : Nat} (hpos : 0 < interval) (span : Nat) :
    span / interval + (if span % interval ≠ 0 then 1 else 0) = (span + interval - 1) / interval := by
  have hless : interval - 1 < interval := Nat.sub_lt hpos Nat.one_pos
  rw [Nat.add_sub_assoc hpos, Nat.add_div hpos, Nat.div_eq_of_lt hless, Nat.mod_eq_of_lt hless, Nat.add_zero]
  congr 1
  split <;> split <;> omega

/-! ## §3. Transitions. -/

/-- The fields are machine integers. -/
structure Words (c : DcqcnController) : Prop where
  rates : c.config.minimumRateBps ≤ u64Max ∧ c.config.maximumRateBps ≤ u64Max ∧
    c.config.additiveRateBps ≤ u64Max ∧ c.config.hyperRateBps ≤ u64Max
  intervals : c.config.alphaIntervalNs ≤ u64Max ∧ c.config.decreaseIntervalNs ≤ u64Max ∧
    c.config.increaseIntervalNs ≤ u64Max
  steps : c.config.fastRecoverySteps < 2 ^ 32
  current : c.currentRateBps ≤ u64Max
  target : c.targetRateBps ≤ u64Max
  clocks : c.nextAlphaNs ≤ u64Max ∧ c.nextDecreaseNs ≤ u64Max ∧ c.nextIncreaseNs ≤ u64Max

/-- What every transition keeps; the stage stays below the flags. -/
structure Sound (c : DcqcnController) : Prop extends Words c where
  usable : c.config.Usable
  below : c.config.fastRecoverySteps + 1 < 2 ^ 32
  alpha : c.alphaQ63 ≤ dcqcnAlphaOne
  stage : c.stage ≤ c.config.fastRecoverySteps + 1

/-- The row holds what a transition made of the controller. -/
structure Tracks (c : DcqcnController) (row : DcqcnRow) (c' : DcqcnController) : Prop where
  row : row = encodeDcqcnController c'
  sound : Sound c'
  config : c'.config = c.config
  armed : c.armed = true → c'.armed = true

variable {c : DcqcnController} {bound time : Nat}

theorem Sound.stage_lt (h : Sound c) : c.stage < 2 ^ 32 := lt_of_le_of_lt h.stage h.below

theorem stepsClamp_flags {steps : Nat} (hsteps : steps < 2 ^ 32) (clamp : Bool) :
    ((steps ||| flagBit clamp clampBit) &&& clampBit ≠ 0 ↔ clamp = true) ∧
      (steps ||| flagBit clamp clampBit) &&& stageMask = steps := by
  have hword : steps ||| flagBit clamp clampBit = stateWord steps clamp false false false := by
    simp [stateWord, flagBit, clampBit, armedBit]
  rw [hword]
  exact ⟨(stateWord_flags hsteps _ _ _ _).1, stateWord_stage hsteps _ _ _ _⟩

theorem Sound.flags (h : Sound c) :
    ((encodeDcqcnController c).state &&& armedBit ≠ 0 ↔ c.armed = true) ∧
    ((encodeDcqcnController c).state &&& alphaPendingBit ≠ 0 ↔ c.alphaPending = true) ∧
    ((encodeDcqcnController c).state &&& decreasePendingBit ≠ 0 ↔ c.decreasePending = true) ∧
    ((encodeDcqcnController c).state &&& increaseArmedBit ≠ 0 ↔ c.increaseArmed = true) :=
  stateWord_flags h.stage_lt _ _ _ _

theorem increaseDue_encode (h : Sound c) : (encodeDcqcnController c).increaseDue = c.increaseInstant := by
  simp only [DcqcnRow.increaseDue, increaseInstant, h.flags]
  rfl

theorem decreaseDue_encode (h : Sound c) : (encodeDcqcnController c).decreaseDue = c.decreaseInstant := by
  simp only [DcqcnRow.decreaseDue, decreaseInstant, h.flags]
  rfl

theorem Sound.alphaThrough (h : Sound c) (htime : time < u64Max) :
    Tracks c ((encodeDcqcnController c).alphaThrough time) (c.alphaThrough time).2 := by
  have hmax : u64Max = 2 ^ 64 - 1 := rfl
  unfold DcqcnController.alphaThrough
  by_cases hidle : c.nextAlphaNs > time ∨ c.nextAlphaNs = u64Max
  · rw [if_pos hidle]
    exact ⟨if_pos hidle, h, rfl, id⟩
  rw [if_neg hidle]
  -- Neither the tick count nor the first alpha leaves its word.
  have hticks : ((time - c.nextAlphaNs) / c.config.alphaIntervalNs + 1) % 2 ^ 64 =
      (time - c.nextAlphaNs) / c.config.alphaIntervalNs + 1 := by
    have := Nat.div_le_self (time - c.nextAlphaNs) c.config.alphaIntervalNs
    exact Nat.mod_eq_of_lt (by omega)
  have hone : dcqcnAlphaOne = 2 ^ 63 := rfl
  have hretained : dcqcnAlphaOne - c.config.gQ63 ≤ dcqcnAlphaOne := Nat.sub_le _ _
  have hfirst : mulShr63 (dcqcnAlphaOne - c.config.gQ63) c.alphaQ63 ≤ dcqcnAlphaOne - c.config.gQ63 := by
    rw [mulShr63_of_le hretained h.alpha]
    exact mul_div_alphaOne_le h.alpha
  have hgain := h.usable.gain
  have hsum : (mulShr63 (dcqcnAlphaOne - c.config.gQ63) c.alphaQ63 + c.config.gQ63) % 2 ^ 64 =
      mulShr63 (dcqcnAlphaOne - c.config.gQ63) c.alphaQ63 + c.config.gQ63 :=
    Nat.mod_eq_of_lt (by omega)
  refine ⟨?_, ?_, rfl, id⟩
  · simp only [DcqcnRow.alphaThrough, encodeDcqcnController, if_neg hidle, hticks, mulShr63Word_eq, hsum,
      decayLoop_eq, gridInstant_eq h.clocks.1, without_alphaPending h.stage_lt,
      stateWord_flags h.stage_lt, Nat.add_comm c.nextAlphaNs]
  · refine { h with clocks := ⟨Nat.min_le_right _ _, h.clocks.2⟩, alpha := ?_ }
    refine decayAlpha_le hretained _ ?_
    split <;> omega

theorem Sound.decreaseCheck (h : Sound c) (htime : time ≤ u64Max) :
    Tracks c ((encodeDcqcnController c).decreaseCheck time) (c.decreaseCheck time) := by
  have hmax : u64Max = 2 ^ 64 - 1 := rfl
  have hcurrent := h.current
  -- `mulHigh` plus the carry of `mulLow` is the host's rounded-up cut, at most the rate.
  have hwords : (mulHigh (encodeDcqcnController c).currentRate (encodeDcqcnController c).alpha +
      if mulLow (encodeDcqcnController c).currentRate (encodeDcqcnController c).alpha ≠ 0 then 1
      else 0) = c.reduction := rfl
  have hreduction : (c.currentRateBps * c.alphaQ63 / 2 ^ 64 +
      if c.currentRateBps * c.alphaQ63 % 2 ^ 64 ≠ 0 then 1 else 0) = c.reduction := rfl
  have hle := DcqcnController.reduction_le h.alpha
  have hcut : (c.currentRateBps + 2 ^ 64 - c.reduction % 2 ^ 64) % 2 ^ 64 =
      c.currentRateBps - c.reduction := by omega
  refine ⟨?_, ?_, rfl, id⟩
  · unfold DcqcnRow.decreaseCheck
    dsimp only
    rw [hwords]
    simp only [DcqcnController.decreaseCheck, encodeDcqcnController, hreduction, hcut,
      saturatingAddWord_eq htime h.intervals.2.1, saturatingAddWord_eq htime h.intervals.2.2,
      without_stage h.stage_lt, stateWord_stage h.stage_lt,
      stepsClamp_flags h.steps, stateWord_set (Nat.two_pow_pos 32)]
  · refine { h with
      current := max_le (by omega) h.rates.1
      target := ?_
      clocks := ⟨h.clocks.1, saturatingAdd_le _ _, saturatingAdd_le _ _⟩
      stage := Nat.zero_le _ }
    change (if _ then _ else _) ≤ _
    split
    · exact h.current
    · exact h.target

theorem Sound.increaseFire (h : Sound c) (htime : time ≤ u64Max) :
    Tracks c ((encodeDcqcnController c).increaseFire time) (c.increaseFire time) := by
  have hmax : u64Max = 2 ^ 64 - 1 := rfl
  have hcurrent := h.current
  have htarget : (if c.stage ≥ c.config.fastRecoverySteps then
        min (saturatingAddWord c.targetRateBps
          (if c.stage = c.config.fastRecoverySteps then c.config.additiveRateBps else c.config.hyperRateBps))
          c.config.maximumRateBps
      else c.targetRateBps) = (c.increaseFire time).targetRateBps := by
    unfold DcqcnController.increaseFire
    rcases Nat.lt_trichotomy c.stage c.config.fastRecoverySteps with hlt | heq | hgt
    · simp [hlt.not_ge, hlt.ne, hlt.not_gt]
    · simp [heq, saturatingAddWord_eq h.target h.rates.2.2.1]
    · simp [hgt, hgt.le, hgt.ne', saturatingAddWord_eq h.target h.rates.2.2.2]
  have hbound : (c.increaseFire time).targetRateBps ≤ u64Max := by
    rw [← htarget]
    split
    · exact (Nat.min_le_right _ _).trans h.rates.2.1
    · exact h.target
  refine ⟨?_, ?_, rfl, id⟩
  · simp only [DcqcnRow.increaseFire, encodeDcqcnController, stateWord_stage h.stage_lt,
      stepsClamp_flags h.steps, saturatingAddWord_eq htime h.intervals.2.2, htarget]
    simp only [DcqcnController.increaseFire]
    by_cases hstage : c.stage ≤ c.config.fastRecoverySteps
    · -- The counter stops one past the recovery steps, so it never carries into the flags.
      have hnext : c.stage + 1 < 2 ^ 32 := by have := h.below; omega
      simp only [if_pos hstage, stateWord_succ h.stage_lt _ _ _ _ hnext]
    · simp only [if_neg hstage]
  · refine { h with
      current := ?_
      target := hbound
      clocks := ⟨h.clocks.1, h.clocks.2.1, saturatingAdd_le _ _⟩
      stage := ?_ }
    · change c.currentRateBps / 2 + (c.increaseFire time).targetRateBps / 2 ≤ _
      omega
    · change (if c.stage ≤ c.config.fastRecoverySteps then c.stage + 1 else c.stage) ≤
        c.config.fastRecoverySteps + 1
      have := h.stage
      split <;> omega

theorem Tracks.trans {row : DcqcnRow} {c' c'' : DcqcnController} (h : Tracks c row c')
    {row' : DcqcnRow} (h' : Tracks c' row' c'') : Tracks c row' c'' :=
  ⟨h'.row, h'.sound, h'.config.trans h.config, fun harmed => h'.armed (h.armed harmed)⟩

/-- The two loops apply the same instants, and their fuel lasts until none is due. -/
theorem Sound.materializeLoop (hbound : bound ≤ u64Max) (fuel : Nat) (h : Sound c)
    (advance : DcqcnAdvance) (hfuel : c.instantsLeft bound < fuel) :
    Tracks c (DcqcnRow.materializeLoop bound fuel (encodeDcqcnController c))
        (c.materializeLoop bound fuel advance).2 ∧
      bound ≤ min (c.materializeLoop bound fuel advance).2.increaseInstant
        (c.materializeLoop bound fuel advance).2.decreaseInstant := by
  -- Induction on the fuel; every instant that fires leaves fewer before the bound.
  induction fuel generalizing c advance with
  | zero => omega
  | succ fuel ih =>
    rw [DcqcnRow.materializeLoop, materializeLoop, increaseDue_encode h,
      decreaseDue_encode h]
    by_cases hdue : min c.increaseInstant c.decreaseInstant ≥ bound
    · rw [if_pos hdue, if_pos hdue]
      exact ⟨⟨rfl, h, rfl, id⟩, hdue⟩
    rw [if_neg hdue, if_neg hdue]
    by_cases hfirst : c.increaseInstant ≤ c.decreaseInstant
    · rw [if_pos hfirst, if_pos hfirst]
      have hless := increaseFire_instantsLeft hbound h.usable.increase (by omega) hfirst
      have hfire := h.increaseFire (show c.increaseInstant ≤ u64Max by omega)
      rw [hfire.row]
      obtain ⟨hrest, hdone⟩ := ih hfire.sound _ (by omega)
      exact ⟨hfire.trans hrest, hdone⟩
    · rw [if_neg hfirst, if_neg hfirst]
      have hless := decreaseCheck_instantsLeft hbound h.usable.increase
        (show c.decreaseInstant < bound by omega) (by omega)
      have halpha := h.alphaThrough (show c.decreaseInstant < u64Max by omega)
      have hcheck := halpha.sound.decreaseCheck (show c.decreaseInstant ≤ u64Max by omega)
      rw [halpha.row, hcheck.row]
      obtain ⟨hrest, hdone⟩ := ih hcheck.sound _ (by omega)
      exact ⟨halpha.trans (hcheck.trans hrest), hdone⟩

section

variable (h : Sound c)

include h

theorem Sound.materialize (hbound : bound ≤ u64Max) :
    Tracks c ((encodeDcqcnController c).materialize bound) (c.materialize bound).2 ∧
      bound ≤ min (c.materialize bound).2.increaseInstant (c.materialize bound).2.decreaseInstant := by
  refine h.materializeLoop hbound _ _ ?_
  unfold instantsLeft
  split <;> omega

theorem Sound.firstDecreaseAtOrAfter (time : Nat) :
    (encodeDcqcnController c).firstDecreaseAtOrAfter time = c.firstDecreaseAtOrAfter time ∧
      c.firstDecreaseAtOrAfter time ≤ u64Max := by
  unfold DcqcnController.firstDecreaseAtOrAfter
  constructor
  · unfold DcqcnRow.firstDecreaseAtOrAfter
    dsimp only
    rw [ceil_eq (show 0 < (encodeDcqcnController c).decreaseInterval from h.usable.decrease)]
    simp only [encodeDcqcnController, gridInstant_eq h.clocks.2.1]
  · dsimp only
    split
    · exact h.clocks.2.1
    · exact Nat.min_le_right _ _

theorem Sound.alphaBefore (hbound : bound ≤ u64Max) (advance : DcqcnAdvance) :
    Tracks c ((encodeDcqcnController c).alphaBefore bound) (alphaBefore bound advance c).2 := by
  cases bound with
  | zero => exact ⟨rfl, h, rfl, id⟩
  | succ last => exact h.alphaThrough (by omega)

/-- Bringing a controller up to date before a feedback or the freeze. -/
theorem Sound.upToDate (hbound : bound ≤ u64Max) :
    Tracks c (((encodeDcqcnController c).materialize bound).alphaBefore bound)
      (DcqcnController.alphaBefore bound (c.materialize bound).1 (c.materialize bound).2).2 := by
  have hloop := (h.materialize hbound).1
  rw [hloop.row]
  exact hloop.trans (hloop.sound.alphaBefore hbound _)

/-! ## §4. Runs. -/

theorem unarmed_iff : (encodeDcqcnController c).state &&& armedBit = 0 ↔ c.armed = false := by
  rw [← Bool.not_eq_true, ← h.flags.1, not_not]

theorem Sound.settle (hbound : bound ≤ u64Max) :
    Tracks c ((encodeDcqcnController c).settle bound) (c.settle bound).2 := by
  unfold DcqcnRow.settle DcqcnController.settle
  cases harmed : c.armed with
  | false =>
    rw [if_pos ((unarmed_iff h).2 harmed)]
    exact ⟨rfl, h, rfl, fun hc => by rw [harmed] at hc; cases hc⟩
  | true =>
    rw [if_neg ((unarmed_iff h).not.2 (by simp [harmed]))]
    have hdate := h.upToDate hbound
    obtain ⟨hgrid, hle⟩ := hdate.sound.firstDecreaseAtOrAfter bound
    rw [← hdate.row] at hgrid
    refine hdate.trans ⟨?_, { hdate.sound with
      clocks := ⟨hdate.sound.clocks.1, hle, hdate.sound.clocks.2.2⟩ }, rfl, id⟩
    dsimp only
    rw [hgrid, hdate.row]
    rfl

theorem Sound.onFeedback {now : Nat} (hnow : now ≤ u64Max) :
    Tracks c ((encodeDcqcnController c).onFeedback now) (c.onFeedback now).2 ∧
      (c.onFeedback now).2.armed = true := by
  unfold DcqcnRow.onFeedback DcqcnController.onFeedback
  cases harmed : c.armed with
  | false =>
    rw [if_pos ((unarmed_iff h).2 harmed)]
    refine ⟨⟨?_, { h with
      alpha := Nat.le_refl _
      clocks := ⟨saturatingAdd_le _ _, saturatingAdd_le _ _, h.clocks.2.2⟩ }, rfl, fun _ => rfl⟩, rfl⟩
    simp only [encodeDcqcnController, without_alphaPending h.stage_lt, stateWord_set h.stage_lt,
      saturatingAddWord_eq hnow h.intervals.1, saturatingAddWord_eq hnow h.intervals.2.1,
      saturatingAddWord_eq (saturatingAdd_le _ _) (show 1 ≤ u64Max by decide)]
    rfl
  | true =>
    rw [if_neg ((unarmed_iff h).not.2 (by simp [harmed]))]
    -- From here only the row and the controller up to date matter.
    have hdate := h.upToDate hnow
    revert hdate
    simp only [Bool.not_true, Bool.false_eq_true, if_false]
    generalize ((encodeDcqcnController c).materialize now).alphaBefore now = row
    generalize (DcqcnController.alphaBefore now (c.materialize now).1 (c.materialize now).2).2 = c'
    intro hdate
    obtain ⟨rfl, hsound, hconfig, hstays⟩ := hdate
    obtain ⟨hgrid, hle⟩ := hsound.firstDecreaseAtOrAfter now
    have hmarked : (encodeDcqcnController c').state ||| alphaPendingBit =
        stateWord c'.stage c'.armed true c'.decreasePending c'.increaseArmed :=
      (stateWord_set hsound.stage_lt _ _ _ _).2.1
    have hpending := (stateWord_flags hsound.stage_lt c'.armed true c'.decreasePending c'.increaseArmed).2.2.1
    rw [hmarked, hgrid]
    cases hdecrease : c'.decreasePending with
    | false =>
      rw [hdecrease] at hpending
      simp only [not_not.1 (hpending.not.2 Bool.false_ne_true), stateWord_set hsound.stage_lt]
      refine ⟨⟨rfl, { hsound with clocks := ⟨hsound.clocks.1, hle, hsound.clocks.2.2⟩ }, hconfig,
        hstays⟩, hstays harmed⟩
    | true =>
      rw [hdecrease] at hpending
      simp only [if_neg (hpending.2 rfl)]
      refine ⟨⟨?_, { hsound with }, hconfig, hstays⟩, hstays harmed⟩
      simp only [encodeDcqcnController, hdecrease]
      rfl

theorem Sound.use (hbound : bound ≤ u64Max) (use : DcqcnUse) :
    Tracks c ((encodeDcqcnController c).use bound use) (c.use bound use) := by
  cases use with
  | feedback => exact (h.onFeedback hbound).1
  | observe => exact (h.materialize hbound).1
  | freeze => exact h.settle hbound

/-- A controller moves at its first feedback. -/
theorem Sound.use_moved (hbound : bound ≤ u64Max) (use : DcqcnUse)
    (hmoved : c.armed = true ∨ c = .pristine c.config) :
    (c.use bound use).armed = true ∨ c.use bound use = .pristine c.config := by
  rcases hmoved with harmed | hpristine
  · exact .inl ((h.use hbound use).armed harmed)
  cases use with
  | feedback => exact .inl (h.onFeedback hbound).2
  | observe =>
    right
    rw [hpristine]
    exact pristine_materialize _ hbound
  | freeze =>
    right
    rw [hpristine]
    rfl

theorem Sound.run (hmoved : c.armed = true ∨ c = .pristine c.config)
    (uses : List (Nat × DcqcnUse)) (hbounds : ∀ use ∈ uses, use.1 ≤ u64Max) :
    Tracks c ((encodeDcqcnController c).run uses) (c.run uses) ∧
      ((c.run uses).armed = true ∨ c.run uses = .pristine c.config) := by
  induction uses generalizing c with
  | nil => exact ⟨⟨rfl, h, rfl, id⟩, hmoved⟩
  | cons use uses ih =>
    have hbound := hbounds use List.mem_cons_self
    have huse := h.use hbound use.2
    have hnext := h.use_moved hbound use.2 hmoved
    rw [← huse.config] at hnext
    obtain ⟨hrest, hlast⟩ := ih huse.sound hnext fun u hu => hbounds u (List.mem_cons_of_mem _ hu)
    rw [← huse.row] at hrest
    rw [huse.config] at hlast
    exact ⟨huse.trans hrest, hlast⟩

end

theorem validateState_eq_ok : c.validateState = .ok () ↔ c.config.validate = .ok () ∧
    c.alphaQ63 ≤ dcqcnAlphaOne ∧ c.stage ≤ c.config.fastRecoverySteps + 1 ∧
    (c.armed = true ∨ c = .pristine c.config) := by
  unfold validateState
  cases hvalid : c.config.validate with
  | error e => simp
  | ok u =>
    by_cases halpha : c.alphaQ63 > dcqcnAlphaOne
    · simp [halpha]
    by_cases hstage : c.stage > c.config.fastRecoverySteps + 1
    · simp [halpha, hstage]
    rw [if_neg halpha, if_neg hstage]
    by_cases hstill : !c.armed ∧ c ≠ .pristine c.config
    · rw [if_pos hstill]
      refine iff_of_false (by simp) ?_
      rintro ⟨-, -, -, harmed | hpristine⟩
      · simp [harmed] at hstill
      · exact hstill.2 hpristine
    · rw [if_neg hstill]
      refine iff_of_true rfl ⟨rfl, not_lt.1 halpha, not_lt.1 hstage, ?_⟩
      cases harmed : c.armed with
      | true => exact .inl rfl
      | false => exact .inr (not_not.1 fun hne => hstill ⟨by simp [harmed], hne⟩)

theorem Words.sound (h : Words c) (hvalid : c.validateState = .ok ()) : Sound c := by
  obtain ⟨hconfig, halpha, hstage, -⟩ := validateState_eq_ok.1 hvalid
  have hw := width_eq
  refine { h with
    usable := DcqcnControllerConfig.usable_of_validate hconfig (by have := h.rates.2.1; omega)
    below := ?_
    alpha := halpha
    stage := hstage }
  have hsteps := h.steps
  have hne : c.config.fastRecoverySteps ≠ width 32 - 1 := by
    intro heq
    unfold DcqcnControllerConfig.validate at hconfig
    rw [if_pos heq] at hconfig
    repeat' split at hconfig
    all_goals cases hconfig
  have hw' : width 32 = 2 ^ 32 := rfl
  omega

theorem Sound.state (h : Sound c) :
    (encodeDcqcnController c).state < 2 ^ 36 ∧ (encodeDcqcnController c).state % 2 ^ 32 = c.stage := by
  have hsmall : ∀ a p d i : Bool, nibble a p d i < 16 := by decide
  have hnibble := hsmall c.armed c.alphaPending c.decreasePending c.increaseArmed
  have hstage := h.stage_lt
  have heq : (encodeDcqcnController c).state = pack _ _ := stateWord_eq h.stage_lt _ _ _ _
  rw [heq]
  unfold pack
  omega

theorem Sound.decode (h : Sound c) (hvalid : c.validateState = .ok ()) {base : DcqcnController}
    (hbase : c.config = base.config) : decodeDcqcnController (encodeDcqcnController c) base = .ok c := by
  obtain ⟨hlt, hstage⟩ := h.state
  have hflag {word : Nat} {flag : Bool} (hword : word ≠ 0 ↔ flag = true) : (word != 0) = flag :=
    Bool.eq_iff_iff.2 (bne_iff_ne.trans hword)
  obtain ⟨h1, h2, h4, h8⟩ := h.flags
  unfold decodeDcqcnController
  rw [if_neg (by omega), hstage, hflag h1, hflag h2, hflag h4, hflag h8, ← hbase]
  change (do c.validateState; return c) = _
  rw [hvalid]
  rfl

/-- Running the kernel on the encoded row and decoding gives the host's controller, after any uses of
    a valid one; the stage stays in the low half, no bit is set above the flags, and the kernel's loop
    ends with nothing due. -/
theorem device_dcqcn_refines (c : DcqcnController) (hwords : Words c) (hvalid : c.validateState = .ok ())
    (uses : List (Nat × DcqcnUse)) (hbounds : ∀ use ∈ uses, use.1 ≤ u64Max) :
    let row := (encodeDcqcnController c).run uses
    decodeDcqcnController row c = .ok (c.run uses) ∧ row = encodeDcqcnController (c.run uses) ∧
      row.state % 2 ^ 32 = (c.run uses).stage ∧ row.state < 2 ^ 36 ∧
      ∀ bound ≤ u64Max,
        bound ≤ min (row.materialize bound).increaseDue (row.materialize bound).decreaseDue := by
  intro row
  have hsound := hwords.sound hvalid
  obtain ⟨hconfig, -, -, hmoved⟩ := validateState_eq_ok.1 hvalid
  obtain ⟨htracks, hlast⟩ := hsound.run hmoved uses hbounds
  have hend := htracks.sound
  rw [← htracks.config] at hconfig hlast
  have hstate : (c.run uses).validateState = .ok () :=
    validateState_eq_ok.2 ⟨hconfig, hend.alpha, hend.stage, hlast⟩
  have hrow : row = encodeDcqcnController (c.run uses) := htracks.row
  rw [hrow]
  refine ⟨hend.decode hstate htracks.config, rfl, hend.state.2, hend.state.1, fun bound hbound => ?_⟩
  obtain ⟨hloop, hdone⟩ := hend.materialize hbound
  rw [hloop.row, increaseDue_encode hloop.sound, decreaseDue_encode hloop.sound]
  exact hdone

theorem device_dcqcn_refines_sample :
    let c := DcqcnController.pristine sampleDcqcnConfig
    let uses := [(3, .feedback), (15, .observe), (21, .feedback)]
    decodeDcqcnController ((encodeDcqcnController c).run uses) c = .ok (c.run uses) :=
  (device_dcqcn_refines (.pristine sampleDcqcnConfig)
    ⟨by decide, by decide, by decide, by decide, by decide, by decide⟩ rfl
    [(3, .feedback), (15, .observe), (21, .feedback)] (by decide)).1

end Days.Device
