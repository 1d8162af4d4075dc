/-
  Days.Logic.DcqcnRange — the range of a DCQCN controller over every run.

  The operations of `dcqcn.rs` are stated once more with every subtraction checked and
  with the loop of `materialize` failing when it runs out of fuel; `dcqcn_controller_range`
  shows that from a valid pristine controller they never fail, and that alpha, the rates
  and the stage stay in range.
-/
import Days.Logic.DcqcnLazy

namespace Days

open Option Bool DcqcnController

variable {boundNs : Nat}

/-! ## §1. The operations with checked subtractions. -/

namespace DcqcnController

def alphaThroughChecked (c : DcqcnController) (timeNs : Nat) : Option (Nat × DcqcnController) :=
  if c.nextAlphaNs > timeNs ∨ c.nextAlphaNs = u64Max then some (0, c)
  else do
    let interval := c.config.alphaIntervalNs
    let elapsed ← checkedSub timeNs c.nextAlphaNs
    let ticks := elapsed / interval + 1
    let retained ← checkedSub dcqcnAlphaOne c.config.gQ63
    let alpha := mulShr63 retained c.alphaQ63
    let alpha := if c.alphaPending then alpha + c.config.gQ63 else alpha
    let remaining ← checkedSub ticks 1
    let advanced := ticks * interval + c.nextAlphaNs
    some (ticks,
      { c with
        alphaPending := false
        alphaQ63 := decayAlpha retained remaining alpha
        nextAlphaNs := min advanced u64Max })

/-- What a cut takes from the rate: half of `rate * alpha`, rounded up. -/
def reduction (c : DcqcnController) : Nat :=
  c.currentRateBps * c.alphaQ63 / 2 ^ 64 +
    (if c.currentRateBps * c.alphaQ63 % 2 ^ 64 ≠ 0 then 1 else 0)

def decreaseCheckChecked (c : DcqcnController) (timeNs : Nat) : Option DcqcnController := do
  let rate ← checkedSub c.currentRateBps c.reduction
  some
    { c with
      nextDecreaseNs := saturatingAdd 64 timeNs c.config.decreaseIntervalNs
      targetRateBps :=
        if c.config.clampTargetRate ∨ c.stage ≠ 0 then c.currentRateBps else c.targetRateBps
      currentRateBps := max rate c.config.minimumRateBps
      stage := 0
      decreasePending := false
      increaseArmed := true
      nextIncreaseNs := saturatingAdd 64 timeNs c.config.increaseIntervalNs }

def materializeLoopChecked (boundNs : Nat) : Nat → DcqcnAdvance → DcqcnController →
    Option (DcqcnAdvance × DcqcnController)
  | 0, _, _ => none
  | fuel + 1, advance, c =>
    let increase := c.increaseInstant
    let decrease := c.decreaseInstant
    if min increase decrease ≥ boundNs then some (advance, c)
    else if increase ≤ decrease then
      materializeLoopChecked boundNs fuel
        { advance with increaseFires := advance.increaseFires + 1 } (c.increaseFire increase)
    else do
      let (ticks, c) ← c.alphaThroughChecked decrease
      let c ← c.decreaseCheckChecked decrease
      materializeLoopChecked boundNs fuel
        { advance with
          alphaTicks := advance.alphaTicks + ticks
          decreaseCuts := advance.decreaseCuts + 1 } c

def firstDecreaseAtOrAfterChecked (c : DcqcnController) (timeNs : Nat) : Option Nat :=
  let anchor := c.nextDecreaseNs
  if anchor ≥ timeNs ∨ anchor = u64Max then some anchor
  else do
    let interval := c.config.decreaseIntervalNs
    let elapsed ← checkedSub timeNs anchor
    some (min (anchor + (elapsed + interval - 1) / interval * interval) u64Max)

def alphaBeforeChecked (boundNs : Nat) (c : DcqcnController) : Option DcqcnController :=
  match checkedSub boundNs 1 with
  | some last => (c.alphaThroughChecked last).map (·.2)
  | none => some c

/-- One call with every subtraction checked. -/
def useChecked (c : DcqcnController) (boundNs : Nat) : DcqcnUse → Option DcqcnController
  | .observe => (materializeLoopChecked boundNs (boundNs + 2) .none c).map (·.2)
  | .feedback =>
    if !c.armed then some (c.onFeedback boundNs).2
    else do
      let (_, c) ← materializeLoopChecked boundNs (boundNs + 2) .none c
      let c ← alphaBeforeChecked boundNs c
      let c := { c with alphaPending := true }
      if !c.decreasePending then do
        let nextDecreaseNs ← c.firstDecreaseAtOrAfterChecked boundNs
        some { c with decreasePending := true, nextDecreaseNs }
      else some c
  | .freeze =>
    if !c.armed then some c
    else do
      let (_, c) ← materializeLoopChecked boundNs (boundNs + 2) .none c
      let c ← alphaBeforeChecked boundNs c
      let nextDecreaseNs ← c.firstDecreaseAtOrAfterChecked boundNs
      some { c with nextDecreaseNs }

end DcqcnController

/-! ## §2. The range. -/

theorem DcqcnControllerConfig.rates_of_validate {config : DcqcnControllerConfig}
    (h : config.validate = .ok ()) :
    3 ≤ config.minimumRateBps ∧ config.minimumRateBps ≤ config.initialRateBps ∧
      config.initialRateBps ≤ config.maximumRateBps := by
  unfold validate at h
  split at h
  · cases h
  split at h
  · cases h
  · omega

namespace DcqcnController

/-- Alpha in `[0, 1]`, both rates between an even rate up to the minimum and the maximum, the
stage saturated. -/
structure InRange (low : Nat) (config : DcqcnControllerConfig) (c : DcqcnController) : Prop where
  same : c.config = config
  alpha : c.alphaQ63 ≤ dcqcnAlphaOne
  current : low ≤ c.currentRateBps ∧ c.currentRateBps ≤ config.maximumRateBps
  target : low ≤ c.targetRateBps ∧ c.targetRateBps ≤ config.maximumRateBps
  stage : c.stage ≤ config.fastRecoverySteps + 1
  floor : low % 2 = 0 ∧ low ≤ config.minimumRateBps

theorem rateFloor_even_le (minimum : Nat) :
    dcqcnRateFloorBps minimum % 2 = 0 ∧ dcqcnRateFloorBps minimum ≤ minimum := by
  unfold dcqcnRateFloorBps
  omega

variable {low : Nat} {config : DcqcnControllerConfig} {c : DcqcnController} (hconfig : config.Usable)
  (hrates : config.minimumRateBps ≤ config.maximumRateBps) (hbound : boundNs ≤ u64Max)

/-- A cut takes at most half of the rate, rounded up. -/
theorem reduction_le (halpha : c.alphaQ63 ≤ dcqcnAlphaOne) : c.reduction ≤ c.currentRateBps := by
  have hone : dcqcnAlphaOne = 2 ^ 63 := rfl
  have hprod : c.currentRateBps * c.alphaQ63 ≤ c.currentRateBps * 2 ^ 63 :=
    Nat.mul_le_mul_left _ (hone ▸ halpha)
  unfold reduction
  generalize c.currentRateBps * c.alphaQ63 = product at *
  split <;> omega

theorem InRange.alphaThrough (h : InRange low config c) (hgain : config.gQ63 ≤ dcqcnAlphaOne)
    (timeNs : Nat) : InRange low config (c.alphaThrough timeNs).2 := by
  have halpha : (c.alphaThrough timeNs).2.alphaQ63 ≤ dcqcnAlphaOne := by
    unfold DcqcnController.alphaThrough
    split
    · exact h.alpha
    · exact alphaAfter_le (h.same ▸ hgain) h.alpha
        ((timeNs - c.nextAlphaNs) / c.config.alphaIntervalNs + 1)
  obtain ⟨hconfig, -, hcurrent, htarget, hstage, hfloor⟩ := h
  unfold DcqcnController.alphaThrough at halpha ⊢
  split at halpha
  · next hnone =>
    rw [if_pos hnone]
    exact ⟨hconfig, halpha, hcurrent, htarget, hstage, hfloor⟩
  · next hsome =>
    rw [if_neg hsome]
    exact ⟨hconfig, halpha, hcurrent, htarget, hstage, hfloor⟩

include hrates in
theorem InRange.decreaseCheck (h : InRange low config c) (timeNs : Nat) :
    InRange low config (c.decreaseCheck timeNs) := by
  obtain ⟨hconfig, halpha, hcurrent, htarget, hstage, hfloor⟩ := h
  unfold DcqcnController.decreaseCheck
  refine ⟨hconfig, halpha, ?_, ?_, Nat.zero_le _, hfloor⟩
  · rw [hconfig]
    exact ⟨hfloor.2.trans (Nat.le_max_right _ _),
      Nat.max_le.2 ⟨(Nat.sub_le _ _).trans hcurrent.2, hrates⟩⟩
  · dsimp only
    split
    · exact hcurrent
    · exact htarget

/-- The truncating average of two rates above an even rate stays above it. -/
theorem average_range {low maximum a b : Nat} (heven : low % 2 = 0) (ha : low ≤ a ∧ a ≤ maximum)
    (hb : low ≤ b ∧ b ≤ maximum) : low ≤ a / 2 + b / 2 ∧ a / 2 + b / 2 ≤ maximum := by
  omega

include hrates in
theorem InRange.increaseFire (h : InRange low config c)
    (hmaximum : config.maximumRateBps ≤ u64Max) (timeNs : Nat) :
    InRange low config (c.increaseFire timeNs) := by
  obtain ⟨hconfig, halpha, hcurrent, htarget, hstage, hfloor⟩ := h
  have hraised (step : Nat) : low ≤
        min (saturatingAdd 64 c.targetRateBps step) config.maximumRateBps ∧
      min (saturatingAdd 64 c.targetRateBps step) config.maximumRateBps ≤
        config.maximumRateBps := by
    refine ⟨le_min (htarget.1.trans (le_min (Nat.le_add_right _ _) (htarget.2.trans hmaximum))) ?_,
      min_le_right _ _⟩
    exact hfloor.2.trans hrates
  have hnext : low ≤ (c.increaseFire timeNs).targetRateBps ∧
      (c.increaseFire timeNs).targetRateBps ≤ config.maximumRateBps := by
    unfold DcqcnController.increaseFire
    dsimp only
    rw [hconfig]
    split
    · exact hraised _
    · split
      · exact hraised _
      · exact htarget
  refine ⟨hconfig, halpha, average_range hfloor.1 hcurrent hnext, hnext, ?_, hfloor⟩
  unfold DcqcnController.increaseFire
  dsimp only
  rw [hconfig]
  split <;> omega

theorem inRange_pristine (hvalid : config.validate = .ok ()) :
    InRange (dcqcnRateFloorBps config.minimumRateBps) config (pristine config) := by
  obtain ⟨-, hlow, hhigh⟩ := DcqcnControllerConfig.rates_of_validate hvalid
  have hfloor := rateFloor_even_le config.minimumRateBps
  have hinitial : dcqcnRateFloorBps config.minimumRateBps ≤ config.initialRateBps ∧
      config.initialRateBps ≤ config.maximumRateBps := ⟨hfloor.2.trans hlow, hhigh⟩
  exact ⟨rfl, Nat.le_refl _, hinitial, hinitial, Nat.zero_le _, hfloor⟩

/-! ## §3. The checked operations answer. -/

theorem checkedSub_of_le {a b : Nat} (h : b ≤ a) : checkedSub a b = some (a - b) := if_pos h

theorem alphaThroughChecked_eq (hgain : c.config.gQ63 ≤ dcqcnAlphaOne) (timeNs : Nat) :
    c.alphaThroughChecked timeNs = some (c.alphaThrough timeNs) := by
  unfold alphaThroughChecked alphaThrough
  split
  · rfl
  · next hdue =>
    have hguard : c.nextAlphaNs ≤ timeNs := by omega
    simp only [checkedSub_of_le hguard, checkedSub_of_le hgain,
      checkedSub_of_le (Nat.le_add_left 1 _), bind_eq_bind, bind_some]

theorem decreaseCheckChecked_eq (halpha : c.alphaQ63 ≤ dcqcnAlphaOne) (timeNs : Nat) :
    c.decreaseCheckChecked timeNs = some (c.decreaseCheck timeNs) := by
  unfold decreaseCheckChecked
  simp only [checkedSub_of_le (reduction_le halpha), bind_eq_bind, bind_some]
  rfl

theorem firstDecreaseAtOrAfterChecked_eq (timeNs : Nat) :
    c.firstDecreaseAtOrAfterChecked timeNs = some (c.firstDecreaseAtOrAfter timeNs) := by
  unfold firstDecreaseAtOrAfterChecked firstDecreaseAtOrAfter
  dsimp only
  split
  · rfl
  · next hdue =>
    have hguard : c.nextDecreaseNs ≤ timeNs := by omega
    simp only [checkedSub_of_le hguard, bind_eq_bind, bind_some]

theorem alphaBeforeChecked_eq (hgain : c.config.gQ63 ≤ dcqcnAlphaOne) (boundNs : Nat)
    (advance : DcqcnAdvance) :
    alphaBeforeChecked boundNs c = some (alphaBefore boundNs advance c).2 := by
  unfold alphaBeforeChecked alphaBefore
  cases checkedSub boundNs 1 with
  | some last => simp only [alphaThroughChecked_eq hgain, map_some]
  | none => rfl

/-- The earliest instant at which an increase can still fire. -/
def nextIncrease (c : DcqcnController) : Nat :=
  if c.decreasePending then min c.increaseInstant (c.decreaseInstant + 1) else c.increaseInstant

/-- The instants the loop can still apply before the bound: a pending cut and one
increase a nanosecond. -/
def instantsLeft (boundNs : Nat) (c : DcqcnController) : Nat :=
  boundNs - c.nextIncrease + (if c.decreasePending then 1 else 0)

theorem increaseFire_instantsLeft (hbound : boundNs ≤ u64Max)
    (hinterval : 0 < c.config.increaseIntervalNs) (hdue : c.increaseInstant < boundNs)
    (hfirst : c.increaseInstant ≤ c.decreaseInstant) :
    instantsLeft boundNs (c.increaseFire c.increaseInstant) < instantsLeft boundNs c := by
  have harmed : c.increaseArmed = true := by
    by_contra hnot
    rw [not_eq_true] at hnot
    simp only [increaseInstant, hnot, false_eq_true, if_false] at hdue
    omega
  have hnext : (c.increaseFire c.increaseInstant).increaseInstant =
      saturatingAdd 64 c.increaseInstant c.config.increaseIntervalNs := by
    unfold increaseFire
    simp only [increaseInstant, harmed, if_true]
  have hlater : c.increaseInstant + 1 ≤ saturatingAdd 64 c.increaseInstant
      c.config.increaseIntervalNs := le_min (by omega) (show _ ≤ u64Max by omega)
  have hpending : (c.increaseFire c.increaseInstant).decreasePending = c.decreasePending := rfl
  have hdecrease : (c.increaseFire c.increaseInstant).decreaseInstant = c.decreaseInstant := rfl
  unfold instantsLeft nextIncrease
  rw [hnext, hpending, hdecrease]
  split <;> omega

theorem decreaseCheck_instantsLeft (hbound : boundNs ≤ u64Max)
    (hinterval : 0 < c.config.increaseIntervalNs) (hdue : c.decreaseInstant < boundNs)
    (hfirst : c.decreaseInstant < c.increaseInstant) :
    instantsLeft boundNs (((c.alphaThrough c.decreaseInstant).2).decreaseCheck c.decreaseInstant) <
      instantsLeft boundNs c := by
  have hpending : c.decreasePending = true := by
    by_contra hnot
    rw [not_eq_true] at hnot
    simp only [decreaseInstant, hnot, false_eq_true, if_false] at hdue
    omega
  have hconfig : (c.alphaThrough c.decreaseInstant).2.config = c.config := by
    unfold alphaThrough
    split <;> rfl
  have hlater : c.decreaseInstant + 1 ≤ saturatingAdd 64 c.decreaseInstant
      c.config.increaseIntervalNs := le_min (by omega) (show _ ≤ u64Max by omega)
  have hafter : instantsLeft boundNs
        (((c.alphaThrough c.decreaseInstant).2).decreaseCheck c.decreaseInstant) =
      boundNs - saturatingAdd 64 c.decreaseInstant c.config.increaseIntervalNs := by
    unfold instantsLeft nextIncrease decreaseCheck increaseInstant
    simp only [hconfig, false_eq_true, if_false, if_true, Nat.add_zero]
  rw [hafter]
  unfold instantsLeft nextIncrease
  rw [if_pos hpending, if_pos hpending]
  omega

include hconfig hrates hbound in
/-- The loop ends within its fuel, with every subtraction in range, in the range. -/
theorem InRange.materializeLoop
    (fuel : Nat) (advance : DcqcnAdvance) (h : InRange low config c)
    (hfuel : instantsLeft boundNs c < fuel) :
    materializeLoopChecked boundNs fuel advance c =
        some (materializeLoop boundNs fuel advance c) ∧
      InRange low config (materializeLoop boundNs fuel advance c).2 := by
  induction fuel generalizing c advance with
  | zero => omega
  | succ fuel ih =>
    unfold materializeLoopChecked materializeLoop
    by_cases hdone : min c.increaseInstant c.decreaseInstant ≥ boundNs
    · rw [if_pos hdone, if_pos hdone]
      exact ⟨rfl, h⟩
    · rw [if_neg hdone, if_neg hdone]
      have hinterval : 0 < c.config.increaseIntervalNs := h.same ▸ hconfig.increase
      by_cases hfirst : c.increaseInstant ≤ c.decreaseInstant
      · rw [if_pos hfirst, if_pos hfirst]
        have hless := increaseFire_instantsLeft hbound hinterval (by omega) hfirst
        exact ih _ (h.increaseFire hrates hconfig.maximum _) (by omega)
      · rw [if_neg hfirst, if_neg hfirst]
        have hless := decreaseCheck_instantsLeft (c := c) hbound hinterval (by omega) (by omega)
        have halpha := h.alphaThrough hconfig.gain c.decreaseInstant
        simp only [alphaThroughChecked_eq (h.same ▸ hconfig.gain), bind_eq_bind,
          bind_some, decreaseCheckChecked_eq halpha.alpha]
        exact ih _ (halpha.decreaseCheck hrates _) (by omega)

include hconfig hrates hbound in
theorem InRange.materialize (h : InRange low config c) :
    materializeLoopChecked boundNs (boundNs + 2) .none c = some (c.materialize boundNs) ∧
      InRange low config (c.materialize boundNs).2 := by
  refine h.materializeLoop hconfig hrates hbound (boundNs + 2) .none ?_
  unfold instantsLeft
  split <;> omega

theorem InRange.alphaBefore (h : InRange low config c) (hgain : config.gQ63 ≤ dcqcnAlphaOne)
    (boundNs : Nat) (advance : DcqcnAdvance) :
    InRange low config (alphaBefore boundNs advance c).2 := by
  unfold DcqcnController.alphaBefore
  split
  · exact h.alphaThrough hgain _
  · exact h

/-- Clocks and flags are outside the range. -/
theorem InRange.of_clocks {c' : DcqcnController} (h : InRange low config c)
    (hconfig : c'.config = c.config) (halpha : c'.alphaQ63 = c.alphaQ63)
    (hcurrent : c'.currentRateBps = c.currentRateBps) (htarget : c'.targetRateBps = c.targetRateBps)
    (hstage : c'.stage = c.stage) : InRange low config c' := by
  obtain ⟨h1, h2, h3, h4, h5, hfloor⟩ := h
  exact ⟨hconfig.trans h1, halpha ▸ h2, hcurrent ▸ h3, htarget ▸ h4, hstage ▸ h5, hfloor⟩

include hconfig hrates hbound in
/-- One call answers and keeps the range. -/
theorem InRange.use (h : InRange low config c) (use : DcqcnUse) :
    c.useChecked boundNs use = some (c.use boundNs use) ∧ InRange low config (c.use boundNs use) := by
  obtain ⟨hloop, hrange⟩ := h.materialize hconfig hrates hbound
  have hbefore := hrange.alphaBefore hconfig.gain boundNs (c.materialize boundNs).1
  have hchecked := alphaBeforeChecked_eq (c := (c.materialize boundNs).2)
    (hrange.same ▸ hconfig.gain) boundNs (c.materialize boundNs).1
  cases use with
  | observe =>
    simp only [useChecked, DcqcnController.use, hloop, Option.map_some]
    exact ⟨trivial, hrange⟩
  | feedback =>
    cases harmed : c.armed with
    | false =>
      simp only [useChecked, DcqcnController.use, harmed, Bool.not_false, if_true, onFeedback]
      exact ⟨trivial, h.same, Nat.le_refl _, h.current, h.target, h.stage, h.floor⟩
    | true =>
      simp only [useChecked, DcqcnController.use, harmed, Bool.not_true, Bool.false_eq_true, if_false,
        onFeedback, hloop, hchecked, Option.bind_eq_bind, Option.bind_some,
        firstDecreaseAtOrAfterChecked_eq]
      generalize (DcqcnController.alphaBefore boundNs (c.materialize boundNs).1
        (c.materialize boundNs).2).2 = settled at *
      cases settled.decreasePending with
      | false | true => exact ⟨rfl, hbefore.of_clocks rfl rfl rfl rfl rfl⟩
  | freeze =>
    cases harmed : c.armed with
    | false =>
      simp only [useChecked, DcqcnController.use, harmed, Bool.not_false, if_true, settle]
      exact ⟨trivial, h⟩
    | true =>
      simp only [useChecked, DcqcnController.use, harmed, Bool.not_true, Bool.false_eq_true, if_false,
        settle, hloop, hchecked, Option.bind_eq_bind, Option.bind_some,
        firstDecreaseAtOrAfterChecked_eq]
      exact ⟨trivial, hbefore.of_clocks rfl rfl rfl rfl rfl⟩

include hconfig hrates in
theorem InRange.run (uses : List (Nat × DcqcnUse))
    (hbounds : ∀ use ∈ uses, use.1 ≤ u64Max) (h : InRange low config c) :
    InRange low config (c.run uses) := by
  induction uses generalizing c with
  | nil => exact h
  | cons use uses ih =>
    refine ih (fun u hu => hbounds u (List.mem_cons_of_mem _ hu)) ?_
    exact (h.use hconfig hrates (hbounds use List.mem_cons_self) use.2).2

end DcqcnController

/-! ## §4. Every run. -/

/-- After any calls from a valid pristine controller alpha lies in `[0, 1]`, both rates between
`2 * ((minimum - 1) / 2)` and the maximum, the stage is at most one past fast recovery, and the
next call ends with no subtraction below zero. -/
theorem dcqcn_controller_range (config : DcqcnControllerConfig) (hvalid : config.validate = .ok ())
    (hmaximum : config.maximumRateBps < width 64) (uses : List (Nat × DcqcnUse))
    (hbounds : ∀ use ∈ uses, use.1 ≤ u64Max) :
    let c := (DcqcnController.pristine config).run uses
    c.alphaQ63 ≤ dcqcnAlphaOne ∧
    (2 * ((config.minimumRateBps - 1) / 2) ≤ c.currentRateBps ∧
      c.currentRateBps ≤ config.maximumRateBps) ∧
    (2 * ((config.minimumRateBps - 1) / 2) ≤ c.targetRateBps ∧
      c.targetRateBps ≤ config.maximumRateBps) ∧
    c.stage ≤ config.fastRecoverySteps + 1 ∧
    ∀ boundNs ≤ u64Max, ∀ use, c.useChecked boundNs use = some (c.use boundNs use) := by
  intro c
  have hconfig := DcqcnControllerConfig.usable_of_validate hvalid hmaximum
  obtain ⟨-, hlow, hhigh⟩ := DcqcnControllerConfig.rates_of_validate hvalid
  have hrates := hlow.trans hhigh
  have hrange : c.InRange (dcqcnRateFloorBps config.minimumRateBps) config :=
    (inRange_pristine hvalid).run hconfig hrates uses hbounds
  exact ⟨hrange.alpha, hrange.current, hrange.target, hrange.stage,
    fun boundNs hbound use => (hrange.use hconfig hrates hbound use).1⟩

theorem dcqcn_controller_range_sample :
    let c := (DcqcnController.pristine sampleDcqcnConfig).run
      [(3, .feedback), (15, .observe), (21, .feedback)]
    c.useChecked 40 .freeze = some (c.use 40 .freeze) :=
  (dcqcn_controller_range sampleDcqcnConfig rfl (by decide)
    [(3, .feedback), (15, .observe), (21, .feedback)] (by decide)).2.2.2.2 40 (by decide) .freeze

end Days
