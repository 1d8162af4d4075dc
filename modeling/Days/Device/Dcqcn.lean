/-
  Days.Device.Dcqcn — the DCQCN controller in a generator row.

  The row's controller words with their encoding (`device_mechanism.rs`) and the
  kernel's transitions over them.  Words are 64 bits: what the kernel computes
  beyond that is reduced here too.
-/
import Days.Transport.DcqcnEager

namespace Days

deriving instance DecidableEq for DcqcnControllerConfig, DcqcnController

/-- `DcqcnController::validate_state`. -/
def DcqcnController.validateState (c : DcqcnController) : Except String Unit :=
  match c.config.validate with
  | .error _ => .error "has an invalid DCQCN configuration"
  | .ok _ =>
    if c.alphaQ63 > dcqcnAlphaOne then .error "has a DCQCN alpha above one"
    else if c.stage > c.config.fastRecoverySteps + 1 then
      .error "has a DCQCN stage above fast_recovery_times + 1"
    else if !c.armed ∧ c ≠ .pristine c.config then
      .error "has a DCQCN controller that moved before its first feedback"
    else .ok ()

namespace Device

/-! ## §1. Words. -/

def stageMask : Nat := 2 ^ 32 - 1

def clampBit : Nat := 2 ^ 32

def armedBit : Nat := 2 ^ 32

def alphaPendingBit : Nat := 2 ^ 33

def decreasePendingBit : Nat := 2 ^ 34

def increaseArmedBit : Nat := 2 ^ 35

/-- `word & ~bits`. -/
def without (word bits : Nat) : Nat := word &&& (u64Max ^^^ bits)

/-- `__umul64hi`. -/
def mulHigh (a b : Nat) : Nat := a * b / 2 ^ 64

def mulLow (a b : Nat) : Nat := a * b % 2 ^ 64

/-- `saturating_add_u64`. -/
def saturatingAddWord (left right : Nat) : Nat :=
  let result := (left + right) % 2 ^ 64
  if result < left then u64Max else result

/-- `dcqcn_mul_shr63`. -/
def mulShr63Word (a b : Nat) : Nat := mulHigh a b * 2 % 2 ^ 64 ||| mulLow a b / 2 ^ 63

/-- `anchor + steps * interval`, or the end of time. -/
def gridInstant (anchor steps interval : Nat) : Nat :=
  let offset := mulLow steps interval
  if mulHigh steps interval ≠ 0 ∨ offset > u64Max - anchor then u64Max else anchor + offset

/-! ## §2. The row. -/

/-- The words `G_DCQCN_*`. -/
structure DcqcnRow where
  minRate : Nat
  maxRate : Nat
  additiveRate : Nat
  hyperRate : Nat
  g : Nat
  alphaInterval : Nat
  decreaseInterval : Nat
  increaseInterval : Nat
  stepsClamp : Nat
  alpha : Nat
  currentRate : Nat
  targetRate : Nat
  nextAlpha : Nat
  nextDecrease : Nat
  nextIncrease : Nat
  state : Nat

def flagBit (flag : Bool) (bit : Nat) : Nat := if flag then bit else 0

def stateWord (stage : Nat) (armed alphaPending decreasePending increaseArmed : Bool) : Nat :=
  stage ||| flagBit armed armedBit ||| flagBit alphaPending alphaPendingBit |||
    flagBit decreasePending decreasePendingBit ||| flagBit increaseArmed increaseArmedBit

/-- `encode_dcqcn_controller`. -/
def encodeDcqcnController (c : DcqcnController) : DcqcnRow where
  minRate := c.config.minimumRateBps
  maxRate := c.config.maximumRateBps
  additiveRate := c.config.additiveRateBps
  hyperRate := c.config.hyperRateBps
  g := c.config.gQ63
  alphaInterval := c.config.alphaIntervalNs
  decreaseInterval := c.config.decreaseIntervalNs
  increaseInterval := c.config.increaseIntervalNs
  stepsClamp := c.config.fastRecoverySteps ||| flagBit c.config.clampTargetRate clampBit
  alpha := c.alphaQ63
  currentRate := c.currentRateBps
  targetRate := c.targetRateBps
  nextAlpha := c.nextAlphaNs
  nextDecrease := c.nextDecreaseNs
  nextIncrease := c.nextIncreaseNs
  state := stateWord c.stage c.armed c.alphaPending c.decreasePending c.increaseArmed

/-- `decode_dcqcn_controller`. -/
def decodeDcqcnController (row : DcqcnRow) (controller : DcqcnController) :
    Except String DcqcnController :=
  if row.state / 2 ^ 36 ≠ 0 then
    .error "DCQCN generator row carries unknown controller state bits"
  else do
    let controller := { controller with
      alphaQ63 := row.alpha
      currentRateBps := row.currentRate
      targetRateBps := row.targetRate
      nextAlphaNs := row.nextAlpha
      nextDecreaseNs := row.nextDecrease
      nextIncreaseNs := row.nextIncrease
      stage := row.state % 2 ^ 32
      armed := row.state &&& armedBit != 0
      alphaPending := row.state &&& alphaPendingBit != 0
      decreasePending := row.state &&& decreasePendingBit != 0
      increaseArmed := row.state &&& increaseArmedBit != 0 }
    controller.validateState
    return controller

/-! ## §3. The kernel. -/

namespace DcqcnRow

variable (row : DcqcnRow)

/-- `dcqcn_increase_due`. -/
def increaseDue : Nat := if row.state &&& increaseArmedBit ≠ 0 then row.nextIncrease else u64Max

/-- `dcqcn_decrease_due`. -/
def decreaseDue : Nat := if row.state &&& decreasePendingBit ≠ 0 then row.nextDecrease else u64Max

/-- The loop of `dcqcn_alpha_through`. -/
def decayLoop (retained : Nat) : Nat → Nat → Nat
  | 0, alpha => alpha
  | remaining + 1, alpha =>
    if alpha ≠ 0 then decayLoop retained remaining (mulShr63Word retained alpha) else alpha

/-- `dcqcn_alpha_through`. -/
def alphaThrough (time : Nat) : DcqcnRow :=
  let next := row.nextAlpha
  if next > time ∨ next = u64Max then row
  else
    let ticks := ((time - next) / row.alphaInterval + 1) % 2 ^ 64
    let retained := dcqcnAlphaOne - row.g
    let alpha := mulShr63Word retained row.alpha
    let alpha := if row.state &&& alphaPendingBit ≠ 0 then (alpha + row.g) % 2 ^ 64 else alpha
    { row with
      state := without row.state alphaPendingBit
      alpha := decayLoop retained (ticks - 1) alpha
      nextAlpha := gridInstant next ticks row.alphaInterval }

/-- `dcqcn_decrease_check`. -/
def decreaseCheck (time : Nat) : DcqcnRow :=
  let current := row.currentRate
  let reduction :=
    (mulHigh current row.alpha + if mulLow current row.alpha ≠ 0 then 1 else 0) % 2 ^ 64
  { row with
    nextDecrease := saturatingAddWord time row.decreaseInterval
    targetRate :=
      if row.stepsClamp &&& clampBit ≠ 0 ∨ row.state &&& stageMask ≠ 0 then current
      else row.targetRate
    currentRate := max ((current + 2 ^ 64 - reduction) % 2 ^ 64) row.minRate
    state := without row.state (stageMask ||| decreasePendingBit) ||| increaseArmedBit
    nextIncrease := saturatingAddWord time row.increaseInterval }

/-- `dcqcn_increase_fire`. -/
def increaseFire (time : Nat) : DcqcnRow :=
  let stage := row.state &&& stageMask
  let steps := row.stepsClamp &&& stageMask
  let targetRate :=
    if stage ≥ steps then
      min (saturatingAddWord row.targetRate (if stage = steps then row.additiveRate else row.hyperRate))
        row.maxRate
    else row.targetRate
  { row with
    nextIncrease := saturatingAddWord time row.increaseInterval
    targetRate
    currentRate := row.currentRate / 2 + targetRate / 2
    state := if stage ≤ steps then (row.state + 1) % 2 ^ 64 else row.state }

/-- The loop of `dcqcn_materialize`, cut after `fuel` instants as the host's is. -/
def materializeLoop (bound : Nat) : Nat → DcqcnRow → DcqcnRow
  | 0, row => row
  | fuel + 1, row =>
    if min row.increaseDue row.decreaseDue ≥ bound then row
    else if row.increaseDue ≤ row.decreaseDue then
      materializeLoop bound fuel (row.increaseFire row.increaseDue)
    else
      materializeLoop bound fuel ((row.alphaThrough row.decreaseDue).decreaseCheck row.decreaseDue)

/-- `dcqcn_materialize`. -/
def materialize (bound : Nat) : DcqcnRow := materializeLoop bound (bound + 2) row

/-- `dcqcn_first_decrease_at_or_after`. -/
def firstDecreaseAtOrAfter (time : Nat) : Nat :=
  let anchor := row.nextDecrease
  if anchor ≥ time ∨ anchor = u64Max then anchor
  else
    let span := time - anchor
    gridInstant anchor
      (span / row.decreaseInterval + if span % row.decreaseInterval ≠ 0 then 1 else 0)
      row.decreaseInterval

def alphaBefore (bound : Nat) : DcqcnRow := if bound ≠ 0 then row.alphaThrough (bound - 1) else row

/-- `dcqcn_on_feedback`. -/
def onFeedback (now : Nat) : DcqcnRow :=
  if row.state &&& armedBit = 0 then
    { row with
      alpha := dcqcnAlphaOne
      state := without row.state alphaPendingBit ||| armedBit ||| decreasePendingBit
      nextAlpha := saturatingAddWord now row.alphaInterval
      nextDecrease := saturatingAddWord (saturatingAddWord now row.decreaseInterval) 1 }
  else
    let row := (row.materialize now).alphaBefore now
    let state := row.state ||| alphaPendingBit
    if state &&& decreasePendingBit = 0 then
      { row with
        nextDecrease := row.firstDecreaseAtOrAfter now
        state := state ||| decreasePendingBit }
    else { row with state }

/-- `dcqcn_settle`. -/
def settle (bound : Nat) : DcqcnRow :=
  if row.state &&& armedBit = 0 then row
  else
    let row := (row.materialize bound).alphaBefore bound
    { row with nextDecrease := row.firstDecreaseAtOrAfter bound }

def use (bound : Nat) : DcqcnUse → DcqcnRow
  | .feedback => row.onFeedback bound
  | .observe => row.materialize bound
  | .freeze => row.settle bound

def run (uses : List (Nat × DcqcnUse)) : DcqcnRow := uses.foldl (fun row use => row.use use.1 use.2) row

end DcqcnRow

end Device

end Days
