/-
  Days.Transport.Dcqcn — the DCQCN rate controller (`dcqcn.rs`).

  A controller holds three lazily advanced clocks (alpha, decrease, increase);
  `materialize` fires the increase and decrease clocks that lie before a bound.
-/
import Days.Base.Checked

namespace Days

def dcqcnAlphaOne : Nat := 2 ^ 63

structure DcqcnControllerConfig where
  initialRateBps : Nat
  minimumRateBps : Nat
  maximumRateBps : Nat
  additiveRateBps : Nat
  hyperRateBps : Nat
  gQ63 : Nat
  alphaIntervalNs : Nat
  decreaseIntervalNs : Nat
  increaseIntervalNs : Nat
  fastRecoverySteps : Nat
  clampTargetRate : Bool

/-- `DcqcnControllerConfig::validate`. -/
def DcqcnControllerConfig.validate (config : DcqcnControllerConfig) : Except String Unit :=
  if config.minimumRateBps < 3 then
    .error "DCQCN minimum rate must be at least 3 bit/s: the rate average truncates each half, so the rate can fall to 2 * floor((minimum - 1) / 2)"
  else if config.minimumRateBps > config.initialRateBps ∨
      config.initialRateBps > config.maximumRateBps then
    .error "DCQCN rates must satisfy minimum <= initial <= maximum"
  else if config.gQ63 > dcqcnAlphaOne then .error "DCQCN g must be in 0..=1"
  else if config.alphaIntervalNs = 0 ∨ config.decreaseIntervalNs = 0 ∨
      config.increaseIntervalNs = 0 then
    .error "DCQCN alpha, rate-decrease and rate-increase intervals must be positive"
  else if config.fastRecoverySteps = width 32 - 1 then
    .error "DCQCN fast recovery times must be below 4294967295"
  else .ok ()

structure DcqcnController where
  config : DcqcnControllerConfig
  alphaQ63 : Nat
  currentRateBps : Nat
  targetRateBps : Nat
  nextAlphaNs : Nat
  nextDecreaseNs : Nat
  nextIncreaseNs : Nat
  stage : Nat
  armed : Bool
  alphaPending : Bool
  decreasePending : Bool
  increaseArmed : Bool

/-- How many clock instants one call fired. -/
structure DcqcnAdvance where
  alphaTicks : Nat
  increaseFires : Nat
  decreaseCuts : Nat

def DcqcnAdvance.none : DcqcnAdvance := ⟨0, 0, 0⟩

def DcqcnAdvance.appliedRateChange (a : DcqcnAdvance) : Bool :=
  a.increaseFires != 0 || a.decreaseCuts != 0

inductive DcqcnTransitionKind where
  | feedback
  | tick
  | advance

def dcqcnRateFloorBps (minimumRateBps : Nat) : Nat := 2 * ((minimumRateBps - 1) / 2)

def mulShr63 (a b : Nat) : Nat := a * b / 2 ^ 63 % 2 ^ 64

namespace DcqcnController

def pristine (config : DcqcnControllerConfig) : DcqcnController where
  config := config
  alphaQ63 := dcqcnAlphaOne
  currentRateBps := config.initialRateBps
  targetRateBps := config.initialRateBps
  nextAlphaNs := 0
  nextDecreaseNs := 0
  nextIncreaseNs := 0
  stage := 0
  armed := false
  alphaPending := false
  decreasePending := false
  increaseArmed := false

/-- The instant of the armed increase clock, or the end of time. -/
def increaseInstant (c : DcqcnController) : Nat :=
  if c.increaseArmed then c.nextIncreaseNs else u64Max

/-- The instant of the pending decrease, or the end of time. -/
def decreaseInstant (c : DcqcnController) : Nat :=
  if c.decreasePending then c.nextDecreaseNs else u64Max

def dueNs (c : DcqcnController) : Nat :=
  if c.increaseInstant < c.decreaseInstant then c.increaseInstant else c.decreaseInstant

/-- The decay loop of `alpha_through`; it stops early once alpha is zero. -/
def decayAlpha (retained : Nat) : Nat → Nat → Nat
  | 0, alpha => alpha
  | remaining + 1, alpha =>
    if alpha = 0 then 0 else decayAlpha retained remaining (mulShr63 retained alpha)

def alphaThrough (c : DcqcnController) (timeNs : Nat) : Nat × DcqcnController :=
  if c.nextAlphaNs > timeNs ∨ c.nextAlphaNs = u64Max then (0, c)
  else
    let interval := c.config.alphaIntervalNs
    let ticks := (timeNs - c.nextAlphaNs) / interval + 1
    let retained := dcqcnAlphaOne - c.config.gQ63
    let alpha := mulShr63 retained c.alphaQ63
    let alpha := if c.alphaPending then alpha + c.config.gQ63 else alpha
    let advanced := ticks * interval + c.nextAlphaNs
    (ticks,
      { c with
        alphaPending := false
        alphaQ63 := decayAlpha retained (ticks - 1) alpha
        nextAlphaNs := min advanced u64Max })

def decreaseCheck (c : DcqcnController) (timeNs : Nat) : DcqcnController :=
  let product := c.currentRateBps * c.alphaQ63
  let reduction := product / 2 ^ 64 + (if product % 2 ^ 64 ≠ 0 then 1 else 0)
  { c with
    nextDecreaseNs := saturatingAdd 64 timeNs c.config.decreaseIntervalNs
    targetRateBps :=
      if c.config.clampTargetRate ∨ c.stage ≠ 0 then c.currentRateBps else c.targetRateBps
    currentRateBps := max (c.currentRateBps - reduction) c.config.minimumRateBps
    stage := 0
    decreasePending := false
    increaseArmed := true
    nextIncreaseNs := saturatingAdd 64 timeNs c.config.increaseIntervalNs }

def increaseFire (c : DcqcnController) (timeNs : Nat) : DcqcnController :=
  let steps := c.config.fastRecoverySteps
  let targetRateBps :=
    if c.stage = steps then
      min (saturatingAdd 64 c.targetRateBps c.config.additiveRateBps) c.config.maximumRateBps
    else if c.stage > steps then
      min (saturatingAdd 64 c.targetRateBps c.config.hyperRateBps) c.config.maximumRateBps
    else c.targetRateBps
  { c with
    nextIncreaseNs := saturatingAdd 64 timeNs c.config.increaseIntervalNs
    targetRateBps
    currentRateBps := c.currentRateBps / 2 + targetRateBps / 2
    stage := if c.stage ≤ steps then c.stage + 1 else c.stage }

/-- The loop of `materialize`, cut after `fuel` instants. -/
def materializeLoop (boundNs : Nat) : Nat → DcqcnAdvance → DcqcnController →
    DcqcnAdvance × DcqcnController
  | 0, advance, c => (advance, c)
  | fuel + 1, advance, c =>
    let increase := c.increaseInstant
    let decrease := c.decreaseInstant
    if min increase decrease ≥ boundNs then (advance, c)
    else if increase ≤ decrease then
      materializeLoop boundNs fuel
        { advance with increaseFires := advance.increaseFires + 1 } (c.increaseFire increase)
    else
      let (ticks, c) := c.alphaThrough decrease
      materializeLoop boundNs fuel
        { advance with
          alphaTicks := advance.alphaTicks + ticks
          decreaseCuts := advance.decreaseCuts + 1 }
        (c.decreaseCheck decrease)

/-- `materialize`: with a positive increase interval the loop fires at most one
decrease and one increase per nanosecond below the bound. -/
def materialize (c : DcqcnController) (boundNs : Nat) : DcqcnAdvance × DcqcnController :=
  materializeLoop boundNs (boundNs + 2) .none c

def firstDecreaseAtOrAfter (c : DcqcnController) (timeNs : Nat) : Nat :=
  let anchor := c.nextDecreaseNs
  if anchor ≥ timeNs ∨ anchor = u64Max then anchor
  else
    let interval := c.config.decreaseIntervalNs
    let steps := (timeNs - anchor + interval - 1) / interval
    min (anchor + steps * interval) u64Max

/-- Advance alpha through the last nanosecond before `boundNs`. -/
def alphaBefore (boundNs : Nat) (advance : DcqcnAdvance) (c : DcqcnController) :
    DcqcnAdvance × DcqcnController :=
  match checkedSub boundNs 1 with
  | some last =>
    let (ticks, c) := c.alphaThrough last
    ({ advance with alphaTicks := advance.alphaTicks + ticks }, c)
  | none => (advance, c)

def onFeedback (c : DcqcnController) (nowNs : Nat) : DcqcnAdvance × DcqcnController :=
  if !c.armed then
    (.none,
      { c with
        armed := true
        alphaQ63 := dcqcnAlphaOne
        alphaPending := false
        decreasePending := true
        nextAlphaNs := saturatingAdd 64 nowNs c.config.alphaIntervalNs
        nextDecreaseNs :=
          saturatingAdd 64 (saturatingAdd 64 nowNs c.config.decreaseIntervalNs) 1 })
  else
    let (advance, c) := c.materialize nowNs
    let (advance, c) := alphaBefore nowNs advance c
    let c := { c with alphaPending := true }
    if !c.decreasePending then
      (advance,
        { c with decreasePending := true, nextDecreaseNs := c.firstDecreaseAtOrAfter nowNs })
    else (advance, c)

def settle (c : DcqcnController) (boundNs : Nat) : DcqcnAdvance × DcqcnController :=
  if !c.armed then (.none, c)
  else
    let (advance, c) := c.materialize boundNs
    let (advance, c) := alphaBefore boundNs advance c
    (advance, { c with nextDecreaseNs := c.firstDecreaseAtOrAfter boundNs })

end DcqcnController

end Days
