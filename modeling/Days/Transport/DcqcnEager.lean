/-
  Days.Transport.DcqcnEager — the reaction point as three periodic timers
  (`dcqcn_oracle.rs`): every alpha tick, rate increase and decrease check is
  applied at its own instant.
-/
import Days.Transport.Dcqcn

namespace Days

/-- `t + interval`, where an instant at or beyond the last one never fires. -/
def later (time interval : Nat) : Option Nat :=
  (checkedAdd 64 time interval).filter fun next => decide (next ≠ u64Max)

inductive DcqcnTimer where
  | alpha
  | increase
  | decrease

structure EagerDcqcn where
  config : DcqcnControllerConfig
  alpha : Nat
  current : Nat
  target : Nat
  stage : Nat
  armed : Bool
  alphaPending : Bool
  decreasePending : Bool
  increaseArmed : Bool
  nextAlpha : Option Nat
  nextDecrease : Option Nat
  nextIncrease : Option Nat

namespace EagerDcqcn

def new (config : DcqcnControllerConfig) : EagerDcqcn where
  config := config
  alpha := dcqcnAlphaOne
  current := config.initialRateBps
  target := config.initialRateBps
  stage := 0
  armed := false
  alphaPending := false
  decreasePending := false
  increaseArmed := false
  nextAlpha := none
  nextDecrease := none
  nextIncrease := none

def alphaTick (e : EagerDcqcn) (time : Nat) : EagerDcqcn :=
  let g := e.config.gQ63
  let marked := if e.alphaPending then g * dcqcnAlphaOne else 0
  { e with
    alpha := ((dcqcnAlphaOne - g) * e.alpha + marked) / dcqcnAlphaOne
    alphaPending := false
    nextAlpha := later time e.config.alphaIntervalNs }

/-- The check is re-armed whether or not a decrease is pending. -/
def decreaseTimer (e : EagerDcqcn) (time : Nat) : EagerDcqcn :=
  let e := { e with nextDecrease := later time e.config.decreaseIntervalNs }
  if !e.decreasePending then e
  else
    let cut := e.current * (2 ^ 64 - e.alpha) / 2 ^ 64
    { e with
      target := if e.config.clampTargetRate ∨ e.stage ≠ 0 then e.current else e.target
      current := max cut e.config.minimumRateBps
      stage := 0
      decreasePending := false
      increaseArmed := true
      nextIncrease := later time e.config.increaseIntervalNs }

def increaseTimer (e : EagerDcqcn) (time : Nat) : EagerDcqcn :=
  let steps := e.config.fastRecoverySteps
  let target :=
    if e.stage = steps then min (e.target + e.config.additiveRateBps) e.config.maximumRateBps
    else if e.stage > steps then min (e.target + e.config.hyperRateBps) e.config.maximumRateBps
    else e.target
  { e with
    nextIncrease := later time e.config.increaseIntervalNs
    target
    current := e.current / 2 + target / 2
    stage := e.stage + 1 }

/-- The earlier of two candidates, the first one at equal time. -/
def sooner : Option (Nat × DcqcnTimer) → Option (Nat × DcqcnTimer) → Option (Nat × DcqcnTimer)
  | none, b => b
  | some a, none => some a
  | some a, some b => if a.1 ≤ b.1 then some a else some b

/-- The next timer: alpha before increase before decrease at equal time. -/
def due (e : EagerDcqcn) : Option (Nat × DcqcnTimer) :=
  sooner (e.nextAlpha.map (·, .alpha))
    (sooner (e.nextIncrease.map (·, .increase)) (e.nextDecrease.map (·, .decrease)))

def fire (e : EagerDcqcn) (time : Nat) : DcqcnTimer → EagerDcqcn
  | .alpha => e.alphaTick time
  | .increase => e.increaseTimer time
  | .decrease => e.decreaseTimer time

/-- The loop of `advance_to`, cut after `fuel` instants. -/
def advanceLoop (bound : Nat) : Nat → EagerDcqcn → EagerDcqcn
  | 0, e => e
  | fuel + 1, e =>
    match e.due with
    | none => e
    | some (time, timer) =>
      if time ≥ bound then e else advanceLoop bound fuel (e.fire time timer)

/-- `advance_to`: fire every timer before `bound`, in time order.  Each timer fires
at most once per nanosecond, and one cut may bring the increase timer forward. -/
def advanceTo (e : EagerDcqcn) (bound : Nat) : EagerDcqcn := advanceLoop bound (4 * bound) e

def feedback (e : EagerDcqcn) (now : Nat) : EagerDcqcn :=
  if !e.armed then
    { e with
      armed := true
      alpha := dcqcnAlphaOne
      alphaPending := false
      decreasePending := true
      nextAlpha := later now e.config.alphaIntervalNs
      nextDecrease := (later now e.config.decreaseIntervalNs).bind fun time => later time 1 }
  else { e with alphaPending := true, decreasePending := true }

/-- The state in the representation of the lazy controller: a timer that never
fires again stands at the last instant, one not started at zero. -/
def asController (e : EagerDcqcn) : DcqcnController where
  config := e.config
  alphaQ63 := e.alpha
  currentRateBps := e.current
  targetRateBps := e.target
  nextAlphaNs := if e.armed then e.nextAlpha.getD u64Max else 0
  nextDecreaseNs := if e.armed then e.nextDecrease.getD u64Max else 0
  nextIncreaseNs := if e.increaseArmed then e.nextIncrease.getD u64Max else 0
  stage := min e.stage (e.config.fastRecoverySteps + 1)
  armed := e.armed
  alphaPending := e.alphaPending
  decreasePending := e.decreasePending
  increaseArmed := e.increaseArmed

end EagerDcqcn

/-- `rate_state_matches`: everything but alpha, which is applied lazily, and an
idle decrease grid. -/
def rateStateMatches (lazy eager : DcqcnController) : Prop :=
  lazy.config = eager.config ∧ lazy.currentRateBps = eager.currentRateBps ∧
    lazy.targetRateBps = eager.targetRateBps ∧ lazy.stage = eager.stage ∧
    lazy.armed = eager.armed ∧ lazy.decreasePending = eager.decreasePending ∧
    lazy.increaseArmed = eager.increaseArmed ∧
    (lazy.increaseArmed = true → lazy.nextIncreaseNs = eager.nextIncreaseNs) ∧
    (lazy.decreasePending = true → lazy.nextDecreaseNs = eager.nextDecreaseNs)

/-! ## §2. Runs. -/

/-- What is done to a controller: a feedback, a read of its rate, or the freeze. -/
inductive DcqcnUse where
  | feedback
  | observe
  | freeze

/-- One use at an exclusive bound: `t` in phase 0, `t + 1` in phase 1. -/
def DcqcnController.use (l : DcqcnController) (bound : Nat) : DcqcnUse → DcqcnController
  | .feedback => (l.onFeedback bound).2
  | .observe => (l.materialize bound).2
  | .freeze => (l.settle bound).2

def EagerDcqcn.use (e : EagerDcqcn) (bound : Nat) : DcqcnUse → EagerDcqcn
  | .feedback => (e.advanceTo bound).feedback bound
  | .observe | .freeze => e.advanceTo bound

def DcqcnController.run (l : DcqcnController) (uses : List (Nat × DcqcnUse)) : DcqcnController :=
  uses.foldl (fun l use => l.use use.1 use.2) l

def EagerDcqcn.run (e : EagerDcqcn) (uses : List (Nat × DcqcnUse)) : EagerDcqcn :=
  uses.foldl (fun e use => e.use use.1 use.2) e

end Days
