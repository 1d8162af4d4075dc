/-
  Days.Logic.DcqcnLazy — the lazy DCQCN controller agrees with its three timers.

  Between two uses the lazy controller may be `k` alpha ticks and `j` idle
  decrease checks behind the eager machine.  Every timer that fires keeps this
  relation, and the uses that read alpha or the decrease grid close the gap.
-/
import Days.Transport.DcqcnEager

namespace Days

open DcqcnController EagerDcqcn

variable {l : DcqcnController} {e : EagerDcqcn} {bound : Nat}

variable {a b x : Nat} {timer : DcqcnTimer}

variable {config : DcqcnControllerConfig} {t : Nat}

/-! ## §1. Instants. -/

/-- An instant at or beyond the last one never fires. -/
def instantOf (time : Nat) : Option Nat := if time < u64Max then some time else none

theorem width_eq : width 64 = u64Max + 1 := by decide

theorem later_eq (time interval : Nat) : later time interval = instantOf (time + interval) := by
  unfold later checkedAdd instantOf
  have hw := width_eq
  by_cases h : time + interval < u64Max
  · have hlt : time + interval < width 64 := by omega
    have hne : time + interval ≠ u64Max := by omega
    simp [hlt, h, Option.filter, hne]
  · by_cases heq : time + interval = u64Max
    · simp [heq, u64Max_lt, Option.filter]
    · have hge : ¬ time + interval < width 64 := by omega
      simp [hge, h]

theorem instantOf_eq_some {time : Nat} (h : instantOf time = some x) :
    x = time ∧ time < u64Max := by
  unfold instantOf at h
  split at h
  · rename_i hlt
    exact ⟨(Option.some.inj h).symm, hlt⟩
  · cases h

theorem instantOf_of_lt {time : Nat} (h : time < u64Max) : instantOf time = some time := if_pos h

theorem instantOf_getD (time : Nat) : (instantOf time).getD u64Max = min time u64Max := by
  unfold instantOf
  split
  · rename_i h
    rw [min_eq_left h.le]
    rfl
  · rename_i h
    rw [min_eq_right (by omega)]
    rfl

theorem instantOf_min (time : Nat) : instantOf (min time u64Max) = instantOf time := by
  unfold instantOf
  by_cases h : time < u64Max
  · rw [min_eq_left h.le]
  · rw [min_eq_right (by omega), if_neg h, if_neg (lt_irrefl _)]

theorem saturatingAdd_eq (time interval : Nat) :
    saturatingAdd 64 time interval = min (time + interval) u64Max := rfl

/-! ## §2. Configurations. -/

/-- What a validated configuration of machine integers guarantees. -/
structure DcqcnControllerConfig.Usable (config : DcqcnControllerConfig) : Prop where
  gain : config.gQ63 ≤ dcqcnAlphaOne
  alpha : 0 < config.alphaIntervalNs
  decrease : 0 < config.decreaseIntervalNs
  increase : 0 < config.increaseIntervalNs
  maximum : config.maximumRateBps ≤ u64Max

theorem DcqcnControllerConfig.usable_of_validate (h : config.validate = .ok ())
    (hmaximum : config.maximumRateBps < width 64) : config.Usable := by
  unfold validate at h
  have hw := width_eq
  split at h
  · cases h
  split at h
  · cases h
  split at h
  · cases h
  split at h
  · cases h
  · rename_i hgain hintervals
    exact ⟨by omega, by omega, by omega, by omega, by omega⟩

/-! ## §3. Alpha. -/

theorem mulShr63_of_le (ha : a ≤ dcqcnAlphaOne) (hb : b ≤ dcqcnAlphaOne) :
    mulShr63 a b = a * b / dcqcnAlphaOne := by
  apply Nat.mod_eq_of_lt
  have hprod : a * b ≤ 2 ^ 63 * 2 ^ 63 := Nat.mul_le_mul ha hb
  have hdiv : a * b / 2 ^ 63 ≤ 2 ^ 63 := Nat.div_le_of_le_mul hprod
  exact lt_of_le_of_lt hdiv (by decide)

theorem mul_div_alphaOne_le (hb : b ≤ dcqcnAlphaOne) : a * b / dcqcnAlphaOne ≤ a := by
  have hone : 0 < dcqcnAlphaOne := by decide
  calc a * b / dcqcnAlphaOne ≤ a * dcqcnAlphaOne / dcqcnAlphaOne :=
        Nat.div_le_div_right (Nat.mul_le_mul_left a hb)
    _ = a := Nat.mul_div_cancel a hone

theorem decayAlpha_zero (retained n : Nat) : decayAlpha retained n 0 = 0 := by
  cases n <;> rfl

/-- One more decay at the end. -/
theorem decayAlpha_succ (retained n alpha : Nat) :
    decayAlpha retained (n + 1) alpha =
      mulShr63 retained (decayAlpha retained n alpha) := by
  have hzero : mulShr63 retained 0 = 0 := by simp [mulShr63]
  induction n generalizing alpha with
  | zero =>
    by_cases h : alpha = 0
    · subst h
      rw [decayAlpha_zero, decayAlpha_zero, hzero]
    · simp [decayAlpha, h]
  | succ n ih =>
    by_cases h : alpha = 0
    · subst h
      rw [decayAlpha_zero, decayAlpha_zero, hzero]
    · rw [decayAlpha, if_neg h, ih]
      conv_rhs => rw [decayAlpha, if_neg h]

theorem decayAlpha_le {retained : Nat} (hr : retained ≤ dcqcnAlphaOne) (n : Nat) {alpha : Nat}
    (ha : alpha ≤ dcqcnAlphaOne) : decayAlpha retained n alpha ≤ dcqcnAlphaOne := by
  induction n with
  | zero => exact ha
  | succ n ih =>
    rw [decayAlpha_succ, mulShr63_of_le hr ih]
    exact (mul_div_alphaOne_le ih).trans hr

/-- Alpha after `k` ticks of the controller. -/
def DcqcnController.alphaAfter (l : DcqcnController) : Nat → Nat
  | 0 => l.alphaQ63
  | k + 1 =>
    let retained := dcqcnAlphaOne - l.config.gQ63
    let first := mulShr63 retained l.alphaQ63
    decayAlpha retained k (if l.alphaPending then first + l.config.gQ63 else first)

theorem alphaAfter_le (hg : l.config.gQ63 ≤ dcqcnAlphaOne)
    (ha : l.alphaQ63 ≤ dcqcnAlphaOne) (k : Nat) : l.alphaAfter k ≤ dcqcnAlphaOne := by
  cases k with
  | zero => exact ha
  | succ k =>
    have hr : dcqcnAlphaOne - l.config.gQ63 ≤ dcqcnAlphaOne := Nat.sub_le _ _
    apply decayAlpha_le hr
    rw [mulShr63_of_le hr ha]
    have hle := mul_div_alphaOne_le (a := dcqcnAlphaOne - l.config.gQ63) ha
    split <;> omega

/-- A tick of the eager machine takes alpha one step on: the mark is added exactly. -/
theorem alphaAfter_succ (hg : l.config.gQ63 ≤ dcqcnAlphaOne)
    (ha : l.alphaQ63 ≤ dcqcnAlphaOne) (k : Nat) :
    ((dcqcnAlphaOne - l.config.gQ63) * l.alphaAfter k +
        if l.alphaPending && decide (k = 0) then l.config.gQ63 * dcqcnAlphaOne else 0) /
      dcqcnAlphaOne = l.alphaAfter (k + 1) := by
  have hone : 0 < dcqcnAlphaOne := by decide
  have hr : dcqcnAlphaOne - l.config.gQ63 ≤ dcqcnAlphaOne := Nat.sub_le _ _
  cases k with
  | zero =>
    have hfirst := mulShr63_of_le hr ha
    cases hp : l.alphaPending with
    | false => simp [alphaAfter, decayAlpha, hp, hfirst]
    | true =>
      simp [alphaAfter, decayAlpha, hp, hfirst,
        Nat.add_mul_div_right _ _ hone]
  | succ k =>
    have hle := alphaAfter_le hg ha (k + 1)
    have hstep : l.alphaAfter (k + 1 + 1) =
        mulShr63 (dcqcnAlphaOne - l.config.gQ63) (l.alphaAfter (k + 1)) := decayAlpha_succ _ _ _
    rw [hstep, mulShr63_of_le hr hle]
    simp

/-! ## §4. Lagging behind. -/

namespace EagerDcqcn

/-- Some timer stands at `x`. -/
def Fires (e : EagerDcqcn) (x : Nat) : Prop :=
  e.nextAlpha = some x ∨ e.nextIncrease = some x ∨ e.nextDecrease = some x

end EagerDcqcn

/-- The armed controller `l` is `k` alpha ticks and `j` idle checks behind `e`; what
it skipped lies before `s`, and no timer of `e` stands more than one instant
before `s`. -/
structure Behind (k j : Nat) (l : DcqcnController) (e : EagerDcqcn) (s : Nat) : Prop where
  usable : l.config.Usable
  config : e.config = l.config
  armed : l.armed = true ∧ e.armed = true
  current : e.current = l.currentRateBps
  target : e.target = l.targetRateBps
  stage : l.stage = min e.stage (l.config.fastRecoverySteps + 1)
  pending : e.decreasePending = l.decreasePending
  grid : l.decreasePending = true → j = 0
  increaseArmed : e.increaseArmed = l.increaseArmed
  increase : e.nextIncrease = if l.increaseArmed then instantOf l.nextIncreaseNs else none
  unset : l.increaseArmed = false → l.nextIncreaseNs = 0
  decrease : e.nextDecrease = instantOf (l.nextDecreaseNs + j * l.config.decreaseIntervalNs)
  checked : j ≠ 0 → l.nextDecreaseNs + (j - 1) * l.config.decreaseIntervalNs < min s u64Max
  alpha : e.nextAlpha = instantOf (l.nextAlphaNs + k * l.config.alphaIntervalNs)
  ticked : k ≠ 0 → l.nextAlphaNs + (k - 1) * l.config.alphaIntervalNs < min s u64Max
  value : e.alpha = l.alphaAfter k
  flag : e.alphaPending = (l.alphaPending && decide (k = 0))
  alphaLe : l.alphaQ63 ≤ dcqcnAlphaOne
  alphaMax : l.nextAlphaNs ≤ u64Max
  decreaseMax : l.nextDecreaseNs ≤ u64Max
  increaseMax : l.nextIncreaseNs ≤ u64Max
  timers : ∀ x, e.Fires x → s ≤ x + 1

namespace Behind

variable {k j : Nat} {l : DcqcnController} {e : EagerDcqcn} {s : Nat}

/-- Without a gap the two states are the same. -/
theorem eq_asController (h : Behind 0 0 l e s) : l = e.asController := by
  have halpha : e.nextAlpha.getD u64Max = l.nextAlphaNs := by
    rw [h.alpha, instantOf_getD]
    simp [h.alphaMax]
  have hdecrease : e.nextDecrease.getD u64Max = l.nextDecreaseNs := by
    rw [h.decrease, instantOf_getD]
    simp [h.decreaseMax]
  have hincrease : (if l.increaseArmed then e.nextIncrease.getD u64Max else 0) = l.nextIncreaseNs := by
    rw [h.increase]
    cases hi : l.increaseArmed with
    | false => simp [h.unset hi]
    | true => simp [instantOf_getD, h.increaseMax]
  have hvalue : e.alpha = l.alphaQ63 := h.value
  have hflag : e.alphaPending = l.alphaPending := by simpa using h.flag
  obtain ⟨harmed, harmed'⟩ := h.armed
  cases l
  simp only [asController, DcqcnController.mk.injEq] at *
  simp only [h.config, hvalue, h.current, h.target, harmed', halpha, hdecrease, hincrease,
    h.increaseArmed, h.pending, hflag, harmed, if_true, true_and, and_true]
  exact h.stage

section

variable (h : Behind k j l e s)

include h

/-- Whatever the gap, the rates and their timers agree. -/
theorem rates : rateStateMatches l e.asController := by
  refine ⟨h.config.symm, h.current.symm, h.target.symm, ?_, h.armed.1.trans h.armed.2.symm,
    h.pending.symm, h.increaseArmed.symm, fun hi => ?_, fun hp => ?_⟩
  · show l.stage = min e.stage (e.config.fastRecoverySteps + 1)
    rw [h.config]
    exact h.stage
  · show l.nextIncreaseNs = if e.increaseArmed then e.nextIncrease.getD u64Max else 0
    rw [h.increaseArmed, hi, if_pos rfl, h.increase, hi, if_pos rfl, instantOf_getD,
      min_eq_left h.increaseMax]
  · show l.nextDecreaseNs = if e.armed then e.nextDecrease.getD u64Max else 0
    rw [h.armed.2, if_pos rfl, h.decrease, h.grid hp, instantOf_getD]
    simp [h.decreaseMax]

/-- The lower end may move up to just after the next timer. -/
theorem raise {s' : Nat} (hs : s ≤ s') (ht : ∀ x, e.Fires x → s' ≤ x + 1) : Behind k j l e s' :=
  { h with
    checked := fun hj => lt_of_lt_of_le (h.checked hj) (min_le_min_right _ hs)
    ticked := fun hk => lt_of_lt_of_le (h.ticked hk) (min_le_min_right _ hs)
    timers := ht }

/-- Applying the ticks up to `t` closes the alpha gap. -/
theorem alphaThrough_eq (hs : s ≤ t + 1) (ht : t < u64Max)
    (hnext : ∀ x, e.nextAlpha = some x → t < x) :
    (l.alphaThrough t).2 = { l with
      alphaQ63 := l.alphaAfter k
      alphaPending := l.alphaPending && decide (k = 0)
      nextAlphaNs := min (l.nextAlphaNs + k * l.config.alphaIntervalNs) u64Max } := by
  have hreach : t < l.nextAlphaNs + k * l.config.alphaIntervalNs := by
    by_cases hlt : l.nextAlphaNs + k * l.config.alphaIntervalNs < u64Max
    · exact hnext _ (h.alpha.trans (instantOf_of_lt hlt))
    · omega
  cases k with
  | zero =>
    simp only [Nat.zero_mul, Nat.add_zero] at hreach ⊢
    unfold alphaThrough
    rw [if_pos (.inl hreach)]
    simp [alphaAfter, h.alphaMax]
  | succ k =>
    have hskip := h.ticked (by omega)
    rw [Nat.add_sub_cancel, lt_min_iff] at hskip
    have hdiv : (t - l.nextAlphaNs) / l.config.alphaIntervalNs = k := by
      apply Nat.div_eq_of_lt_le
      · omega
      · show t - l.nextAlphaNs < (k + 1) * l.config.alphaIntervalNs
        omega
    unfold alphaThrough
    rw [if_neg (by omega)]
    simp only [hdiv, Nat.add_sub_cancel, alphaAfter]
    rw [Nat.add_comm ((k + 1) * l.config.alphaIntervalNs)]
    simp

/-- The first instant of the grid from `bound` on is the next check. -/
theorem firstDecreaseAtOrAfter_eq (hmax : s ≤ u64Max)
    (hnext : ∀ x, e.nextDecrease = some x → s ≤ x) :
    l.firstDecreaseAtOrAfter s =
      min (l.nextDecreaseNs + j * l.config.decreaseIntervalNs) u64Max := by
  have hpos := h.usable.decrease
  have hreach : s ≤ l.nextDecreaseNs + j * l.config.decreaseIntervalNs := by
    by_cases hlt : l.nextDecreaseNs + j * l.config.decreaseIntervalNs < u64Max
    · exact hnext _ (h.decrease.trans (instantOf_of_lt hlt))
    · omega
  unfold firstDecreaseAtOrAfter
  cases j with
  | zero =>
    simp only [Nat.zero_mul, Nat.add_zero] at hreach ⊢
    rw [if_pos (.inl hreach), min_eq_left h.decreaseMax]
  | succ j =>
    have hskip := h.checked (by omega)
    rw [Nat.add_sub_cancel, lt_min_iff] at hskip
    rw [if_neg (by omega)]
    have hsteps : (s - l.nextDecreaseNs + l.config.decreaseIntervalNs - 1) /
        l.config.decreaseIntervalNs = j + 1 := by
      have hmul : (j + 1) * l.config.decreaseIntervalNs =
          j * l.config.decreaseIntervalNs + l.config.decreaseIntervalNs := Nat.succ_mul _ _
      have hmul' : (j + 1 + 1) * l.config.decreaseIntervalNs =
          (j + 1) * l.config.decreaseIntervalNs + l.config.decreaseIntervalNs := Nat.succ_mul _ _
      apply Nat.div_eq_of_lt_le
      · omega
      · show _ < (j + 1 + 1) * l.config.decreaseIntervalNs
        omega
    simp only [hsteps]

/-! ### One timer. -/

theorem alphaTick (ht : t < u64Max) (hs : s ≤ t + 1)
    (hdue : e.nextAlpha = some t) (hother : ∀ x, e.Fires x → t ≤ x) :
    Behind (k + 1) j l (e.alphaTick t) (t + 1) := by
  obtain ⟨htime, -⟩ := instantOf_eq_some (h.alpha.symm.trans hdue)
  have hnext : (e.alphaTick t).nextAlpha =
      instantOf (l.nextAlphaNs + (k + 1) * l.config.alphaIntervalNs) := by
    show later t e.config.alphaIntervalNs = _
    rw [later_eq, h.config, Nat.succ_mul, ← Nat.add_assoc, ← htime]
  refine { h with
    checked := fun hj => lt_of_lt_of_le (h.checked hj) (min_le_min_right _ hs)
    alpha := hnext, ticked := fun _ => ?_, value := ?_, flag := ?_, timers := ?_ }
  · rw [Nat.add_sub_cancel, ← htime]
    omega
  · show ((dcqcnAlphaOne - e.config.gQ63) * e.alpha +
      if e.alphaPending then e.config.gQ63 * dcqcnAlphaOne else 0) / dcqcnAlphaOne = _
    rw [h.config, h.value, h.flag]
    exact alphaAfter_succ h.usable.gain h.alphaLe k
  · simp [EagerDcqcn.alphaTick]
  · rintro x (hx | hx | hx)
    · rw [hnext] at hx
      obtain ⟨rfl, -⟩ := instantOf_eq_some hx
      have hmul : (k + 1) * l.config.alphaIntervalNs =
          k * l.config.alphaIntervalNs + l.config.alphaIntervalNs := Nat.succ_mul _ _
      have hpos := h.usable.alpha
      omega
    · exact Nat.succ_le_succ (hother x (.inr (.inl hx)))
    · exact Nat.succ_le_succ (hother x (.inr (.inr hx)))

theorem idleCheck (ht : t < u64Max) (hs : s ≤ t + 1)
    (hdue : e.nextDecrease = some t) (hother : ∀ x, e.Fires x → t ≤ x)
    (hidle : l.decreasePending = false) : Behind k (j + 1) l (e.decreaseTimer t) (t + 1) := by
  obtain ⟨htime, -⟩ := instantOf_eq_some (h.decrease.symm.trans hdue)
  have hfire : e.decreaseTimer t =
      { e with nextDecrease := later t e.config.decreaseIntervalNs } := by
    unfold decreaseTimer
    simp [h.pending, hidle]
  have hnext : later t e.config.decreaseIntervalNs =
      instantOf (l.nextDecreaseNs + (j + 1) * l.config.decreaseIntervalNs) := by
    rw [later_eq, h.config, Nat.succ_mul, ← Nat.add_assoc, ← htime]
  rw [hfire]
  refine { h with
    grid := fun hp => ?_
    ticked := fun hk => lt_of_lt_of_le (h.ticked hk) (min_le_min_right _ hs)
    decrease := hnext, checked := fun _ => ?_, timers := ?_ }
  · rw [hidle] at hp
    cases hp
  · rw [Nat.add_sub_cancel, ← htime]
    omega
  · rintro x (hx | hx | hx)
    · exact Nat.succ_le_succ (hother x (.inl hx))
    · exact Nat.succ_le_succ (hother x (.inr (.inl hx)))
    · replace hx := hnext.symm.trans hx
      obtain ⟨rfl, -⟩ := instantOf_eq_some hx
      have hmul : (j + 1) * l.config.decreaseIntervalNs =
          j * l.config.decreaseIntervalNs + l.config.decreaseIntervalNs := Nat.succ_mul _ _
      have hpos := h.usable.decrease
      omega

end

/-- A clamp that saturates first changes nothing. -/
theorem min_saturatingAdd {m : Nat} (hm : m ≤ u64Max) :
    min (saturatingAdd 64 a b) m = min (a + b) m := by
  rw [saturatingAdd_eq]
  omega

theorem increaseFire (h : Behind k j l e s) (hs : s ≤ t + 1) (harmed : l.increaseArmed = true)
    (hother : ∀ x, e.Fires x → t ≤ x) :
    Behind k j (l.increaseFire t) (e.increaseTimer t) (t + 1) := by
  have hnext : later t e.config.increaseIntervalNs =
      instantOf (saturatingAdd 64 t l.config.increaseIntervalNs) := by
    rw [later_eq, saturatingAdd_eq, instantOf_min, h.config]
  have hstage := h.stage
  -- Saturation keeps the three cases of the stage apart.
  have htarget : (e.increaseTimer t).target = (l.increaseFire t).targetRateBps := by
    have heq : e.stage = l.config.fastRecoverySteps ↔ l.stage = l.config.fastRecoverySteps := by omega
    have hgt : e.stage > l.config.fastRecoverySteps ↔ l.stage > l.config.fastRecoverySteps := by omega
    simp only [EagerDcqcn.increaseTimer, DcqcnController.increaseFire, h.config, h.target,
      min_saturatingAdd h.usable.maximum, heq, hgt]
  refine { h with
    target := htarget, current := ?_, stage := ?_, increase := ?_, unset := fun hu => ?_
    checked := fun hj => lt_of_lt_of_le (h.checked hj) (min_le_min_right _ hs)
    ticked := fun hk => lt_of_lt_of_le (h.ticked hk) (min_le_min_right _ hs)
    increaseMax := ?_, timers := ?_ }
  · show e.current / 2 + (e.increaseTimer t).target / 2 =
      l.currentRateBps / 2 + (l.increaseFire t).targetRateBps / 2
    rw [htarget, h.current]
  · show (if l.stage ≤ l.config.fastRecoverySteps then l.stage + 1 else l.stage) =
      min (e.stage + 1) (l.config.fastRecoverySteps + 1)
    split <;> omega
  · show later t e.config.increaseIntervalNs =
      if l.increaseArmed then instantOf (saturatingAdd 64 t l.config.increaseIntervalNs) else none
    rw [harmed, if_pos rfl, hnext]
  · replace hu : l.increaseArmed = false := hu
    rw [harmed] at hu
    cases hu
  · show saturatingAdd 64 t l.config.increaseIntervalNs ≤ u64Max
    exact min_le_right _ _
  · rintro x (hx | hx | hx)
    · exact Nat.succ_le_succ (hother x (.inl hx))
    · replace hx : later t e.config.increaseIntervalNs = some x := hx
      rw [later_eq] at hx
      obtain ⟨rfl, -⟩ := instantOf_eq_some hx
      have hpos := h.usable.increase
      rw [← h.config] at hpos
      omega
    · exact Nat.succ_le_succ (hother x (.inr (.inr hx)))

/-- The cut of the eager machine, in one product. -/
theorem cut_eq (rate alpha : Nat) (ha : alpha ≤ 2 ^ 64) :
    rate - (rate * alpha / 2 ^ 64 + if rate * alpha % 2 ^ 64 ≠ 0 then 1 else 0) =
      rate * (2 ^ 64 - alpha) / 2 ^ 64 := by
  have hdiv := Nat.div_add_mod (rate * alpha) (2 ^ 64)
  have hmod := Nat.mod_lt (rate * alpha) (Nat.two_pow_pos 64)
  have hle : rate * alpha ≤ rate * 2 ^ 64 := Nat.mul_le_mul_left rate ha
  rw [Nat.mul_sub]
  generalize rate * alpha / 2 ^ 64 = q at *
  generalize rate * alpha % 2 ^ 64 = r at *
  rw [← hdiv]
  symm
  split
  · rename_i hr
    apply Nat.div_eq_of_lt_le <;> omega
  · rename_i hr
    apply Nat.div_eq_of_lt_le <;> omega

theorem decreaseCut (h : Behind k j l e s) (ht : t < u64Max) (hs : s ≤ t + 1)
    (hpending : l.decreasePending = true) (halpha : ∀ x, e.nextAlpha = some x → t < x)
    (hother : ∀ x, e.Fires x → t ≤ x) :
    Behind 0 0 ((l.alphaThrough t).2.decreaseCheck t) (e.decreaseTimer t) (t + 1) := by
  have hp' : e.decreasePending = true := h.pending.trans hpending
  have hdecrease : (e.decreaseTimer t).nextDecrease =
      instantOf (saturatingAdd 64 t l.config.decreaseIntervalNs) := by
    rw [saturatingAdd_eq, instantOf_min, ← later_eq, ← h.config]
    simp [decreaseTimer, hp']
  have hincrease : (e.decreaseTimer t).nextIncrease =
      instantOf (saturatingAdd 64 t l.config.increaseIntervalNs) := by
    rw [saturatingAdd_eq, instantOf_min, ← later_eq, ← h.config]
    simp [decreaseTimer, hp']
  have hkeep : (e.decreaseTimer t).nextAlpha = e.nextAlpha ∧ (e.decreaseTimer t).alpha = e.alpha ∧
      (e.decreaseTimer t).alphaPending = e.alphaPending := by
    simp [decreaseTimer, hp']
  have hle := alphaAfter_le h.usable.gain h.alphaLe k
  rw [h.alphaThrough_eq hs ht halpha]
  have hcut : (e.decreaseTimer t).current = max (l.currentRateBps -
      (l.currentRateBps * l.alphaAfter k / 2 ^ 64 +
        if l.currentRateBps * l.alphaAfter k % 2 ^ 64 ≠ 0 then 1 else 0))
      l.config.minimumRateBps := by
    rw [cut_eq _ _ (hle.trans (by decide))]
    simp [decreaseTimer, hp', h.current, h.value, h.config]
  have htarget : (e.decreaseTimer t).target =
      if l.config.clampTargetRate ∨ l.stage ≠ 0 then l.currentRateBps else l.targetRateBps := by
    have hstage : e.stage ≠ 0 ↔ l.stage ≠ 0 := by
      have := h.stage
      omega
    simp [decreaseTimer, hp', h.current, h.target, h.config, hstage]
  refine
    { usable := h.usable
      config := ?_, armed := ⟨h.armed.1, ?_⟩, current := hcut, target := htarget, stage := ?_
      pending := ?_, grid := fun _ => rfl, increaseArmed := ?_, increase := hincrease
      unset := fun hu => by cases hu
      decrease := ?_, checked := fun hj => absurd rfl hj, alpha := ?_
      ticked := fun hk => absurd rfl hk, value := hkeep.2.1.trans h.value
      flag := ?_, alphaLe := hle, alphaMax := min_le_right _ _
      decreaseMax := min_le_right _ _, increaseMax := min_le_right _ _, timers := ?_ }
  · simp [decreaseTimer, hp', h.config, decreaseCheck]
  · simp [decreaseTimer, hp', h.armed.2]
  · simp [decreaseTimer, hp', decreaseCheck]
  · simp [decreaseTimer, hp', decreaseCheck]
  · simp [decreaseTimer, hp', decreaseCheck]
  · rw [hdecrease]
    simp [decreaseCheck]
  · rw [hkeep.1, h.alpha, ← instantOf_min]
    simp [decreaseCheck]
  · rw [hkeep.2.2, h.flag]
    simp [decreaseCheck]
  · rintro x (hx | hx | hx)
    · rw [hkeep.1] at hx
      exact Nat.succ_le_succ (hother x (.inl hx))
    · rw [hincrease, saturatingAdd_eq, instantOf_min] at hx
      obtain ⟨rfl, -⟩ := instantOf_eq_some hx
      have hpos := h.usable.increase
      omega
    · rw [hdecrease, saturatingAdd_eq, instantOf_min] at hx
      obtain ⟨rfl, -⟩ := instantOf_eq_some hx
      have hpos := h.usable.decrease
      omega

end Behind

/-! ## §5. Runs of the timers. -/

namespace EagerDcqcn

theorem sooner_eq_some {a b : Option (Nat × DcqcnTimer)} {c : Nat × DcqcnTimer}
    (h : sooner a b = some c) : a = some c ∨ b = some c ∧ ∀ d, a = some d → c.1 < d.1 := by
  cases a with
  | none => exact .inr ⟨h, by simp⟩
  | some a =>
    cases b with
    | none => exact .inl h
    | some b =>
      replace h : (if a.1 ≤ b.1 then some a else some b) = some c := h
      by_cases hle : a.1 ≤ b.1
      · rw [if_pos hle] at h
        exact .inl h
      · rw [if_neg hle] at h
        cases h
        exact .inr ⟨rfl, fun d hd => Option.some.inj hd ▸ Nat.lt_of_not_le hle⟩

theorem sooner_le {a b : Option (Nat × DcqcnTimer)} {d : Nat × DcqcnTimer}
    (h : a = some d ∨ b = some d) : ∃ c, sooner a b = some c ∧ c.1 ≤ d.1 := by
  cases a with
  | none => exact ⟨d, h.resolve_left (by simp), le_rfl⟩
  | some a =>
    cases b with
    | none => exact ⟨d, h.resolve_right (by simp), le_rfl⟩
    | some b =>
      show ∃ c, (if a.1 ≤ b.1 then some a else some b) = some c ∧ c.1 ≤ d.1
      by_cases hle : a.1 ≤ b.1
      · rw [if_pos hle]
        rcases h with h | h <;> cases h
        · exact ⟨_, rfl, le_rfl⟩
        · exact ⟨_, rfl, hle⟩
      · rw [if_neg hle]
        rcases h with h | h <;> cases h
        · exact ⟨_, rfl, by omega⟩
        · exact ⟨_, rfl, le_rfl⟩

/-- No timer stands before the next one. -/
theorem due_le (hx : e.Fires x) : ∃ t timer, e.due = some (t, timer) ∧ t ≤ x := by
  have hdue {c : Nat × DcqcnTimer} (hc : e.due = some c ∧ c.1 ≤ x) :
      ∃ t timer, e.due = some (t, timer) ∧ t ≤ x := ⟨c.1, c.2, hc.1, hc.2⟩
  rcases hx with hx | hx
  · obtain ⟨c, hc⟩ := sooner_le (a := e.nextAlpha.map (·, .alpha))
      (b := sooner (e.nextIncrease.map (·, .increase)) (e.nextDecrease.map (·, .decrease)))
      (d := (x, .alpha)) (.inl (by rw [hx]; rfl))
    exact hdue hc
  · have hinner : ∃ c, sooner (e.nextIncrease.map (·, .increase))
        (e.nextDecrease.map (·, .decrease)) = some c ∧ c.1 ≤ x := by
      rcases hx with hx | hx
      · exact sooner_le (d := (x, .increase)) (.inl (by rw [hx]; rfl))
      · exact sooner_le (d := (x, .decrease)) (.inr (by rw [hx]; rfl))
    obtain ⟨b, hb, hle⟩ := hinner
    obtain ⟨c, hc, hle'⟩ := sooner_le (a := e.nextAlpha.map (·, .alpha)) (.inr hb)
    exact hdue ⟨hc, hle'.trans hle⟩

/-- The next timer; alpha and increase go first at equal time. -/
theorem due_spec (h : e.due = some (t, timer)) :
    (timer = .alpha ∧ e.nextAlpha = some t) ∨ (timer = .increase ∧ e.nextIncrease = some t) ∨
      timer = .decrease ∧ e.nextDecrease = some t ∧ (∀ x, e.nextAlpha = some x → t < x) ∧
        ∀ x, e.nextIncrease = some x → t < x := by
  rcases sooner_eq_some h with ha | ⟨hrest, hafter⟩
  · obtain ⟨a, ha', heq⟩ := Option.map_eq_some_iff.1 ha
    cases heq
    exact .inl ⟨rfl, ha'⟩
  · rcases sooner_eq_some hrest with hi | ⟨hd, hafter'⟩
    · obtain ⟨i, hi', heq⟩ := Option.map_eq_some_iff.1 hi
      cases heq
      exact .inr (.inl ⟨rfl, hi'⟩)
    · obtain ⟨d, hd', heq⟩ := Option.map_eq_some_iff.1 hd
      cases heq
      refine .inr (.inr ⟨rfl, hd', fun x hx => ?_, fun x hx => ?_⟩)
      · exact hafter (x, .alpha) (by rw [hx]; rfl)
      · exact hafter' (x, .increase) (by rw [hx]; rfl)

theorem due_least (h : e.due = some (t, timer)) (x : Nat) (hx : e.Fires x) : t ≤ x := by
  obtain ⟨t', timer', hdue, hle⟩ := due_le hx
  rw [h] at hdue
  cases hdue
  exact hle

theorem due_none (h : e.due = none) (x : Nat) : ¬ e.Fires x := by
  intro hx
  obtain ⟨t, timer, hdue, -⟩ := due_le hx
  rw [h] at hdue
  cases hdue

/-- The nanoseconds a timer has left before `bound`. -/
def left (bound : Nat) : Option Nat → Nat
  | some x => bound - x
  | none => 0

/-- Every instant uses up some of this. -/
def budget (bound : Nat) (e : EagerDcqcn) : Nat :=
  left bound e.nextAlpha + left bound e.nextIncrease + left bound e.nextDecrease +
    if e.decreasePending then bound else 0

theorem budget_le (bound : Nat) (e : EagerDcqcn) : e.budget bound ≤ 4 * bound := by
  have hleft (o : Option Nat) : left bound o ≤ bound := by
    cases o
    · exact Nat.zero_le _
    · exact Nat.sub_le _ _
  have ha := hleft e.nextAlpha
  have hi := hleft e.nextIncrease
  have hd := hleft e.nextDecrease
  unfold budget
  split <;> omega

theorem left_later {interval : Nat} (ht : t < bound) (hpos : 0 < interval) :
    left bound (later t interval) < bound - t := by
  rw [later_eq]
  unfold instantOf
  split
  · show bound - (t + interval) < bound - t
    omega
  · show 0 < bound - t
    omega

theorem fire_budget (hconfig : e.config.Usable) (hdue : e.due = some (t, timer)) (ht : t < bound) :
    (e.fire t timer).budget bound < e.budget bound := by
  have hused {o : Option Nat} (ho : o = some t) : left bound o = bound - t := by
    rw [ho]
    rfl
  unfold budget
  rcases due_spec hdue with ⟨rfl, htimer⟩ | ⟨rfl, htimer⟩ | ⟨rfl, htimer, -⟩
  · have hlt := left_later ht hconfig.alpha
    have heq := hused htimer
    show left bound (later t e.config.alphaIntervalNs) + left bound e.nextIncrease +
      left bound e.nextDecrease + (if e.decreasePending then bound else 0) < _
    omega
  · have hlt := left_later ht hconfig.increase
    have heq := hused htimer
    show left bound e.nextAlpha + left bound (later t e.config.increaseIntervalNs) +
      left bound e.nextDecrease + (if e.decreasePending then bound else 0) < _
    omega
  · have hlt := left_later ht hconfig.decrease
    have hlt' := left_later ht hconfig.increase
    have heq := hused htimer
    cases hp : e.decreasePending with
    | false =>
      simp only [fire, decreaseTimer, hp, Bool.not_false, if_true, Bool.false_eq_true, if_false]
      omega
    | true =>
      simp only [fire, decreaseTimer, hp, Bool.not_true, Bool.false_eq_true, if_false, if_true]
      omega

end EagerDcqcn

/-! ## §6. The loops side by side. -/

section Instants

variable {k j s x : Nat} (h : Behind k j l e s) (hx : x ≤ u64Max)

include h hx

/-- The instants of the lazy controller are timers of the eager machine. -/
theorem Behind.le_increaseInstant (hfires : ∀ y, e.nextIncrease = some y → x ≤ y) :
    x ≤ l.increaseInstant := by
  unfold increaseInstant
  split
  · next harmed =>
    by_cases hlt : l.nextIncreaseNs < u64Max
    · apply hfires
      rw [h.increase, if_pos harmed, instantOf_of_lt hlt]
    · omega
  · exact hx

theorem Behind.le_decreaseInstant (hfires : ∀ y, e.nextDecrease = some y → x ≤ y) :
    x ≤ l.decreaseInstant := by
  unfold decreaseInstant
  split
  · next hp =>
    by_cases hlt : l.nextDecreaseNs < u64Max
    · apply hfires
      rw [h.decrease, h.grid hp, Nat.zero_mul, Nat.add_zero, instantOf_of_lt hlt]
    · omega
  · exact hx

end Instants

/-- With no timer before the bound, neither loop has anything to apply. -/
theorem Behind.advance_done {k j s n : Nat} (h : Behind k j l e s) (hs : s ≤ bound)
    (hbound : bound ≤ u64Max) (hdone : ∀ x, e.Fires x → bound ≤ x) (hstop : advanceLoop bound n e = e)
    (fuel : Nat) (advance : DcqcnAdvance) :
    (∀ x, (advanceLoop bound n e).Fires x → bound ≤ x) ∧
      ∃ k' j', Behind k' j' (materializeLoop bound fuel advance l).2 (advanceLoop bound n e) bound := by
  have hincrease := h.le_increaseInstant hbound fun y hy => hdone y (.inr (.inl hy))
  have hdecrease := h.le_decreaseInstant hbound fun y hy => hdone y (.inr (.inr hy))
  have hlazy : materializeLoop bound fuel advance l = (advance, l) := by
    cases fuel with
    | zero => rfl
    | succ fuel =>
      unfold materializeLoop
      rw [if_pos (le_min hincrease hdecrease)]
  rw [hstop, hlazy]
  exact ⟨hdone, k, j, h.raise hs fun x hx => (hdone x hx).trans (Nat.le_succ x)⟩

/-- Both machines run to the bound together.  `lo` bounds the increase instants still
to come, which lie at different times; a pending decrease is cut once. -/
theorem Behind.advance (hbound : bound ≤ u64Max) (n : Nat) :
    ∀ {k j s lo fuel : Nat} {l : DcqcnController} {e : EagerDcqcn} {advance : DcqcnAdvance},
      Behind k j l e s → s ≤ bound → e.budget bound ≤ n →
      (l.increaseArmed = true → lo ≤ l.nextIncreaseNs) →
      (l.decreasePending = true → lo ≤ l.nextDecreaseNs + 1) →
      bound - lo + (if l.decreasePending then 1 else 0) ≤ fuel →
      (∀ x, (advanceLoop bound n e).Fires x → bound ≤ x) ∧
        ∃ k' j', Behind k' j' (materializeLoop bound fuel advance l).2
          (advanceLoop bound n e) bound := by
  induction n with
  | zero =>
    intro k j s lo fuel l e advance h hs hbudget _ _ _
    have hdone : ∀ x, e.Fires x → bound ≤ x := by
      intro x hx
      by_contra hlt
      have hleft : 0 < e.budget bound := by
        unfold budget
        rcases hx with hx | hx | hx <;> rw [hx] <;> simp only [left] <;> omega
      omega
    exact h.advance_done hs hbound hdone rfl fuel advance
  | succ n ih =>
    intro k j s lo fuel l e advance h hs hbudget hlo hlo' hfuel
    cases hdue : e.due with
    | none =>
      have hdone : ∀ x, e.Fires x → bound ≤ x := fun x hx => absurd hx (due_none hdue x)
      exact h.advance_done hs hbound hdone (by simp [advanceLoop, hdue]) fuel advance
    | some due =>
      obtain ⟨t, timer⟩ := due
      have hleast := due_least hdue
      by_cases ht : t ≥ bound
      · have hdone : ∀ x, e.Fires x → bound ≤ x := fun x hx => ht.le.trans (hleast x hx)
        exact h.advance_done hs hbound hdone (by simp [advanceLoop, hdue, ht]) fuel advance
      · have hstep : advanceLoop bound (n + 1) e =
            advanceLoop bound n (e.fire t timer) := by
          simp [advanceLoop, hdue, ht]
        have hlt : t < bound := Nat.lt_of_not_le ht
        have hmax : t < u64Max := by omega
        have hused : (e.fire t timer).budget bound < e.budget bound :=
          fire_budget (h.config ▸ h.usable) hdue hlt
        have hrest : (e.fire t timer).budget bound ≤ n := by omega
        rw [hstep]
        rcases due_spec hdue with ⟨rfl, htimer⟩ | ⟨rfl, htimer⟩ | ⟨rfl, htimer, ha, hi⟩
        · -- An alpha tick: the lazy controller only falls behind.
          have hs' := h.timers t (.inl htimer)
          exact ih (h.alphaTick hmax hs' htimer hleast) hlt hrest hlo hlo' hfuel
        · -- A rate increase is applied by both.
          have hs' := h.timers t (.inr (.inl htimer))
          have harmed : l.increaseArmed = true := by
            by_contra hne
            rw [h.increase, if_neg hne] at htimer
            cases htimer
          rw [h.increase, if_pos harmed] at htimer
          obtain ⟨rfl, -⟩ := instantOf_eq_some htimer
          have hinstant : l.increaseInstant = l.nextIncreaseNs := if_pos harmed
          have hbefore := h.le_decreaseInstant hmax.le fun y hy => hleast y (.inr (.inr hy))
          have hlow := hlo harmed
          obtain ⟨fuel, rfl⟩ : ∃ m, fuel = m + 1 := ⟨fuel - 1, by omega⟩
          have hlazy : materializeLoop bound (fuel + 1) advance l =
              materializeLoop bound fuel
                { advance with increaseFires := advance.increaseFires + 1 }
                (l.increaseFire l.nextIncreaseNs) := by
            conv_lhs => unfold materializeLoop
            simp only [hinstant]
            rw [if_neg (by omega), if_pos hbefore]
          rw [hlazy]
          refine ih (h.increaseFire hs' harmed hleast) hlt hrest (?_ : _ → l.nextIncreaseNs + 1 ≤ _)
            ?_ ?_
          · intro _
            show l.nextIncreaseNs + 1 ≤ saturatingAdd 64 l.nextIncreaseNs l.config.increaseIntervalNs
            have hpos := h.usable.increase
            rw [saturatingAdd_eq]
            omega
          · intro hp
            replace hp : l.decreasePending = true := hp
            have : l.decreaseInstant = l.nextDecreaseNs := if_pos hp
            show l.nextIncreaseNs + 1 ≤ l.nextDecreaseNs + 1
            omega
          · show bound - (l.nextIncreaseNs + 1) + (if l.decreasePending then 1 else 0) ≤ fuel
            omega
        · have hs' := h.timers t (.inr (.inr htimer))
          cases hp : l.decreasePending with
          | false =>
            -- An idle check only moves the grid of the eager machine.
            refine ih (h.idleCheck hmax hs' htimer hleast hp) hlt hrest hlo ?_ hfuel
            intro hp'
            rw [hp] at hp'
            cases hp'
          | true =>
            -- A cut: the alpha ticks it reads are applied first.
            have hnext : l.nextDecreaseNs = t := by
              rw [h.decrease, h.grid hp, Nat.zero_mul, Nat.add_zero] at htimer
              exact (instantOf_eq_some htimer).1.symm
            have hinstant : l.decreaseInstant = t := by
              unfold decreaseInstant
              rw [if_pos hp, hnext]
            have hafter : t < l.increaseInstant := h.le_increaseInstant hmax hi
            rw [hp, if_pos rfl] at hfuel
            obtain ⟨fuel, rfl⟩ : ∃ m, fuel = m + 1 := ⟨fuel - 1, by omega⟩
            have hlazy : (materializeLoop bound (fuel + 1) advance l).2 =
                (materializeLoop bound fuel
                  { advance with
                    alphaTicks := advance.alphaTicks + (l.alphaThrough t).1
                    decreaseCuts := advance.decreaseCuts + 1 }
                  ((l.alphaThrough t).2.decreaseCheck t)).2 := by
              conv_lhs => unfold materializeLoop
              simp only [hinstant]
              rw [if_neg (by omega), if_neg (by omega)]
            rw [hlazy]
            have hlow := hlo' hp
            have hcut := h.decreaseCut hmax hs' hp ha hleast
            have hpos : 0 < (l.alphaThrough t).2.config.increaseIntervalNs := hcut.usable.increase
            refine ih hcut hlt hrest (?_ : _ → lo ≤ _) ?_ ?_
            · intro _
              show lo ≤ saturatingAdd 64 t (l.alphaThrough t).2.config.increaseIntervalNs
              rw [saturatingAdd_eq]
              omega
            · intro hp'
              cases hp'
            · show bound - lo + 0 ≤ fuel
              omega

/-! ## §7. Uses of a controller. -/

section Uses

variable {k j s bound : Nat} {l : DcqcnController} {e : EagerDcqcn}

theorem Behind.materialize (h : Behind k j l e s) (hs : s ≤ bound) (hbound : bound ≤ u64Max) :
    (∀ x, (e.advanceTo bound).Fires x → bound ≤ x) ∧
      ∃ k' j', Behind k' j' (l.materialize bound).2 (e.advanceTo bound) bound := by
  refine h.advance hbound (4 * bound) hs (e.budget_le bound) (fun _ => Nat.zero_le _)
    (fun _ => Nat.zero_le _) ?_
  split <;> omega

/-- Applying alpha up to the last nanosecond before the bound closes the alpha gap. -/
theorem Behind.alphaBefore (h : Behind k j l e bound) (hbound : bound ≤ u64Max)
    (hdone : ∀ x, e.Fires x → bound ≤ x) (advance : DcqcnAdvance) :
    Behind 0 j (alphaBefore bound advance l).2 e bound := by
  have hcaught : (DcqcnController.alphaBefore bound advance l).2 = { l with
      alphaQ63 := l.alphaAfter k
      alphaPending := l.alphaPending && decide (k = 0)
      nextAlphaNs := min (l.nextAlphaNs + k * l.config.alphaIntervalNs) u64Max } := by
    unfold DcqcnController.alphaBefore checkedSub
    by_cases hpos : 1 ≤ bound
    · rw [if_pos hpos]
      refine h.alphaThrough_eq (by omega) (by omega) fun x hx => ?_
      have := hdone x (.inl hx)
      omega
    · rw [if_neg hpos]
      have hk : k = 0 := by
        by_contra hne
        have := h.ticked hne
        omega
      subst hk
      simp [alphaAfter, h.alphaMax]
  rw [hcaught]
  refine { h with
    alpha := ?_, ticked := fun hk => absurd rfl hk, value := h.value, flag := ?_
    alphaLe := alphaAfter_le h.usable.gain h.alphaLe k, alphaMax := min_le_right _ _ }
  · rw [h.alpha, ← instantOf_min]
    simp
  · rw [h.flag]
    simp

/-- Moving the decrease grid to the bound closes the other gap. -/
theorem Behind.regrid (h : Behind k j l e bound) (hbound : bound ≤ u64Max)
    (hdone : ∀ x, e.Fires x → bound ≤ x) :
    Behind k 0 { l with nextDecreaseNs := l.firstDecreaseAtOrAfter bound } e bound := by
  rw [h.firstDecreaseAtOrAfter_eq hbound fun x hx => hdone x (.inr (.inr hx))]
  refine { h with
    grid := fun _ => rfl, decrease := ?_, checked := fun hj => absurd rfl hj
    decreaseMax := min_le_right _ _, value := ?_ }
  · rw [h.decrease, ← instantOf_min]
    simp
  · rw [h.value]
    cases k <;> rfl

theorem Behind.settle (h : Behind k j l e s) (hs : s ≤ bound) (hbound : bound ≤ u64Max) :
    Behind 0 0 (l.settle bound).2 (e.advanceTo bound) bound := by
  obtain ⟨hdone, k', j', hrun⟩ := h.materialize hs hbound
  have halpha := hrun.alphaBefore hbound hdone (l.materialize bound).1
  have hgrid := halpha.regrid hbound hdone
  have heq : (l.settle bound).2 = { (DcqcnController.alphaBefore bound (l.materialize bound).1
      (l.materialize bound).2).2 with
      nextDecreaseNs := (DcqcnController.alphaBefore bound (l.materialize bound).1
        (l.materialize bound).2).2.firstDecreaseAtOrAfter bound } := by
    unfold DcqcnController.settle
    rw [h.armed.1]
    rfl
  rw [heq]
  exact hgrid

/-- Marking both flags keeps two states that agree in step. -/
theorem Behind.mark (h : Behind 0 0 l e s) :
    Behind 0 0 { l with alphaPending := true, decreasePending := true }
      { e with alphaPending := true, decreasePending := true } s :=
  { h with pending := rfl, grid := fun _ => rfl, flag := rfl, value := h.value, timers := h.timers }

theorem Behind.feedback (h : Behind k j l e s) (hs : s ≤ bound) (hbound : bound ≤ u64Max) :
    Behind 0 0 (l.onFeedback bound).2 ((e.advanceTo bound).feedback bound) bound := by
  obtain ⟨hdone, k', j', hrun⟩ := h.materialize hs hbound
  have halpha := hrun.alphaBefore hbound hdone (l.materialize bound).1
  have heager : (e.advanceTo bound).feedback bound =
      { e.advanceTo bound with alphaPending := true, decreasePending := true } := by
    simp [EagerDcqcn.feedback, hrun.armed.2]
  rw [heager]
  unfold DcqcnController.onFeedback
  simp only [h.armed.1, Bool.not_true, Bool.false_eq_true, if_false]
  generalize (DcqcnController.alphaBefore bound (l.materialize bound).1
    (l.materialize bound).2).2 = caught at halpha ⊢
  cases hp : caught.decreasePending with
  | false =>
    exact (halpha.regrid hbound hdone).mark
  | true =>
    have hj := halpha.grid hp
    subst hj
    exact halpha.mark

/-- The first feedback starts the timers of both. -/
theorem Behind.first (hconfig : config.Usable) (now : Nat) :
    Behind 0 0 ((pristine config).onFeedback now).2
      ((new config).feedback now) now := by
  have hdecrease : (later now config.decreaseIntervalNs).bind (fun time => later time 1) =
      instantOf (saturatingAdd 64 (saturatingAdd 64 now config.decreaseIntervalNs) 1) := by
    rw [later_eq, saturatingAdd_eq, saturatingAdd_eq, instantOf_min]
    unfold instantOf
    by_cases hlt : now + config.decreaseIntervalNs < u64Max
    · rw [if_pos hlt, min_eq_left hlt.le]
      exact later_eq _ _
    · rw [if_neg hlt, min_eq_right (by omega), if_neg (by omega)]
      rfl
  refine
    { usable := hconfig, config := rfl, armed := ⟨rfl, rfl⟩, current := rfl, target := rfl
      stage := ?_, pending := rfl, grid := fun _ => rfl, increaseArmed := rfl, increase := rfl
      unset := fun _ => rfl, decrease := ?_, checked := fun hj => absurd rfl hj, alpha := ?_
      ticked := fun hk => absurd rfl hk, value := rfl, flag := rfl, alphaLe := le_rfl
      alphaMax := min_le_right _ _, decreaseMax := min_le_right _ _, increaseMax := Nat.zero_le _
      timers := ?_ }
  · exact (Nat.zero_min _).symm
  · rw [Nat.zero_mul]
    exact hdecrease
  · show later now config.alphaIntervalNs =
      instantOf (saturatingAdd 64 now config.alphaIntervalNs + 0 * config.alphaIntervalNs)
    rw [later_eq, saturatingAdd_eq, Nat.zero_mul, Nat.add_zero, instantOf_min]
  · rintro x (hx | hx | hx)
    · replace hx : later now config.alphaIntervalNs = some x := hx
      rw [later_eq] at hx
      obtain ⟨rfl, -⟩ := instantOf_eq_some hx
      omega
    · cases hx
    · replace hx := hdecrease.symm.trans hx
      rw [saturatingAdd_eq, saturatingAdd_eq, instantOf_min] at hx
      obtain ⟨rfl, hlt⟩ := instantOf_eq_some hx
      omega

end Uses

/-! ## §8. Refinement. -/

/-- Before its first feedback a controller is pristine; afterwards it may lag. -/
def LazilyAgree (config : DcqcnControllerConfig) (l : DcqcnController) (e : EagerDcqcn) (s : Nat) :
    Prop :=
  (l = .pristine config ∧ e = .new config) ∨ ∃ k j, Behind k j l e s

/-- What one use leaves: equal states after a feedback or a freeze, equal rates after
a read, and in either case no timer before the bound. -/
def DcqcnUse.Agrees (use : DcqcnUse) (bound : Nat) (l : DcqcnController) (e : EagerDcqcn) : Prop :=
  (∀ x, e.Fires x → bound ≤ x) ∧
    match use with
    | .feedback | .freeze => l = e.asController
    | .observe => rateStateMatches l e.asController

theorem pristine_materialize (config : DcqcnControllerConfig) (hbound : bound ≤ u64Max) :
    ((pristine config).materialize bound).2 = .pristine config := by
  have hnone : min (pristine config).increaseInstant
      (pristine config).decreaseInstant = u64Max := min_self _
  unfold materialize materializeLoop
  simp only [hnone]
  rw [if_pos hbound]

theorem new_advanceTo (config : DcqcnControllerConfig) (bound : Nat) :
    (new config).advanceTo bound = .new config := by
  unfold advanceTo
  cases 4 * bound <;> rfl

theorem pristine_eq (config : DcqcnControllerConfig) :
    pristine config = (new config).asController := by
  simp [pristine, asController, new]

/-- The first feedback starts no timer before it. -/
theorem first_fires {now : Nat} (hx : ((new config).feedback now).Fires x) : now ≤ x := by
  rcases hx with hx | hx | hx
  · replace hx : later now config.alphaIntervalNs = some x := hx
    rw [later_eq] at hx
    obtain ⟨rfl, -⟩ := instantOf_eq_some hx
    exact Nat.le_add_right _ _
  · cases hx
  · obtain ⟨time, htime, hx⟩ := Option.bind_eq_some_iff.1 hx
    rw [later_eq] at htime hx
    obtain ⟨rfl, -⟩ := instantOf_eq_some htime
    obtain ⟨rfl, -⟩ := instantOf_eq_some hx
    omega

theorem LazilyAgree.use (hconfig : config.Usable)
    {s : Nat} (h : LazilyAgree config l e s) (hs : s ≤ bound) (hbound : bound ≤ u64Max)
    (use : DcqcnUse) :
    LazilyAgree config (l.use bound use) (e.use bound use) bound ∧
      use.Agrees bound (l.use bound use) (e.use bound use) := by
  rcases h with ⟨rfl, rfl⟩ | ⟨k, j, h⟩
  · cases use with
    | feedback =>
      have hfirst := Behind.first hconfig bound
      have heager : (new config).use bound .feedback =
          (new config).feedback bound := by
        show ((new config).advanceTo bound).feedback bound = _
        rw [new_advanceTo]
      rw [heager]
      exact ⟨.inr ⟨0, 0, hfirst⟩, fun x hx => first_fires hx, hfirst.eq_asController⟩
    | observe =>
      have hlazy : (pristine config).use bound .observe = .pristine config :=
        pristine_materialize config hbound
      have heager : (new config).use bound .observe = .new config :=
        new_advanceTo config bound
      rw [hlazy, heager]
      refine ⟨.inl ⟨rfl, rfl⟩, fun x hx => ?_, ?_⟩
      · rcases hx with hx | hx | hx <;> cases hx
      · rw [pristine_eq]
        exact ⟨rfl, rfl, rfl, rfl, rfl, rfl, rfl, fun _ => rfl, fun _ => rfl⟩
    | freeze =>
      have hlazy : (pristine config).use bound .freeze = .pristine config := rfl
      have heager : (new config).use bound .freeze = .new config :=
        new_advanceTo config bound
      rw [hlazy, heager]
      refine ⟨.inl ⟨rfl, rfl⟩, fun x hx => ?_, pristine_eq config⟩
      rcases hx with hx | hx | hx <;> cases hx
  · obtain ⟨hdone, k', j', hrun⟩ := h.materialize hs hbound
    cases use with
    | feedback =>
      have hfed := h.feedback hs hbound
      refine ⟨.inr ⟨0, 0, hfed⟩, fun x hx => hdone x ?_, hfed.eq_asController⟩
      have hkeep : (e.advanceTo bound).feedback bound =
          { e.advanceTo bound with alphaPending := true, decreasePending := true } := by
        simp [feedback, hrun.armed.2]
      replace hx : ((e.advanceTo bound).feedback bound).Fires x := hx
      rw [hkeep] at hx
      exact hx
    | observe => exact ⟨.inr ⟨k', j', hrun⟩, hdone, hrun.rates⟩
    | freeze =>
      have hset := h.settle hs hbound
      exact ⟨.inr ⟨0, 0, hset⟩, hdone, hset.eq_asController⟩

theorem LazilyAgree.run (hconfig : config.Usable) (uses : List (Nat × DcqcnUse)) :
    ∀ {l : DcqcnController} {e : EagerDcqcn} {s : Nat}, LazilyAgree config l e s →
      (∀ use ∈ uses, s ≤ use.1 ∧ use.1 ≤ u64Max) → uses.Pairwise (fun a b => a.1 ≤ b.1) →
      ∃ s', LazilyAgree config (l.run uses) (e.run uses) s' ∧ (s' = s ∨ ∃ use ∈ uses, s' = use.1) := by
  induction uses with
  | nil =>
    intro l e s h _ _
    exact ⟨s, h, .inl rfl⟩
  | cons use rest ih =>
    intro l e s h hrange hsorted
    obtain ⟨hle, hmax⟩ := hrange use (by simp)
    obtain ⟨hfirst, hrest⟩ := List.pairwise_cons.1 hsorted
    obtain ⟨hstep, -⟩ := h.use hconfig hle hmax use.2
    obtain ⟨s', hrun, hs'⟩ := ih hstep
      (fun other hother => ⟨hfirst other hother, (hrange other (by simp [hother])).2⟩) hrest
    refine ⟨s', hrun, .inr ?_⟩
    rcases hs' with rfl | ⟨other, hother, rfl⟩
    · exact ⟨use, by simp, rfl⟩
    · exact ⟨other, by simp [hother], rfl⟩

/-- The lazy controller refines the three-timer machine: after any uses at
nondecreasing bounds, a further feedback or freeze leaves exactly its state and a
read leaves exactly its rates. -/
theorem dcqcn_lazy_refines_eager (config : DcqcnControllerConfig) (hvalid : config.validate = .ok ())
    (hmaximum : config.maximumRateBps < width 64) (uses : List (Nat × DcqcnUse)) (bound : Nat)
    (use : DcqcnUse) (hsorted : (uses ++ [(bound, use)]).Pairwise fun a b => a.1 ≤ b.1)
    (hbound : bound ≤ u64Max) :
    use.Agrees bound ((DcqcnController.pristine config).run (uses ++ [(bound, use)]))
      ((EagerDcqcn.new config).run (uses ++ [(bound, use)])) := by
  have hconfig := DcqcnControllerConfig.usable_of_validate hvalid hmaximum
  obtain ⟨hsorted', -, hlast⟩ := List.pairwise_append.1 hsorted
  have hle : ∀ other ∈ uses, other.1 ≤ bound := fun other hother => hlast other hother (bound, use) (by simp)
  obtain ⟨s, hrun, hs⟩ := LazilyAgree.run hconfig uses
    (.inl ⟨rfl, rfl⟩ : LazilyAgree config (.pristine config) (.new config) 0)
    (fun other hother => ⟨Nat.zero_le _, (hle other hother).trans hbound⟩) hsorted'
  have hsb : s ≤ bound := by
    rcases hs with rfl | ⟨other, hother, rfl⟩
    · exact Nat.zero_le _
    · exact hle other hother
  have hstep := (hrun.use hconfig hsb hbound use).2
  unfold DcqcnController.run EagerDcqcn.run at hstep ⊢
  rw [List.foldl_append, List.foldl_append]
  exact hstep

/-- A 100 Mbit/s source: cut once, then recovering when it is frozen. -/
def sampleDcqcnConfig : DcqcnControllerConfig where
  initialRateBps := 100000000
  minimumRateBps := 1000000
  maximumRateBps := 100000000
  additiveRateBps := 5000000
  hyperRateBps := 50000000
  gQ63 := 2 ^ 59
  alphaIntervalNs := 10
  decreaseIntervalNs := 4
  increaseIntervalNs := 9
  fastRecoverySteps := 5
  clampTargetRate := true

theorem dcqcn_lazy_refines_eager_sample :
    sampleDcqcnConfig.validate = .ok () ∧
      DcqcnUse.freeze.Agrees 40
        ((DcqcnController.pristine sampleDcqcnConfig).run
          ([(3, .feedback), (15, .observe), (21, .feedback)] ++ [(40, .freeze)]))
        ((EagerDcqcn.new sampleDcqcnConfig).run
          ([(3, .feedback), (15, .observe), (21, .feedback)] ++ [(40, .freeze)])) :=
  ⟨rfl, dcqcn_lazy_refines_eager sampleDcqcnConfig rfl (by decide)
    [(3, .feedback), (15, .observe), (21, .feedback)] 40 .freeze (by simp) (by decide)⟩

end Days
