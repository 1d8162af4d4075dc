/-
  Days.Logic.TcpCurve — the window of CUBIC: its range over every history, and the
  curve that congestion avoidance follows.

  Main results: `floorCubeRoot_exact` and `cubic_window_and_curve`.
-/
import Mathlib.Analysis.SpecialFunctions.Pow.Real
import Days.Logic.TcpWindow

namespace Days

variable {cwnd value high fuel low : Nat}

/-! ## §1. The range of the window. -/

/-- The scaled window lies between one segment and the configured maximum. -/
def TcpCubic.Ranged (mss : Nat) (s : TcpCubic) : Prop :=
  s.mssBytes = mss ∧ cubicWindowScale ≤ s.cwndScaled ∧ s.cwndScaled ≤ cubicMaxWindowScaled

theorem scale_le_max : cubicWindowScale ≤ cubicMaxWindowScaled := by decide

theorem max_le_u64Max : cubicMaxWindowScaled ≤ u64Max := by decide

/-- Growth that is capped at the maximum stays in range. -/
theorem ranged_growth (h : cubicWindowScale ≤ cwnd ∧ cwnd ≤ cubicMaxWindowScaled)
    (growth : Nat) :
    cubicWindowScale ≤ min (saturatingAdd 64 cwnd growth) cubicMaxWindowScaled ∧
      min (saturatingAdd 64 cwnd growth) cubicMaxWindowScaled ≤ cubicMaxWindowScaled :=
  ⟨le_min (h.1.trans (le_saturatingAdd (h.2.trans max_le_u64Max))) scale_le_max, min_le_right _ _⟩

namespace TcpCubic

variable {mss : Nat} {s : TcpCubic}

theorem Ranged.onNewAck (h : s.Ranged mss)
    (acknowledgedBytes nowNs rttSampleNs acknowledgment : Nat) :
    (s.onNewAck acknowledgedBytes nowNs rttSampleNs acknowledgment).Ranged mss := by
  obtain ⟨hmss, hrange⟩ := h
  obtain ⟨srttNs, hsrtt⟩ := updateSrtt_eq { s with duplicateAcks := 0 } rttSampleNs
  unfold TcpCubic.onNewAck
  simp only [hsrtt]
  cases hphase : s.phase with
  | slowStart =>
    dsimp only
    split
    · split
      · exact ⟨hmss, ranged_growth hrange _⟩
      · exact ⟨hmss, ranged_growth hrange _⟩
    · exact ⟨hmss, ranged_growth hrange _⟩
  | congestionAvoidance =>
    obtain ⟨_, _, _, _, hwindow, hlow, hhigh⟩ := updateCubicWindow_eq
      { s with duplicateAcks := 0, srttNs, phase := .congestionAvoidance } nowNs
    rw [hwindow]
    exact ⟨hmss, hlow, hhigh⟩
  | fastRecovery =>
    dsimp only
    split
    · exact ⟨hmss, le_min (le_max_right _ _) scale_le_max, min_le_right _ _⟩
    · exact ⟨hmss, hrange⟩

theorem Ranged.count (h : s.Ranged mss) (duplicateAcks : Nat) :
    Ranged mss { s with duplicateAcks } := by
  obtain ⟨hmss, hlow, hhigh⟩ := h
  exact ⟨hmss, hlow, hhigh⟩

theorem Ranged.onFastRetransmit (h : s.Ranged mss) (flight now point : Nat) :
    Ranged mss { s.onFastRetransmit flight now with recoveryHighSequence := point } := by
  obtain ⟨hmss, -, -⟩ := h
  unfold Ranged TcpCubic.onFastRetransmit
  refine ⟨hmss, ?_, ?_⟩
  · exact Nat.le_min.2 ⟨Nat.le_max_right _ _, scale_le_max⟩
  · exact Nat.min_le_right _ _

theorem Ranged.onMoreDuplicateAck (h : s.Ranged mss) : s.onMoreDuplicateAck.Ranged mss := by
  unfold TcpCubic.onMoreDuplicateAck
  split
  · obtain ⟨hmss, hrange⟩ := h
    exact ⟨hmss, ranged_growth hrange _⟩
  · exact h

theorem Ranged.onTimeout (h : s.Ranged mss) (flight : Nat) : (s.onTimeout flight).Ranged mss := by
  obtain ⟨hmss, -, -⟩ := h
  exact ⟨hmss, Nat.le_refl _, scale_le_max⟩

theorem Ranged.transition (now : Nat) (input : TcpTransitionInput)
    (control : TcpCongestionControl) (h : ∃ s : TcpCubic, control = .cubic s ∧ s.Ranged mss) :
    ∃ s : TcpCubic, (control.transition now input).2 = .cubic s ∧ s.Ranged mss := by
  obtain ⟨s, rfl, hranged⟩ := h
  cases input with
  | newAck bytes rttSampleNs _ acknowledgment =>
    exact ⟨_, rfl, hranged.onNewAck bytes now rttSampleNs acknowledgment⟩
  | duplicateAck flight point =>
    have hcounted := hranged.count (saturatingAdd 64 s.duplicateAcks 1)
    rw [TcpCongestionControl.transition_duplicateAck]
    split
    · exact ⟨_, rfl, hcounted.onFastRetransmit flight now point⟩
    · split
      · exact ⟨_, rfl, hcounted.onMoreDuplicateAck⟩
      · exact ⟨_, rfl, hcounted⟩
  | timeout flight => exact ⟨_, rfl, hranged.onTimeout flight⟩

/-- Every history keeps the range. -/
theorem Ranged.history (inputs : List (Nat × TcpTransitionInput)) {control : TcpCongestionControl}
    (h : ∃ s : TcpCubic, control = .cubic s ∧ s.Ranged mss) :
    ∃ s : TcpCubic, control.history inputs = .cubic s ∧ s.Ranged mss := by
  induction inputs generalizing control with
  | nil => exact h
  | cons input inputs ih => exact ih (Ranged.transition _ _ control h)

/-- A window of at least one scaled segment holds one segment of bytes. -/
theorem Ranged.le_cwndBytes (h : s.Ranged mss) (hpos : 0 < mss) (hfits : mss ≤ u64Max) :
    mss ≤ (TcpCongestionControl.cubic s).cwndBytes := by
  obtain ⟨hmss, hlow, -⟩ := h
  have hsame : nonzeroMss s.mssBytes = mss := by
    rw [hmss]
    exact if_neg (by omega)
  show mss ≤ min (s.cwndScaled * nonzeroMss s.mssBytes / cubicWindowScale) u64Max
  rw [hsame]
  refine le_min ?_ hfits
  rw [Nat.le_div_iff_mul_le (by decide), mul_comm]
  exact Nat.mul_le_mul_right mss hlow

end TcpCubic

/-! ## §2. The cube root. -/

theorem cube_le_cube {a b : Nat} (h : a ≤ b) : cube a ≤ cube b :=
  Nat.mul_le_mul (Nat.mul_le_mul h h) h

theorem pos_of_lt_cube (h : value < cube high) : 0 < high := by
  refine Nat.pos_of_ne_zero fun hzero => ?_
  simp [hzero, cube] at h

/-- The doubling loop ends above the root or at the top of the word. -/
theorem cubeRootUpper_spec (value : Nat) (hreach : 2 ^ 63 ≤ high * 2 ^ fuel) :
    value < cube (cubeRootUpper value fuel high) ∨ 2 ^ 63 ≤ cubeRootUpper value fuel high := by
  induction fuel generalizing high with
  | zero => exact Or.inr (by simpa [cubeRootUpper] using hreach)
  | succ fuel ih =>
    unfold cubeRootUpper
    split
    · exact ih (by rwa [mul_assoc, ← pow_succ'])
    · next hstop =>
      have hhalf : u64Max / 2 = 2 ^ 63 - 1 := by decide
      rw [hhalf] at hstop
      omega

theorem cubeRootBisect_le (value : Nat) (hlow : cube low ≤ value) :
    cube (cubeRootBisect value low high) ≤ value := by
  fun_induction cubeRootBisect value low high with
  | case1 low high _ middle hmiddle ih => exact ih hmiddle
  | case2 low high _ middle _ ih => exact ih hlow
  | case3 low high _ => exact hlow

theorem lt_cubeRootBisect (value : Nat) (hlt : low < high)
    (hhigh : value < cube high) : value < cube (cubeRootBisect value low high + 1) := by
  fun_induction cubeRootBisect value low high with
  | case1 low high _ middle _ ih => exact ih (by omega) hhigh
  | case2 low high _ middle hmiddle ih => exact ih (by omega) (Nat.lt_of_not_le hmiddle)
  | case3 low high hstop =>
    have hlast : high = low + 1 := by omega
    exact hlast ▸ hhigh

/-- Below the cube of the half word the root is exact. -/
theorem floorCubeRoot_spec (hvalue : value < 2 ^ 189) :
    cube (floorCubeRoot value) ≤ value ∧ value < cube (floorCubeRoot value + 1) := by
  unfold floorCubeRoot
  split
  · next hzero => simp [cube, hzero]
  · have hupper : value < cube (cubeRootUpper value 64 1) := by
      have hreach : 2 ^ 63 ≤ 1 * 2 ^ 64 := by decide
      rcases cubeRootUpper_spec value hreach with h | h
      · exact h
      · have htop : cube (2 ^ 63) = 2 ^ 189 := by decide
        exact hvalue.trans_le (htop ▸ cube_le_cube h)
    rw [if_neg (Nat.not_le.2 hupper)]
    exact ⟨cubeRootBisect_le value (by simp [cube]),
      lt_cubeRootBisect value (pos_of_lt_cube hupper) hupper⟩

/-! ### The loops over machine words

`none` is an operation that overflows, or a loop of more than `fuel` turns. -/

def cubeRootUpperChecked (value : Nat) : Nat → Nat → Option Nat
  | 0, _ => none
  | fuel + 1, high =>
    if cube high ≤ value ∧ high ≤ u64Max / 2 then do
      let high ← checkedMul 64 high 2
      cubeRootUpperChecked value fuel high
    else some high

def cubeRootBisectChecked (value : Nat) : Nat → Nat → Nat → Option Nat
  | 0, _, _ => none
  | fuel + 1, low, high => do
    let next ← checkedAdd 64 low 1
    if next < high then
      let gap ← checkedSub high low
      let middle ← checkedAdd 64 low (gap / 2)
      if cube middle ≤ value then cubeRootBisectChecked value fuel middle high
      else cubeRootBisectChecked value fuel low middle
    else some low

def floorCubeRootChecked (value : Nat) : Option Nat :=
  if value = 0 then some 0
  else do
    let high ← cubeRootUpperChecked value 64 1
    if cube high ≤ value then some u64Max else cubeRootBisectChecked value 65 0 high

/-- A word that doubles up to the half word never overflows. -/
theorem cubeRootUpperChecked_eq (value : Nat) (hhigh : high ≤ u64Max)
    (hreach : 2 ^ 63 ≤ high * 2 ^ fuel) :
    cubeRootUpperChecked value (fuel + 1) high = some (cubeRootUpper value (fuel + 1) high) ∧
      cubeRootUpper value (fuel + 1) high ≤ u64Max := by
  have hhalf : u64Max / 2 = 2 ^ 63 - 1 := by decide
  have htop : width 64 = 2 ^ 64 := by decide
  have hmax : u64Max = 2 ^ 64 - 1 := by decide
  induction fuel generalizing high with
  | zero =>
    have hstop : ¬(cube high ≤ value ∧ high ≤ u64Max / 2) := by omega
    simp only [cubeRootUpperChecked, cubeRootUpper, if_neg hstop]
    exact ⟨trivial, hhigh⟩
  | succ fuel ih =>
    rw [cubeRootUpperChecked, cubeRootUpper]
    split
    · next hgo =>
      rw [checkedMul, if_pos (by omega)]
      exact ih (by omega) (by rwa [mul_assoc, ← pow_succ'])
    · exact ⟨rfl, hhigh⟩

/-- The gap halves at every turn. -/
theorem cubeRootBisectChecked_eq (value : Nat) (hlt : low < high)
    (hhigh : high ≤ u64Max) (hgap : high - low ≤ 2 ^ fuel) :
    cubeRootBisectChecked value (fuel + 1) low high = some (cubeRootBisect value low high) := by
  have hmax : width 64 = u64Max + 1 := by decide
  induction fuel generalizing low high with
  | zero =>
    rw [cubeRootBisectChecked, cubeRootBisect, checkedAdd_of_lt (by omega)]
    have hstop : ¬low + 1 < high := by omega
    simp [hstop]
  | succ fuel ih =>
    rw [pow_succ] at hgap
    rw [cubeRootBisectChecked, cubeRootBisect, checkedAdd_of_lt (by omega)]
    by_cases hgo : low + 1 < high
    · simp only [Option.bind_eq_bind, Option.bind_some, if_pos hgo, dif_pos hgo, checkedSub,
        if_pos hlt.le, checkedAdd_of_lt (show low + (high - low) / 2 < width 64 by omega)]
      split
      · exact ih (by omega) hhigh (by omega)
      · exact ih (by omega) (by omega) (by omega)
    · simp [hgo]

theorem floorCubeRootChecked_eq (value : Nat) :
    floorCubeRootChecked value = some (floorCubeRoot value) := by
  unfold floorCubeRootChecked floorCubeRoot
  split
  · rfl
  · obtain ⟨hwords, hle⟩ : cubeRootUpperChecked value 64 1 = some (cubeRootUpper value 64 1) ∧
        cubeRootUpper value 64 1 ≤ u64Max :=
      cubeRootUpperChecked_eq value (by decide) (by decide)
    simp only [hwords, Option.bind_eq_bind, Option.bind_some]
    by_cases hupper : cube (cubeRootUpper value 64 1) ≤ value
    · simp only [if_pos hupper]
    · have hpos := pos_of_lt_cube (Nat.lt_of_not_le hupper)
      have hmax : u64Max ≤ 2 ^ 64 := by decide
      have hgap : cubeRootUpper value 64 1 - 0 ≤ 2 ^ 64 := by omega
      simp only [if_neg hupper]
      exact cubeRootBisectChecked_eq value hpos hle hgap

/-- A natural number whose cube and whose successor's cube enclose `value` is the floor of the real
cube root. -/
theorem floor_cube_root_eq {root : Nat} (hlow : cube root ≤ value)
    (hhigh : value < cube (root + 1)) : ⌊(value : ℝ) ^ (1 / 3 : ℝ)⌋₊ = root := by
  have hcube (n : Nat) : ((cube n : Nat) : ℝ) = (n : ℝ) ^ 3 := by
    unfold cube
    push_cast
    ring
  have hnonneg : (0 : ℝ) ≤ (value : ℝ) ^ (1 / 3 : ℝ) := by positivity
  have hroot : ((value : ℝ) ^ (1 / 3 : ℝ)) ^ 3 = value := by
    rw [← Real.rpow_natCast, ← Real.rpow_mul (by positivity)]
    norm_num
  rw [Nat.floor_eq_iff hnonneg]
  constructor
  · refine le_of_pow_le_pow_left₀ three_ne_zero hnonneg ?_
    rw [hroot, ← hcube]
    exact_mod_cast hlow
  · refine lt_of_pow_lt_pow_left₀ 3 (by positivity) ?_
    rw [hroot, ← Nat.cast_succ, ← hcube]
    exact_mod_cast hhigh

/-- `floor_cube_root` ends without an overflow and is the exact integer root below `2^189`, so that
`cubic_k_ns` is the floor of the real cube root of its radicand. -/
theorem floorCubeRoot_exact :
    (∀ value : Nat, floorCubeRootChecked value = some (floorCubeRoot value)) ∧
    (∀ value < 2 ^ 189, floorCubeRoot value ^ 3 ≤ value ∧ value < (floorCubeRoot value + 1) ^ 3) ∧
    ∀ wMaxScaled ≤ u64Max,
      cubicKNs wMaxScaled = ⌊(3 * 10 ^ 18 * wMaxScaled / 4 : ℝ) ^ (1 / 3 : ℝ)⌋₊ := by
  have hcube (n : Nat) : n ^ 3 = cube n := by
    unfold cube
    ring
  refine ⟨floorCubeRootChecked_eq, fun value hvalue => ?_, fun w hw => ?_⟩
  · rw [hcube, hcube]
    exact floorCubeRoot_spec hvalue
  · have hmax : u64Max = 18446744073709551615 := by decide
    have hradicand : w * 3 * 1000000000000000000 / 4 = w * 750000000000000000 := by omega
    have hreal : (3 * 10 ^ 18 * w / 4 : ℝ) = ((w * 750000000000000000 : Nat) : ℝ) := by
      push_cast
      ring
    rw [hreal]
    unfold cubicKNs
    split
    · next hzero => simp [hzero]
    · rw [hradicand]
      have hspec := floorCubeRoot_spec (show w * 750000000000000000 < 2 ^ 189 by omega)
      exact (floor_cube_root_eq hspec.1 hspec.2).symm

/-! ## §3. The curve. -/

/-- How far the curve is from its plateau, `distance` away from `K`. -/
theorem curve_distance_mono {near far : Nat} (h : near ≤ far) :
    min (near ^ 3 * 2 / 5000000000000000000) u64Max ≤
      min (far ^ 3 * 2 / 5000000000000000000) u64Max := by
  refine min_le_min_right _ (Nat.div_le_div_right (Nat.mul_le_mul_right _ ?_))
  exact Nat.pow_le_pow_left h 3

theorem cubicWindowScaled_mono {wMax : Nat} (hwMax : wMax ≤ cubicMaxWindowScaled) (kNs : Nat) :
    Monotone (cubicWindowScaled wMax kNs) := by
  intro early late hle
  unfold cubicWindowScaled
  by_cases hlate : late < kNs
  · have hearly : early < kNs := hle.trans_lt hlate
    simp only [if_pos hlate, if_pos hearly]
    refine max_le_max_right _ (Nat.sub_le_sub_left ?_ _)
    exact curve_distance_mono (Nat.sub_le_sub_left hle kNs)
  · by_cases hearly : early < kNs
    · -- the plateau separates the two sides
      simp only [if_neg hlate, if_pos hearly]
      refine le_min (max_le_max_right _ ?_) (max_le ?_ scale_le_max)
      · exact (Nat.sub_le _ _).trans (le_saturatingAdd (hwMax.trans max_le_u64Max))
      · exact (Nat.sub_le _ _).trans hwMax
    · simp only [if_neg hlate, if_neg hearly]
      refine min_le_min_right _ (max_le_max_right _ (min_le_min_right _ ?_))
      exact Nat.add_le_add_left (curve_distance_mono (Nat.sub_le_sub_right hle kNs)) _

/-- The curve starts no lower than seven tenths of its plateau. -/
theorem le_cubicWindowScaled_zero {wMax : Nat} (hwMax : wMax ≤ cubicMaxWindowScaled) :
    wMax - 3 * wMax / 10 ≤ cubicWindowScaled wMax (cubicKNs wMax) 0 := by
  have hmax : cubicMaxWindowScaled = 2000000000000000 := by decide
  have hroot : (cubicKNs wMax) ^ 3 ≤ wMax * 3 * 1000000000000000000 / 4 := by
    have hcube (n : Nat) : n ^ 3 = cube n := by
      unfold cube
      ring
    rw [hcube]
    unfold cubicKNs
    split
    · simp [cube]
    · exact (floorCubeRoot_spec (by omega)).1
  unfold cubicWindowScaled
  by_cases hzero : 0 < cubicKNs wMax
  · simp only [if_pos hzero, Nat.sub_zero]
    refine le_max_of_le_left (Nat.sub_le_sub_left ((min_le_left _ _).trans ?_) _)
    omega
  · simp only [if_neg hzero]
    refine le_min (le_max_of_le_left ?_) ?_
    · exact (Nat.sub_le _ _).trans (le_saturatingAdd (hwMax.trans max_le_u64Max))
    · exact (Nat.sub_le _ _).trans hwMax

/-- The share of a gap that one acknowledgment covers is at most the gap. -/
theorem ack_share_le (gap cwnd : Nat) :
    gap * cubicWindowScale / max cwnd cubicWindowScale ≤ gap := by
  refine Nat.div_le_of_le_mul ?_
  rw [mul_comm]
  exact Nat.mul_le_mul_right gap (le_max_right _ _)

/-- A window below its target grows by its share of the gap. -/
theorem cubicAckStep_up {target : Nat} (hle : cwnd ≤ target) (hfits : target ≤ u64Max) :
    cubicAckStep cwnd target =
        cwnd + (target - cwnd) * cubicWindowScale / max cwnd cubicWindowScale ∧
      cwnd ≤ cubicAckStep cwnd target ∧ cubicAckStep cwnd target ≤ target := by
  have hshare := ack_share_le (target - cwnd) cwnd
  have hstep : cubicAckStep cwnd target =
      cwnd + (target - cwnd) * cubicWindowScale / max cwnd cubicWindowScale := by
    unfold cubicAckStep saturatingAdd
    rw [if_pos hle, min_eq_left (hshare.trans (by omega))]
    exact min_eq_left (show _ ≤ u64Max by omega)
  rw [hstep]
  exact ⟨rfl, Nat.le_add_right _ _, by omega⟩

/-- A window above its target shrinks by its share of the gap. -/
theorem cubicAckStep_down {target : Nat} (hle : target ≤ cwnd) (hfits : cwnd ≤ u64Max) :
    cubicAckStep cwnd target =
        cwnd - (cwnd - target) * cubicWindowScale / max cwnd cubicWindowScale ∧
      target ≤ cubicAckStep cwnd target ∧ cubicAckStep cwnd target ≤ cwnd := by
  rcases hle.eq_or_lt with rfl | hlt
  · have hstep := (cubicAckStep_up (le_refl target) hfits).1
    rw [Nat.sub_self, Nat.zero_mul, Nat.zero_div] at hstep ⊢
    rw [hstep]
    exact ⟨rfl, le_rfl, le_rfl⟩
  · have hshare := ack_share_le (cwnd - target) cwnd
    have hstep : cubicAckStep cwnd target =
        cwnd - (cwnd - target) * cubicWindowScale / max cwnd cubicWindowScale := by
      unfold cubicAckStep
      rw [if_neg (Nat.not_le.2 hlt), min_eq_left (hshare.trans (by omega))]
    rw [hstep]
    exact ⟨rfl, by omega, Nat.sub_le _ _⟩

/-- CUBIC's window stays between one segment and the maximum after every history; its curve rises
with the time since the epoch and starts at seven tenths of the plateau or above; and one
acknowledgment moves the window towards its target, by the gap's share for one window, without
passing it. -/
theorem cubic_window_and_curve :
    (∀ (mss : Nat) (inputs : List (Nat × TcpTransitionInput)), mss ≤ u64Max →
      ∃ s, (TcpCongestionControl.cubic (.ofMss mss)).history inputs = .cubic s ∧
        cubicWindowScale ≤ s.cwndScaled ∧ s.cwndScaled ≤ cubicMaxWindowScaled ∧
        nonzeroMss mss ≤ ((TcpCongestionControl.cubic (.ofMss mss)).history inputs).cwndBytes) ∧
    (∀ wMaxScaled kNs : Nat, wMaxScaled ≤ cubicMaxWindowScaled →
      Monotone (cubicWindowScaled wMaxScaled kNs)) ∧
    (∀ wMaxScaled : Nat, wMaxScaled ≤ cubicMaxWindowScaled →
      wMaxScaled - 3 * wMaxScaled / 10 ≤
        cubicWindowScaled wMaxScaled (cubicKNs wMaxScaled) 0) ∧
    (∀ cwndScaled targetScaled : Nat, cwndScaled ≤ u64Max → targetScaled ≤ u64Max →
      (cwndScaled ≤ targetScaled →
        cubicAckStep cwndScaled targetScaled = cwndScaled +
          (targetScaled - cwndScaled) * cubicWindowScale / max cwndScaled cubicWindowScale ∧
        cwndScaled ≤ cubicAckStep cwndScaled targetScaled ∧
        cubicAckStep cwndScaled targetScaled ≤ targetScaled) ∧
      (targetScaled ≤ cwndScaled →
        cubicAckStep cwndScaled targetScaled = cwndScaled -
          (cwndScaled - targetScaled) * cubicWindowScale / max cwndScaled cubicWindowScale ∧
        targetScaled ≤ cubicAckStep cwndScaled targetScaled ∧
        cubicAckStep cwndScaled targetScaled ≤ cwndScaled)) := by
  refine ⟨fun mss inputs hmss => ?_, fun _ kNs h => cubicWindowScaled_mono h kNs,
    fun _ => le_cubicWindowScaled_zero,
    fun _ _ hcwnd htarget => ⟨fun h => cubicAckStep_up h htarget, fun h => cubicAckStep_down h hcwnd⟩⟩
  have hstart : (TcpCubic.ofMss mss).Ranged (nonzeroMss mss) := ⟨rfl, le_rfl, scale_le_max⟩
  obtain ⟨s, hs, hranged⟩ := TcpCubic.Ranged.history inputs ⟨_, rfl, hstart⟩
  refine ⟨s, hs, hranged.2.1, hranged.2.2, ?_⟩
  rw [hs]
  exact hranged.le_cwndBytes (nonzeroMss_pos mss) (nonzeroMss_le hmss (by decide))

/-- A window of four segments on the way to seven, and back. -/
theorem cubic_window_and_curve_sample :
    1000 ≤ ((TcpCongestionControl.cubic (.ofMss 1000)).history [(5, .timeout 9)]).cwndBytes ∧
    cubicWindowScaled 10000000000 2000000000 1000000000 ≤ cubicWindowScaled 10000000000 2000000000 3000000000 ∧
    7000000000 ≤ cubicWindowScaled 10000000000 (cubicKNs 10000000000) 0 ∧
    cubicAckStep 4000000000 7000000000 = 4750000000 ∧ cubicAckStep 4000000000 1000000000 = 3250000000 := by
  obtain ⟨hwindow, hcurve, hplateau, hstep⟩ := cubic_window_and_curve
  obtain ⟨_, -, -, -, hcwnd⟩ := hwindow 1000 [(5, .timeout 9)] (by decide)
  have hup := (hstep 4000000000 7000000000 (by decide) (by decide)).1 (by decide)
  have hdown := (hstep 4000000000 1000000000 (by decide) (by decide)).2 (by decide)
  exact ⟨hcwnd, hcurve 10000000000 2000000000 (by decide) (by decide), hplateau 10000000000 (by decide),
    hup.1.trans (by decide), hdown.1.trans (by decide)⟩

end Days
