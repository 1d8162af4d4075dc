/-
  Days.Logic.TcpWindow — the congestion controllers along every history of inputs.

  A history is a list of new acknowledgments, duplicate acknowledgments and timeouts,
  as the sender's host records them.  Main results:
    * `reno_floor_and_growth` — for which segment sizes Reno keeps one segment and
      never shrinks on a new acknowledgment;
    * `one_reduction_per_recovery` — when an episode of fast recovery reduces the
      window once only;
    * `reno_avoidance_by_bytes` — congestion avoidance in closed form.
-/
import Days.Exec.HostTcp
import Mathlib.Algebra.BigOperators.Intervals
import Mathlib.Algebra.BigOperators.Ring.Finset
import Mathlib.Tactic.Ring

namespace Days

open List TcpCongestionControl

variable {a b credit cwnd flight : Nat}

/-! ## §1. Histories. -/

namespace TcpCongestionControl

/-- What the host does to its controller for one recorded input, and whether the
controller signals a fast retransmit. -/
def transition (nowNs : Nat) :
    TcpTransitionInput → TcpCongestionControl → Bool × TcpCongestionControl
  | .newAck acknowledgedBytes rttSampleNs _ acknowledgment, control =>
    (false, control.onNewAck acknowledgedBytes nowNs rttSampleNs acknowledgment)
  | .duplicateAck flightSizeBytes recoveryHighSequence, control =>
    let (fastRetransmit, control) := control.onDuplicateAck flightSizeBytes nowNs
    (fastRetransmit,
      if fastRetransmit then control.setRecoveryHighSequence recoveryHighSequence else control)
  | .timeout flightSizeBytes, control => (false, control.onTimeout flightSizeBytes)

/-- The controller after a history of timed inputs. -/
def history (control : TcpCongestionControl) (inputs : List (Nat × TcpTransitionInput)) :
    TcpCongestionControl :=
  inputs.foldl (fun control input => (control.transition input.1 input.2).2) control

@[simp] theorem history_nil (control : TcpCongestionControl) : control.history [] = control := rfl

@[simp] theorem history_cons (control : TcpCongestionControl) (input : Nat × TcpTransitionInput)
    (inputs : List (Nat × TcpTransitionInput)) :
    control.history (input :: inputs) =
      ((control.transition input.1 input.2).2).history inputs := rfl

theorem history_append (control : TcpCongestionControl)
    (earlier later : List (Nat × TcpTransitionInput)) :
    control.history (earlier ++ later) = (control.history earlier).history later :=
  foldl_append

/-- The three outcomes of a duplicate acknowledgment, by the count it reaches. -/
theorem transition_duplicateAck (nowNs flightSizeBytes recoveryHighSequence : Nat)
    (control : TcpCongestionControl) :
    control.transition nowNs (.duplicateAck flightSizeBytes recoveryHighSequence) =
      if control.countDuplicateAck.duplicateAcks = 3 then
        (true, (control.countDuplicateAck.onFastRetransmit flightSizeBytes nowNs).setRecoveryHighSequence
          recoveryHighSequence)
      else if control.countDuplicateAck.duplicateAcks > 3 then
        (false, control.countDuplicateAck.onMoreDuplicateAck)
      else (false, control.countDuplicateAck) := by
  simp only [transition, onDuplicateAck]
  by_cases hthree : control.countDuplicateAck.duplicateAcks = 3
  · simp only [if_pos hthree, if_true]
  · by_cases hmore : control.countDuplicateAck.duplicateAcks > 3
    · simp only [if_neg hthree, if_pos hmore, Bool.false_eq_true, if_false]
    · simp only [if_neg hthree, if_neg hmore, Bool.false_eq_true, if_false]

end TcpCongestionControl

/-- The flight of an input is a 64-bit count. -/
def TcpTransitionInput.Fits : TcpTransitionInput → Prop
  | .newAck _ _ flightSizeBytes _ => flightSizeBytes ≤ u64Max
  | .duplicateAck flightSizeBytes _ => flightSizeBytes ≤ u64Max
  | .timeout flightSizeBytes => flightSizeBytes ≤ u64Max

/-- What every transition keeps holds after every history. -/
theorem history_invariant {P : TcpCongestionControl → Prop}
    (hstep : ∀ now input control, TcpTransitionInput.Fits input → P control →
      P (control.transition now input).2)
    (inputs : List (Nat × TcpTransitionInput)) (hfits : ∀ input ∈ inputs, input.2.Fits)
    {control : TcpCongestionControl} (h : P control) : P (control.history inputs) := by
  induction inputs generalizing control with
  | nil => exact h
  | cons input inputs ih =>
    refine ih (fun i hi => hfits i (mem_cons_of_mem _ hi)) ?_
    exact hstep _ _ _ (hfits input mem_cons_self) h

/-- The host's answer to an acknowledgment is the transition of the input it records. -/
theorem onAcknowledgment_transition (c : Ctx) (tcp : TcpGenerator) (header : TcpAckHeader) :
    (onAcknowledgment c tcp header).tcp.control =
      match (onAcknowledgment c tcp header).input with
      | some input => (tcp.control.transition c.now input).2
      | none => tcp.control := by
  unfold onAcknowledgment
  dsimp only
  split
  · rfl
  · split
    · unfold onDuplicateAcknowledgment
      dsimp only
      split
      · next h => simp only [transition, h, if_true]
      · next h => simp only [transition, h, Bool.false_eq_true, if_false]
    · rfl

/-! ## §2. Saturating arithmetic. -/

theorem le_saturatingAdd (ha : a ≤ u64Max) : a ≤ saturatingAdd 64 a b :=
  le_min (Nat.le_add_right a b) ha

theorem saturatingMul_le (a b : Nat) : saturatingMul 64 a b ≤ u64Max := min_le_right _ _

theorem nonzeroMss_pos (mssBytes : Nat) : 0 < nonzeroMss mssBytes := by
  unfold nonzeroMss
  split <;> omega

theorem nonzeroMss_le {mssBytes bound : Nat} (h : mssBytes ≤ bound) (hbound : 0 < bound) :
    nonzeroMss mssBytes ≤ bound := by
  unfold nonzeroMss
  split <;> omega

/-! ## §3. The floor of Reno's window. -/

namespace TcpReno

theorem le_spendCredit (mss credit : Nat) (hcwnd : cwnd ≤ u64Max) :
    cwnd ≤ (spendCredit mss credit cwnd).2 ∧ (spendCredit mss credit cwnd).2 ≤ u64Max := by
  fun_induction spendCredit mss credit cwnd with
  | case1 credit cwnd _ ih =>
    obtain ⟨hlow, hhigh⟩ := ih (saturatingAdd_le _ _)
    exact ⟨(le_saturatingAdd hcwnd).trans hlow, hhigh⟩
  | case2 credit cwnd _ => exact ⟨le_rfl, hcwnd⟩

/-- The window and the threshold hold one segment and fit in 64 bits. -/
structure Floored (mss : Nat) (s : TcpReno) : Prop where
  segment : s.mssBytes = mss
  floor : mss ≤ s.cwndBytes
  threshold : mss ≤ s.ssthreshBytes
  cwndFits : s.cwndBytes ≤ u64Max
  ssthreshFits : s.ssthreshBytes ≤ u64Max

/-- In slow start the window has not passed the threshold. -/
def SlowBelow (s : TcpReno) : Prop := s.phase = .slowStart → s.cwndBytes ≤ s.ssthreshBytes

variable {mss : Nat} {s : TcpReno}

theorem Floored.onNewAck (h : Floored mss s) (acknowledgedBytes acknowledgment : Nat) :
    Floored mss (s.onNewAck acknowledgedBytes acknowledgment) ∧
      (s.onNewAck acknowledgedBytes acknowledgment).SlowBelow := by
  obtain ⟨hmss, hfloor, hthreshold, hcwnd, hssthresh⟩ := h
  unfold TcpReno.onNewAck
  cases hphase : s.phase with
  | slowStart =>
    dsimp only
    split
    · exact ⟨⟨hmss, hthreshold, hthreshold, hssthresh, hssthresh⟩, by simp [SlowBelow]⟩
    · next hbelow =>
      refine ⟨⟨hmss, ?_, hthreshold, saturatingAdd_le _ _, hssthresh⟩,
        fun _ => (Nat.lt_of_not_ge hbelow).le⟩
      exact hfloor.trans (le_saturatingAdd hcwnd)
  | congestionAvoidance =>
    obtain ⟨hlow, hhigh⟩ :=
      le_spendCredit s.mssBytes (saturatingAdd 64 s.caCredit acknowledgedBytes) hcwnd
    exact ⟨⟨hmss, hfloor.trans hlow, hthreshold, hhigh, hssthresh⟩, by simp [SlowBelow]⟩
  | fastRecovery =>
    dsimp only
    split
    · refine ⟨⟨hmss, hthreshold.trans (le_max_left _ _), hthreshold, ?_, hssthresh⟩, ?_⟩
      · exact max_le hssthresh (hmss.le.trans (hthreshold.trans hssthresh))
      · simp [SlowBelow, onRecoveryExit]
    · refine ⟨⟨hmss, ?_, hthreshold, saturatingAdd_le _ _, hssthresh⟩, by simp [SlowBelow]⟩
      exact hthreshold.trans (le_saturatingAdd hssthresh)

/-- Outside fast recovery a new acknowledgment does not shrink the window. -/
theorem Floored.le_onNewAck (h : Floored mss s) (hslow : s.SlowBelow)
    (hphase : s.phase ≠ .fastRecovery) (acknowledgedBytes acknowledgment : Nat) :
    s.cwndBytes ≤ (s.onNewAck acknowledgedBytes acknowledgment).cwndBytes := by
  unfold TcpReno.onNewAck
  cases hcase : s.phase with
  | slowStart =>
    dsimp only
    split
    · exact hslow hcase
    · exact le_saturatingAdd h.cwndFits
  | congestionAvoidance => exact (le_spendCredit _ _ h.cwndFits).1
  | fastRecovery => exact absurd hcase hphase

theorem Floored.onFastRetransmit (h : Floored mss s) (hmss : mss * 2 ≤ u64Max)
    (hflight : flight ≤ u64Max) : Floored mss (s.onFastRetransmit flight) := by
  obtain ⟨rfl, -, -, -, -⟩ := h
  have hthreshold : s.mssBytes ≤ max (flight / 2) (saturatingMul 64 s.mssBytes 2) :=
    le_max_of_le_right ((Nat.le_mul_of_pos_right _ two_pos).trans (le_min le_rfl hmss))
  have hfits : max (flight / 2) (saturatingMul 64 s.mssBytes 2) ≤ u64Max :=
    max_le ((Nat.div_le_self _ _).trans hflight) (saturatingMul_le _ _)
  exact ⟨rfl, hthreshold.trans (le_saturatingAdd hfits), hthreshold, saturatingAdd_le _ _, hfits⟩

theorem Floored.onMoreDuplicateAck (h : Floored mss s) : Floored mss s.onMoreDuplicateAck := by
  unfold TcpReno.onMoreDuplicateAck
  split
  · exact ⟨h.segment, h.floor.trans (le_saturatingAdd h.cwndFits), h.threshold, saturatingAdd_le _ _,
      h.ssthreshFits⟩
  · exact h

theorem SlowBelow.onMoreDuplicateAck (h : s.SlowBelow) : s.onMoreDuplicateAck.SlowBelow := by
  unfold TcpReno.onMoreDuplicateAck
  split
  · next hphase => simp [SlowBelow, hphase]
  · exact h

theorem Floored.onTimeout (h : Floored mss s) (hmss : mss * 2 ≤ u64Max) (hflight : flight ≤ u64Max) :
    Floored mss (s.onTimeout flight) ∧ (s.onTimeout flight).SlowBelow := by
  have hreduced := h.onFastRetransmit hmss hflight
  refine ⟨⟨hreduced.segment, h.segment.ge, hreduced.threshold, ?_, hreduced.ssthreshFits⟩, fun _ => ?_⟩
  · exact h.segment.le.trans (by omega)
  · exact h.segment.le.trans hreduced.threshold

end TcpReno

/-- The invariant of a Reno history: the floor, and with `growth` the slow-start bound. -/
def RenoKeeps (mss : Nat) (growth : Prop) (control : TcpCongestionControl) : Prop :=
  ∃ s, control = .reno s ∧ s.Floored mss ∧ (growth → s.SlowBelow)

theorem RenoKeeps.transition {mss : Nat} {growth : Prop} (hmss : mss * 2 ≤ u64Max) (now : Nat)
    (input : TcpTransitionInput) (control : TcpCongestionControl) (hfits : input.Fits)
    (h : RenoKeeps mss growth control) : RenoKeeps mss growth (control.transition now input).2 := by
  obtain ⟨s, rfl, hfloor, hslow⟩ := h
  cases input with
  | newAck acknowledgedBytes rttSampleNs flightSizeBytes acknowledgment =>
    obtain ⟨hfloor, hslow⟩ := hfloor.onNewAck acknowledgedBytes acknowledgment
    exact ⟨_, rfl, hfloor, fun _ => hslow⟩
  | duplicateAck flightSizeBytes recoveryHighSequence =>
    -- counting the duplicate touches neither the window nor the threshold
    have hcounted : TcpReno.Floored mss
        { s with duplicateAcks := saturatingAdd 64 s.duplicateAcks 1 } :=
      ⟨hfloor.segment, hfloor.floor, hfloor.threshold, hfloor.cwndFits, hfloor.ssthreshFits⟩
    rw [transition_duplicateAck]
    split
    · obtain ⟨h1, h2, h3, h4, h5⟩ := hcounted.onFastRetransmit hmss hfits
      exact ⟨_, rfl, ⟨h1, h2, h3, h4, h5⟩, fun _ => by simp [TcpReno.SlowBelow,
        TcpReno.onFastRetransmit]⟩
    · split
      · exact ⟨_, rfl, hcounted.onMoreDuplicateAck,
          fun hgrowth => TcpReno.SlowBelow.onMoreDuplicateAck (hslow hgrowth)⟩
      · exact ⟨_, rfl, hcounted, hslow⟩
  | timeout flightSizeBytes =>
    obtain ⟨hfloor, hslow⟩ := hfloor.onTimeout hmss hfits
    exact ⟨_, rfl, hfloor, fun _ => hslow⟩

theorem RenoKeeps.start {mss : Nat} (hmss : mss ≤ initialSsthreshBytes) :
    RenoKeeps (nonzeroMss mss) (2 * mss ≤ initialSsthreshBytes) (.reno (TcpReno.ofMss mss)) := by
  have hle : nonzeroMss mss ≤ initialSsthreshBytes := nonzeroMss_le hmss (by decide)
  have hwide : initialSsthreshBytes * 2 ≤ u64Max := by decide
  have hfits : initialSsthreshBytes ≤ u64Max := by decide
  have hcwnd : (TcpReno.ofMss mss).cwndBytes = nonzeroMss mss * 2 :=
    min_eq_left (le_trans (by omega) hwide)
  refine ⟨_, rfl, ⟨rfl, by omega, hle, saturatingMul_le _ _, hfits⟩, fun hgrowth _ => ?_⟩
  rw [hcwnd]
  show nonzeroMss mss * 2 ≤ initialSsthreshBytes
  unfold nonzeroMss
  split
  · decide
  · omega

/-- Reno keeps a window of one segment exactly for segments of at most 65535 bytes, and
outside fast recovery a new acknowledgment never shrinks the window exactly for segments
of at most 32767 bytes: the first acknowledgment clamps the initial window of two segments
to the threshold of 65535 bytes. -/
theorem reno_floor_and_growth (mss : Nat) :
    ((∀ inputs : List (Nat × TcpTransitionInput), (∀ input ∈ inputs, input.2.Fits) →
        nonzeroMss mss ≤ ((TcpCongestionControl.reno (.ofMss mss)).history inputs).cwndBytes) ↔
      mss ≤ initialSsthreshBytes) ∧
    ((∀ inputs : List (Nat × TcpTransitionInput), (∀ input ∈ inputs, input.2.Fits) →
        ((TcpCongestionControl.reno (.ofMss mss)).history inputs).phase ≠ .fastRecovery →
        ∀ acknowledgedBytes nowNs rttSampleNs acknowledgment,
          ((TcpCongestionControl.reno (.ofMss mss)).history inputs).cwndBytes ≤
            (((TcpCongestionControl.reno (.ofMss mss)).history inputs).onNewAck
              acknowledgedBytes nowNs rttSampleNs acknowledgment).cwndBytes) ↔
      2 * mss ≤ initialSsthreshBytes) := by
  have hwide : initialSsthreshBytes * 2 ≤ u64Max := by decide
  have hkeeps (hle : mss ≤ initialSsthreshBytes) (inputs : List (Nat × TcpTransitionInput))
      (hfits : ∀ input ∈ inputs, input.2.Fits) :
      RenoKeeps (nonzeroMss mss) (2 * mss ≤ initialSsthreshBytes)
        ((reno (.ofMss mss)).history inputs) := by
    have hle' : nonzeroMss mss ≤ initialSsthreshBytes := nonzeroMss_le hle (by decide)
    exact history_invariant (RenoKeeps.transition (by omega)) inputs hfits (RenoKeeps.start hle)
  -- the first acknowledgment leaves slow start when two segments reach the threshold
  have hfirst (hlarge : ¬ 2 * mss ≤ initialSsthreshBytes) :
      ((reno (.ofMss mss)).onNewAck 1 0 1 1).cwndBytes =
        initialSsthreshBytes ∧
      initialSsthreshBytes < (reno (.ofMss mss)).cwndBytes := by
    have hne : nonzeroMss mss = mss := if_neg (by omega)
    have hcwnd : initialSsthreshBytes < saturatingMul 64 (nonzeroMss mss) 2 := by
      rw [hne]
      exact lt_min (by omega) (by decide)
    have hreach : initialSsthreshBytes ≤
        saturatingAdd 64 (saturatingMul 64 (nonzeroMss mss) 2) (min (nonzeroMss mss) 1) :=
      hcwnd.le.trans (le_saturatingAdd (saturatingMul_le _ _))
    refine ⟨?_, hcwnd⟩
    simp only [onNewAck, TcpReno.onNewAck, TcpReno.ofMss,
      cwndBytes, ge_iff_le, if_pos hreach]
  refine ⟨⟨fun h => ?_, fun hle inputs hfits => ?_⟩, ⟨fun h => ?_, fun hle inputs hfits hphase => ?_⟩⟩
  · by_contra hlarge
    have hlow := h [(0, .newAck 1 1 0 1)] (by simp [TcpTransitionInput.Fits])
    have hne : nonzeroMss mss = mss := if_neg (by omega)
    rw [history_cons, history_nil, hne] at hlow
    have := (hfirst (by omega)).1
    simp only [transition] at hlow
    omega
  · obtain ⟨s, hs, hfloor, -⟩ := hkeeps hle inputs hfits
    rw [hs]
    exact hfloor.floor
  · by_contra hlarge
    have hgrow := h [] (by simp) (by simp [phase, TcpReno.ofMss]) 1 0 1 1
    obtain ⟨hnew, hold⟩ := hfirst hlarge
    rw [history_nil, hnew] at hgrow
    omega
  · obtain ⟨s, hs, hfloor, hslow⟩ := hkeeps (by omega) inputs hfits
    rw [hs] at hphase ⊢
    intro acknowledgedBytes _ _ acknowledgment
    exact hfloor.le_onNewAck (hslow hle) hphase acknowledgedBytes acknowledgment

/-- With segments of 70000 bytes the first acknowledgment takes the window from 140000 bytes
to 65535, below one segment. -/
theorem reno_first_ack_shrinks :
    (TcpCongestionControl.reno (.ofMss 70000)).cwndBytes = 140000 ∧
    ((TcpCongestionControl.reno (.ofMss 70000)).onNewAck 70000 1000 1000 70000).cwndBytes =
      65535 := by
  decide

/-! ## §4. Episodes of fast recovery. -/

namespace TcpTransitionInput

/-- A new acknowledgment below the recovery point. -/
def IsPartial (high : Nat) : TcpTransitionInput → Prop
  | newAck _ _ _ acknowledgment => acknowledgment < high
  | _ => False

def IsDuplicate : TcpTransitionInput → Prop
  | duplicateAck _ _ => True
  | _ => False

end TcpTransitionInput

/-- Somewhere a partial acknowledgment is followed by three duplicates. -/
def TripleAfterPartial (high : Nat) (inputs : List (Nat × TcpTransitionInput)) : Prop :=
  ∃ ack first second third, ack.2.IsPartial high ∧ first.2.IsDuplicate ∧ second.2.IsDuplicate ∧
    third.2.IsDuplicate ∧ [ack, first, second, third] <:+: inputs

/-- The slow-start threshold in the controller's own unit. -/
def TcpCongestionControl.threshold : TcpCongestionControl → Nat
  | reno s => s.ssthreshBytes
  | cubic s => s.ssthreshScaled

/-- The controller is in the episode that ends at `high`, with the threshold it set there. -/
structure InRecovery (high threshold : Nat) (control : TcpCongestionControl) : Prop where
  phase : control.phase = .fastRecovery
  point : control.recoveryHighSequence = high
  threshold : control.threshold = threshold

section Recovery

variable {high threshold : Nat} {control : TcpCongestionControl}

theorem TcpCubic.updateSrtt_eq (s : TcpCubic) (sampleNs : Nat) :
    ∃ srttNs, s.updateSrtt sampleNs = { s with srttNs } := by
  unfold TcpCubic.updateSrtt
  split
  · exact ⟨_, rfl⟩
  · exact ⟨_, rfl⟩

/-- A window update writes the window and the epoch only. -/
theorem TcpCubic.updateCubicWindow_eq (s : TcpCubic) (nowNs : Nat) :
    ∃ cwndScaled epochStartNs wMaxScaled kNs, s.updateCubicWindow nowNs =
      { s with cwndScaled, epochStartNs, wMaxScaled, kNs } ∧
      cubicWindowScale ≤ cwndScaled ∧ cwndScaled ≤ cubicMaxWindowScaled := by
  have hepoch : ∃ epochStartNs wMaxScaled kNs, s.ensureEpoch nowNs =
      { s with epochStartNs, wMaxScaled, kNs } := by
    unfold TcpCubic.ensureEpoch
    split
    · split
      · exact ⟨_, _, _, rfl⟩
      · exact ⟨_, _, _, rfl⟩
    · exact ⟨_, _, _, rfl⟩
  obtain ⟨epochStartNs, wMaxScaled, kNs, hepoch⟩ := hepoch
  have hscale : cubicWindowScale ≤ cubicMaxWindowScaled := by decide
  unfold TcpCubic.updateCubicWindow
  rw [hepoch]
  dsimp only
  split
  · refine ⟨_, _, _, _, rfl, le_min ?_ hscale, min_le_right _ _⟩
    exact le_min (le_max_right _ _) hscale
  · exact ⟨_, _, _, _, rfl, le_min (le_max_right _ _) hscale, min_le_right _ _⟩

/-- A new acknowledgment clears the duplicates, and never enters fast recovery. -/
theorem onNewAck_effect (acknowledgedBytes nowNs rttSampleNs acknowledgment : Nat)
    (control : TcpCongestionControl) :
    (control.onNewAck acknowledgedBytes nowNs rttSampleNs acknowledgment).duplicateAcks = 0 ∧
      ((control.onNewAck acknowledgedBytes nowNs rttSampleNs acknowledgment).phase = .fastRecovery →
        control.phase = .fastRecovery) := by
  cases control with
  | reno s =>
    simp only [onNewAck, TcpReno.onNewAck, duplicateAcks, phase]
    cases s.phase with
    | slowStart => dsimp only; split <;> exact ⟨rfl, nofun⟩
    | congestionAvoidance => exact ⟨rfl, nofun⟩
    | fastRecovery => exact ⟨by dsimp only; split <;> rfl, fun _ => rfl⟩
  | cubic s =>
    obtain ⟨srttNs, hsrtt⟩ := TcpCubic.updateSrtt_eq { s with duplicateAcks := 0 } rttSampleNs
    simp only [onNewAck, TcpCubic.onNewAck, hsrtt, duplicateAcks, phase]
    cases s.phase with
    | slowStart =>
      dsimp only
      split
      · split <;> exact ⟨rfl, nofun⟩
      · exact ⟨rfl, nofun⟩
    | congestionAvoidance =>
      obtain ⟨_, _, _, _, hwindow, -, -⟩ := TcpCubic.updateCubicWindow_eq
        { s with duplicateAcks := 0, srttNs, phase := .congestionAvoidance } nowNs
      rw [hwindow]
      exact ⟨rfl, nofun⟩
    | fastRecovery => exact ⟨by dsimp only; split <;> rfl, fun _ => rfl⟩

theorem onNewAck_duplicateAcks (acknowledgedBytes nowNs rttSampleNs acknowledgment : Nat)
    (control : TcpCongestionControl) :
    (control.onNewAck acknowledgedBytes nowNs rttSampleNs acknowledgment).duplicateAcks = 0 :=
  (onNewAck_effect ..).1

/-- A partial acknowledgment keeps the episode. -/
theorem InRecovery.onNewAck (h : InRecovery high threshold control)
    {acknowledgedBytes nowNs rttSampleNs acknowledgment : Nat} (hbelow : acknowledgment < high) :
    InRecovery high threshold
      (control.onNewAck acknowledgedBytes nowNs rttSampleNs acknowledgment) := by
  cases control with
  | reno s =>
    obtain ⟨(hphase : s.phase = _), (hpoint : s.recoveryHighSequence = _), hthreshold⟩ := h
    have hstay : ¬ (s.recoveryHighSequence ≠ 0 ∧ acknowledgment ≥ s.recoveryHighSequence) := by
      omega
    simp only [onNewAck, TcpReno.onNewAck, hphase, if_neg hstay]
    exact ⟨rfl, hpoint, hthreshold⟩
  | cubic s =>
    obtain ⟨(hphase : s.phase = _), (hpoint : s.recoveryHighSequence = _), hthreshold⟩ := h
    have hstay : ¬ (s.recoveryHighSequence ≠ 0 ∧ acknowledgment ≥ s.recoveryHighSequence) := by
      omega
    obtain ⟨srttNs, hsrtt⟩ := TcpCubic.updateSrtt_eq { s with duplicateAcks := 0 } rttSampleNs
    simp only [onNewAck, TcpCubic.onNewAck, hsrtt]
    simp only [hphase, if_neg hstay]
    exact ⟨rfl, hpoint, hthreshold⟩

theorem countDuplicateAck_duplicateAcks (control : TcpCongestionControl) :
    control.countDuplicateAck.duplicateAcks = saturatingAdd 64 control.duplicateAcks 1 := by
  cases control with
  | reno s => rfl
  | cubic s => rfl

theorem InRecovery.countDuplicateAck (h : InRecovery high threshold control) :
    InRecovery high threshold control.countDuplicateAck := by
  cases control with
  | reno s => exact ⟨h.phase, h.point, h.threshold⟩
  | cubic s => exact ⟨h.phase, h.point, h.threshold⟩

/-- Further duplicates write the window only. -/
theorem onMoreDuplicateAck_keeps (control : TcpCongestionControl) :
    control.onMoreDuplicateAck.phase = control.phase ∧
      control.onMoreDuplicateAck.recoveryHighSequence = control.recoveryHighSequence ∧
      control.onMoreDuplicateAck.threshold = control.threshold ∧
      control.onMoreDuplicateAck.duplicateAcks = control.duplicateAcks := by
  cases control with
  | reno s =>
    simp only [onMoreDuplicateAck, TcpReno.onMoreDuplicateAck]
    split <;> simp [phase, recoveryHighSequence, TcpCongestionControl.threshold, duplicateAcks]
  | cubic s =>
    simp only [onMoreDuplicateAck, TcpCubic.onMoreDuplicateAck]
    split <;> simp [phase, recoveryHighSequence, TcpCongestionControl.threshold, duplicateAcks]

/-- A duplicate that is not the third of its count keeps the episode and signals nothing. -/
theorem InRecovery.duplicate (h : InRecovery high threshold control) (now flight point : Nat)
    (hcount : saturatingAdd 64 control.duplicateAcks 1 ≠ 3) :
    (control.transition now (.duplicateAck flight point)).1 = false ∧
      InRecovery high threshold (control.transition now (.duplicateAck flight point)).2 ∧
      (control.transition now (.duplicateAck flight point)).2.duplicateAcks =
        saturatingAdd 64 control.duplicateAcks 1 := by
  rw [transition_duplicateAck, countDuplicateAck_duplicateAcks, if_neg hcount]
  split
  · obtain ⟨hphase, hpoint, hthreshold, hduplicates⟩ := onMoreDuplicateAck_keeps control.countDuplicateAck
    have h := h.countDuplicateAck
    exact ⟨rfl, ⟨hphase.trans h.phase, hpoint.trans h.point, hthreshold.trans h.threshold⟩,
      hduplicates.trans (countDuplicateAck_duplicateAcks control)⟩
  · exact ⟨rfl, h.countDuplicateAck, countDuplicateAck_duplicateAcks control⟩

/-- The count of duplicates read from the episode so far: past three while no partial
acknowledgment has come, the duplicates since the last one afterwards. -/
def CountsSince (high count : Nat) (inputs : List (Nat × TcpTransitionInput)) : Prop :=
  3 ≤ count ∨ ∃ before ack duplicates, inputs = before ++ ack :: duplicates ∧
    ack.2.IsPartial high ∧ (∀ input ∈ duplicates, input.2.IsDuplicate) ∧ duplicates.length = count

theorem CountsSince.not_third {count : Nat} {inputs : List (Nat × TcpTransitionInput)}
    {input : Nat × TcpTransitionInput} (h : CountsSince high count inputs)
    (hinput : input.2.IsDuplicate) (hcalm : ¬ TripleAfterPartial high (inputs ++ [input])) :
    saturatingAdd 64 count 1 ≠ 3 := by
  have hwide : 3 < u64Max := by decide
  have hcount : saturatingAdd 64 count 1 = min (count + 1) u64Max := rfl
  obtain hcount' | ⟨before, ack, duplicates, rfl, hack, hduplicates, hlength⟩ := h
  · omega
  · rw [hcount]
    intro hthree
    obtain ⟨first, second, rfl⟩ := length_eq_two.1 (show duplicates.length = 2 by omega)
    refine hcalm ⟨ack, first, second, input, hack, hduplicates _ (by simp), hduplicates _ (by simp),
      hinput, before, [], ?_⟩
    simp

/-- One input of a calm episode keeps the episode and signals nothing. -/
theorem InRecovery.transition (h : InRecovery high threshold control)
    {earlier : List (Nat × TcpTransitionInput)}
    (hcounts : CountsSince high control.duplicateAcks earlier) {input : Nat × TcpTransitionInput}
    (hinput : input.2.IsPartial high ∨ input.2.IsDuplicate)
    (hcalm : ¬ TripleAfterPartial high (earlier ++ [input])) :
    (control.transition input.1 input.2).1 = false ∧
      InRecovery high threshold (control.transition input.1 input.2).2 ∧
      CountsSince high (control.transition input.1 input.2).2.duplicateAcks
        (earlier ++ [input]) := by
  obtain ⟨now, input⟩ := input
  cases input with
  | newAck acknowledgedBytes rttSampleNs flight acknowledgment =>
    have hbelow : acknowledgment < high := hinput.resolve_right (by simp [TcpTransitionInput.IsDuplicate])
    refine ⟨rfl, h.onNewAck hbelow, .inr ⟨earlier, _, [], rfl, hbelow, by simp, ?_⟩⟩
    exact (onNewAck_duplicateAcks _ _ _ _ control).symm
  | duplicateAck flight point =>
    have hduplicate : (now, TcpTransitionInput.duplicateAck flight point).2.IsDuplicate := trivial
    have hnot : saturatingAdd 64 control.duplicateAcks 1 ≠ 3 := hcounts.not_third hduplicate hcalm
    obtain ⟨hsignal, hkeeps, hnext⟩ := h.duplicate now flight point hnot
    refine ⟨hsignal, hkeeps, ?_⟩
    rw [hnext]
    have hwide : 3 < u64Max := by decide
    have hsum : saturatingAdd 64 control.duplicateAcks 1 = min (control.duplicateAcks + 1) u64Max := rfl
    rcases hcounts with hpast | ⟨before, ack, duplicates, rfl, hack, hduplicates, hlength⟩
    · exact .inl (by omega)
    · by_cases hlow : control.duplicateAcks < 3
      · refine .inr ⟨before, ack, duplicates ++ [(now, .duplicateAck flight point)], by simp, hack,
          ?_, ?_⟩
        · exact forall_mem_append.2 ⟨hduplicates, forall_mem_singleton.2 trivial⟩
        · rw [length_append, hlength, hsum]
          simp only [length_singleton]
          omega
      · exact .inl (by omega)
  | timeout flight => exact (hinput.elim id id).elim

/-- A calm stretch of an episode, input by input. -/
theorem InRecovery.history {inputs : List (Nat × TcpTransitionInput)}
    {earlier : List (Nat × TcpTransitionInput)} (h : InRecovery high threshold control)
    (hcounts : CountsSince high control.duplicateAcks earlier)
    (hepisode : ∀ input ∈ inputs, input.2.IsPartial high ∨ input.2.IsDuplicate)
    (hcalm : ¬ TripleAfterPartial high (earlier ++ inputs)) :
    InRecovery high threshold (control.history inputs) ∧
      CountsSince high (control.history inputs).duplicateAcks (earlier ++ inputs) := by
  induction inputs generalizing control earlier with
  | nil => simpa using ⟨h, hcounts⟩
  | cons input inputs ih =>
    have hstep : ¬ TripleAfterPartial high (earlier ++ [input]) := by
      rintro ⟨ack, first, second, third, hack, hfirst, hsecond, hthird, hinfix⟩
      refine hcalm ⟨ack, first, second, third, hack, hfirst, hsecond, hthird, hinfix.trans ?_⟩
      exact ⟨[], inputs, by simp⟩
    obtain ⟨-, hkeeps, hnext⟩ := h.transition hcounts (hepisode input mem_cons_self) hstep
    have hrest := ih hkeeps hnext (fun i hi => hepisode i (mem_cons_of_mem _ hi))
      (by rwa [append_assoc, singleton_append])
    rwa [append_assoc, singleton_append] at hrest

/-- Three duplicates after a new acknowledgment signal a fast retransmit. -/
theorem third_duplicate_signals (control : TcpCongestionControl)
    {first second third : Nat × TcpTransitionInput} (hzero : control.duplicateAcks = 0)
    (hfirst : first.2.IsDuplicate) (hsecond : second.2.IsDuplicate) (hthird : third.2.IsDuplicate) :
    ((control.history [first, second]).transition third.1 third.2).1 = true := by
  -- below three a duplicate is counted and nothing else
  have hcounted (control : TcpCongestionControl) {input : Nat × TcpTransitionInput}
      (hinput : input.2.IsDuplicate) (hlow : control.duplicateAcks < 2) :
      (control.transition input.1 input.2).2.duplicateAcks = control.duplicateAcks + 1 := by
    obtain ⟨now, input⟩ := input
    have hsum : control.countDuplicateAck.duplicateAcks = control.duplicateAcks + 1 :=
      (countDuplicateAck_duplicateAcks control).trans (min_eq_left (le_trans (by omega) (show 2 ≤ _ by decide)))
    cases input with
    | newAck => exact hinput.elim
    | timeout => exact hinput.elim
    | duplicateAck flight point =>
      rw [transition_duplicateAck, if_neg (by omega), if_neg (by omega)]
      exact hsum
  have htwo : (control.history [first, second]).duplicateAcks = 2 := by
    rw [history_cons, history_cons, history_nil, hcounted _ hsecond, hcounted _ hfirst, hzero]
    · omega
    · rw [hcounted _ hfirst] <;> omega
  obtain ⟨now, third⟩ := third
  cases third with
  | newAck => exact hthird.elim
  | timeout => exact hthird.elim
  | duplicateAck flight point =>
    rw [transition_duplicateAck, countDuplicateAck_duplicateAcks, htwo, if_pos (by decide)]

/-- The transition that signals enters the episode with three duplicates counted. -/
theorem inRecovery_of_signal {now : Nat} (hsignal : (control.onDuplicateAck flight now).1 = true) :
    let entered := (control.transition now (.duplicateAck flight high)).2
    InRecovery high entered.threshold entered ∧ entered.duplicateAcks = 3 := by
  have hthree : control.countDuplicateAck.duplicateAcks = 3 := by
    by_contra hne
    simp only [onDuplicateAck, if_neg hne] at hsignal
    split at hsignal <;> cases hsignal
  simp only [transition_duplicateAck, if_pos hthree]
  cases control with
  | reno s =>
    simp only [countDuplicateAck, duplicateAcks] at hthree
    refine ⟨⟨rfl, rfl, rfl⟩, ?_⟩
    simp only [countDuplicateAck, onFastRetransmit, TcpReno.onFastRetransmit,
      setRecoveryHighSequence, duplicateAcks, hthree]
  | cubic s =>
    simp only [countDuplicateAck, duplicateAcks] at hthree
    refine ⟨⟨rfl, rfl, rfl⟩, ?_⟩
    simp only [countDuplicateAck, onFastRetransmit, TcpCubic.onFastRetransmit,
      setRecoveryHighSequence, duplicateAcks, hthree]

/-- From the entry into fast recovery until an acknowledgment reaches the recovery point or a
timeout fires, a second fast retransmit is signalled exactly if a partial acknowledgment is
followed by three duplicates; if none is, the threshold does not change either. -/
theorem one_reduction_per_recovery (control : TcpCongestionControl) (flight now high : Nat)
    (hsignal : (control.onDuplicateAck flight now).1 = true)
    (inputs : List (Nat × TcpTransitionInput))
    (hepisode : ∀ input ∈ inputs, input.2.IsPartial high ∨ input.2.IsDuplicate) :
    let entered := (control.transition now (.duplicateAck flight high)).2
    ((∀ earlier input later, inputs = earlier ++ input :: later →
        ((entered.history earlier).transition input.1 input.2).1 = false) ↔
      ¬ TripleAfterPartial high inputs) ∧
    (¬ TripleAfterPartial high inputs → ∀ earlier later, inputs = earlier ++ later →
      (entered.history earlier).threshold = entered.threshold ∧
        (entered.history earlier).phase = .fastRecovery) := by
  intro entered
  obtain ⟨hentered, hthree⟩ : InRecovery high entered.threshold entered ∧ entered.duplicateAcks = 3 :=
    inRecovery_of_signal hsignal
  have hcounts : CountsSince high entered.duplicateAcks [] := .inl hthree.ge
  have hearlier (hcalm : ¬ TripleAfterPartial high inputs) {earlier later}
      (heq : inputs = earlier ++ later) : ¬ TripleAfterPartial high ([] ++ earlier) := by
    rintro ⟨ack, first, second, third, hack, hfirst, hsecond, hthird, hinfix⟩
    exact hcalm ⟨ack, first, second, third, hack, hfirst, hsecond, hthird,
      hinfix.trans ⟨[], later, by simp [heq]⟩⟩
  refine ⟨⟨?_, ?_⟩, ?_⟩
  · rintro hquiet ⟨ack, first, second, third, hack, hfirst, hsecond, hthird, before, after, heq⟩
    have hzero : (entered.history (before ++ [ack])).duplicateAcks = 0 := by
      rw [history_append, history_cons, history_nil]
      obtain ⟨time, ack⟩ := ack
      cases ack with
      | newAck => exact onNewAck_duplicateAcks _ _ _ _ _
      | duplicateAck => exact hack.elim
      | timeout => exact hack.elim
    have hagain := third_duplicate_signals _ hzero hfirst hsecond hthird
    rw [← history_append] at hagain
    have hfalse := hquiet (before ++ [ack] ++ [first, second]) third after (by simp [← heq])
    rw [hfalse] at hagain
    cases hagain
  · intro hcalm earlier input later heq
    have hmem : ∀ i ∈ earlier, i.2.IsPartial high ∨ i.2.IsDuplicate :=
      fun i hi => hepisode i (by simp [heq, hi])
    obtain ⟨hkeeps, hnext⟩ := hentered.history hcounts hmem (hearlier hcalm heq)
    have hcalm' := hearlier hcalm (heq.trans (append_cons earlier input later))
    exact (hkeeps.transition hnext (hepisode input (by simp [heq])) hcalm').1
  · intro hcalm earlier later heq
    have hmem : ∀ i ∈ earlier, i.2.IsPartial high ∨ i.2.IsDuplicate :=
      fun i hi => hepisode i (by simp [heq, hi])
    obtain ⟨hkeeps, -⟩ := hentered.history hcounts hmem (hearlier hcalm heq)
    exact ⟨hkeeps.threshold, hkeeps.phase⟩

/-- An episode with duplicates before and after one partial acknowledgment. -/
theorem one_reduction_per_recovery_calm :
    let control := TcpCongestionControl.reno { TcpReno.ofMss 1000 with duplicateAcks := 2 }
    let entered := (control.transition 7 (.duplicateAck 20000 20000)).2
    ∀ earlier later, [(8, .duplicateAck 20000 20000), (9, .newAck 5000 6 20000 5000),
        (10, .duplicateAck 15000 20000)] = earlier ++ later →
      (entered.history earlier).threshold = entered.threshold ∧
        (entered.history earlier).phase = .fastRecovery := by
  intro control entered
  have hsignal : (control.onDuplicateAck 20000 7).1 = true := by decide
  refine (one_reduction_per_recovery control 20000 7 20000 hsignal [_, _, _] ?_).2 ?_
  · simp [TcpTransitionInput.IsPartial, TcpTransitionInput.IsDuplicate]
  · rintro ⟨_, _, _, _, -, -, -, -, hinfix⟩
    exact absurd hinfix.length_le (by simp)

/-- The third duplicate enters fast recovery; after a partial acknowledgment, three more signal
again and lower the threshold. -/
def ReducesTwice (control : TcpCongestionControl) : Prop :=
  let entered := (control.transition 7 (.duplicateAck 20000 20000)).2
  let later := entered.history [(8, .newAck 5000 6 20000 5000), (9, .duplicateAck 15000 20000),
    (10, .duplicateAck 15000 20000)]
  (control.onDuplicateAck 20000 7).1 = true ∧ later.phase = .fastRecovery ∧
  later.threshold = entered.threshold ∧
  (later.transition 11 (.duplicateAck 15000 20000)).1 = true ∧
  (later.transition 11 (.duplicateAck 15000 20000)).2.threshold < entered.threshold

/-- A partial acknowledgment resets the count, and the third duplicate after it reduces the
threshold a second time in the same episode, for Reno and for CUBIC. -/
theorem second_reduction_in_one_episode :
    ReducesTwice (.reno { TcpReno.ofMss 1000 with duplicateAcks := 2 }) ∧
      ReducesTwice (.cubic { TcpCubic.ofMss 1000 with duplicateAcks := 2 }) := by
  unfold ReducesTwice
  decide +kernel

end Recovery

/-! ## §5. Congestion avoidance by bytes. -/

/-- The credit that `k` segments of growth cost from a window. -/
def windowCost (mss cwnd k : Nat) : Nat := ∑ i ∈ Finset.range k, (cwnd + i * mss)

theorem windowCost_eq (mss cwnd k : Nat) :
    windowCost mss cwnd k = k * cwnd + mss * k * (k - 1) / 2 := by
  have heven : 2 ∣ k * (k - 1) := (Nat.even_mul_pred_self k).two_dvd
  rw [windowCost, Finset.sum_add_distrib, Finset.sum_const, Finset.card_range, nsmul_eq_mul,
    Nat.cast_id, ← Finset.sum_mul, Finset.sum_range_id, mul_assoc mss, Nat.mul_div_assoc mss heven, mul_comm mss]

theorem windowCost_succ (mss cwnd k : Nat) :
    windowCost mss cwnd (k + 1) = windowCost mss cwnd k + (cwnd + k * mss) :=
  Finset.sum_range_succ _ _

theorem windowCost_add (mss cwnd k j : Nat) :
    windowCost mss cwnd (k + j) = windowCost mss cwnd k + windowCost mss (cwnd + k * mss) j := by
  rw [windowCost, Finset.sum_range_add]
  congr 1
  exact Finset.sum_congr rfl fun i _ => by ring

theorem windowCost_mono (mss cwnd : Nat) : Monotone (windowCost mss cwnd) :=
  monotone_nat_of_le_succ fun k => by
    rw [windowCost_succ]
    exact Nat.le_add_right _ _

theorem le_windowCost (mss : Nat) (hcwnd : 0 < cwnd) (k : Nat) : k ≤ windowCost mss cwnd k := by
  rw [windowCost_eq]
  exact (Nat.le_mul_of_pos_right k hcwnd).trans (Nat.le_add_right _ _)

theorem growth_le {mss k j : Nat} (hle : windowCost mss cwnd k ≤ credit)
    (hlt : credit < windowCost mss cwnd (j + 1)) : k ≤ j := by
  by_contra hnot
  have hmono : windowCost mss cwnd (j + 1) ≤ windowCost mss cwnd k :=
    windowCost_mono mss cwnd (Nat.lt_of_not_le hnot)
  omega

/-- Every credit pays for a largest number of segments. -/
theorem exists_growth (mss : Nat) (hcwnd : 0 < cwnd) (credit : Nat) :
    ∃ k, windowCost mss cwnd k ≤ credit ∧ credit < windowCost mss cwnd (k + 1) := by
  have hzero : windowCost mss cwnd 0 ≤ credit := by simp [windowCost]
  refine ⟨Nat.findGreatest (fun k => windowCost mss cwnd k ≤ credit) credit,
    Nat.findGreatest_spec (P := fun k => windowCost mss cwnd k ≤ credit) (Nat.zero_le _) hzero, ?_⟩
  by_contra hnot
  have hle := Nat.le_of_not_lt hnot
  have hsucc := Nat.le_findGreatest (P := fun k => windowCost mss cwnd k ≤ credit)
    ((le_windowCost mss hcwnd _).trans hle) hle
  omega

theorem isGreatest_growth {mss k : Nat} (hle : windowCost mss cwnd k ≤ credit)
    (hlt : credit < windowCost mss cwnd (k + 1)) :
    IsGreatest { k | k * cwnd + mss * k * (k - 1) / 2 ≤ credit } k := by
  refine ⟨?_, fun j hj => growth_le ?_ hlt⟩
  · show k * cwnd + mss * k * (k - 1) / 2 ≤ credit
    rwa [← windowCost_eq]
  · rw [windowCost_eq]
    exact hj

namespace TcpReno

/-- The credit loop in closed form. -/
theorem spendCredit_eq (mss k : Nat) (hcwnd : 0 < cwnd) (hle : windowCost mss cwnd k ≤ credit)
    (hlt : credit < windowCost mss cwnd (k + 1)) (hfits : cwnd + k * mss ≤ u64Max) :
    spendCredit mss credit cwnd = (credit - windowCost mss cwnd k, cwnd + k * mss) := by
  induction k generalizing credit cwnd with
  | zero =>
    have hshort : ¬ credit ≥ max cwnd 1 := by
      simp only [windowCost, zero_add, Finset.sum_range_one, zero_mul, add_zero] at hlt
      omega
    rw [spendCredit, dif_neg hshort]
    simp [windowCost]
  | succ k ih =>
    have hfirst (j : Nat) : windowCost mss cwnd (j + 1) = cwnd + windowCost mss (cwnd + mss) j := by
      rw [add_comm j, windowCost_add]
      simp [windowCost]
    have hstep : cwnd + mss + k * mss = cwnd + (k + 1) * mss := by ring
    rw [hfirst] at hle hlt
    have henough : credit ≥ max cwnd 1 := by omega
    have hmax : max cwnd 1 = cwnd := by omega
    have hsum : saturatingAdd 64 cwnd mss = cwnd + mss :=
      min_eq_left (le_trans (by omega) hfits)
    rw [spendCredit, dif_pos henough, hmax, hsum,
      ih (by omega) (by omega) (by omega) (hstep ▸ hfits), hfirst, hstep, Nat.sub_sub]

/-- `s` is the avoidance state `s₀` after `total` acknowledged bytes and `k` segments of growth. -/
structure Grown (s₀ : TcpReno) (total k : Nat) (s : TcpReno) : Prop where
  phase : s.phase = .congestionAvoidance
  segment : s.mssBytes = s₀.mssBytes
  window : s.cwndBytes = s₀.cwndBytes + k * s₀.mssBytes
  paid : windowCost s₀.mssBytes s₀.cwndBytes k ≤ s₀.caCredit + total
  credit : s.caCredit = s₀.caCredit + total - windowCost s₀.mssBytes s₀.cwndBytes k

variable {s₀ s : TcpReno} {total k : Nat}

/-- One acknowledgment spends what the credit pays for from there on. -/
theorem Grown.onNewAck (h : Grown s₀ total k s) (hcwnd : 0 < s₀.cwndBytes) {bytes next : Nat}
    (acknowledgment : Nat) (hcredit : s₀.caCredit + (total + bytes) ≤ u64Max)
    (hle : windowCost s₀.mssBytes s₀.cwndBytes next ≤ s₀.caCredit + (total + bytes))
    (hlt : s₀.caCredit + (total + bytes) < windowCost s₀.mssBytes s₀.cwndBytes (next + 1))
    (hfits : s₀.cwndBytes + next * s₀.mssBytes ≤ u64Max) :
    Grown s₀ (total + bytes) next (s.onNewAck bytes acknowledgment) := by
  obtain ⟨hphase, hsegment, hwindow, hpaid, hcredit'⟩ := h
  obtain ⟨j, rfl⟩ := Nat.exists_eq_add_of_le (growth_le (hpaid.trans (by omega)) hlt)
  have hsplit := windowCost_add s₀.mssBytes s₀.cwndBytes k j
  have hsplit' := windowCost_add s₀.mssBytes s₀.cwndBytes k (j + 1)
  rw [← add_assoc] at hsplit'
  have hreach : s₀.cwndBytes + k * s₀.mssBytes + j * s₀.mssBytes =
      s₀.cwndBytes + (k + j) * s₀.mssBytes := by ring
  have hsum : saturatingAdd 64 s.caCredit bytes = s.caCredit + bytes :=
    min_eq_left (le_trans (by omega) hcredit)
  have hspend :
      spendCredit s₀.mssBytes (s.caCredit + bytes) (s₀.cwndBytes + k * s₀.mssBytes) = _ :=
    spendCredit_eq s₀.mssBytes j (by omega) (by omega) (by omega) (hreach ▸ hfits)
  have hack : s.onNewAck bytes acknowledgment =
      { s with
        duplicateAcks := 0
        caCredit := s.caCredit + bytes - windowCost s₀.mssBytes (s₀.cwndBytes + k * s₀.mssBytes) j
        cwndBytes := s₀.cwndBytes + k * s₀.mssBytes + j * s₀.mssBytes } := by
    simp only [TcpReno.onNewAck, hphase, hsegment, hwindow, hsum, hspend]
  rw [hack]
  refine ⟨hphase, hsegment, hreach, hle, ?_⟩
  show s.caCredit + bytes - _ = _
  omega

/-- Any split of the acknowledged bytes. -/
theorem Grown.acks (h : Grown s₀ total k s) (hcwnd : 0 < s₀.cwndBytes) (acks : List (Nat × Nat))
    {next : Nat} (hcredit : s₀.caCredit + (total + (acks.map (·.1)).sum) ≤ u64Max)
    (hle : windowCost s₀.mssBytes s₀.cwndBytes next ≤ s₀.caCredit + (total + (acks.map (·.1)).sum))
    (hlt : s₀.caCredit + (total + (acks.map (·.1)).sum) <
      windowCost s₀.mssBytes s₀.cwndBytes (next + 1))
    (hfits : s₀.cwndBytes + next * s₀.mssBytes ≤ u64Max)
    (hspent : acks ≠ [] ∨ s₀.caCredit + total < windowCost s₀.mssBytes s₀.cwndBytes (k + 1)) :
    Grown s₀ (total + (acks.map (·.1)).sum) next
      (acks.foldl (fun s ack => s.onNewAck ack.1 ack.2) s) := by
  induction acks generalizing s total k with
  | nil =>
    simp only [map_nil, sum_nil, add_zero] at hle hlt ⊢
    have hlt' := hspent.resolve_left (by simp)
    have hgreatest := isGreatest_growth h.paid hlt'
    rwa [(isGreatest_growth hle hlt).unique hgreatest]
  | cons ack acks ih =>
    simp only [map_cons, sum_cons, ← add_assoc] at hcredit hle hlt
    obtain ⟨mid, hmid, hmid'⟩ := exists_growth s₀.mssBytes hcwnd (s₀.caCredit + (total + ack.1))
    have hnext : mid ≤ next := growth_le (hmid.trans (by omega)) hlt
    have hfits' : s₀.cwndBytes + mid * s₀.mssBytes ≤ u64Max :=
      le_trans (Nat.add_le_add_left (Nat.mul_le_mul_right _ hnext) _) hfits
    have hstep := h.onNewAck hcwnd ack.2 (by omega) hmid hmid' hfits'
    have hrest := ih hstep (by omega) (by omega) (by omega) (.inr hmid')
    simpa only [map_cons, sum_cons, foldl_cons, ← add_assoc] using hrest

/-- In avoidance the loop leaves less credit than one window. -/
theorem spendCredit_lt (mss credit : Nat) (hcwnd : 0 < cwnd) :
    (spendCredit mss credit cwnd).1 < (spendCredit mss credit cwnd).2 := by
  fun_induction spendCredit mss credit cwnd with
  | case1 credit cwnd _ ih =>
    have hwide : 0 < u64Max := by decide
    exact ih (lt_min (by omega) hwide)
  | case2 credit cwnd h => omega

/-- A positive segment, window and threshold, and in avoidance less credit than the window. -/
structure Credited (s : TcpReno) : Prop where
  segment : 0 < s.mssBytes
  window : 0 < s.cwndBytes
  threshold : 0 < s.ssthreshBytes
  credit : s.phase = .congestionAvoidance → s.caCredit < s.cwndBytes

theorem saturatingAdd_pos (ha : 0 < a) : 0 < saturatingAdd 64 a b :=
  lt_min (by omega) (by decide)

theorem saturatingMul_pos (ha : 0 < a) (hb : 0 < b) : 0 < saturatingMul 64 a b :=
  lt_min (Nat.mul_pos ha hb) (by decide)

theorem Credited.onNewAck (h : s.Credited) (bytes acknowledgment : Nat) :
    (s.onNewAck bytes acknowledgment).Credited := by
  obtain ⟨hsegment, hwindow, hthreshold, hcredit⟩ := h
  unfold TcpReno.onNewAck
  cases hphase : s.phase with
  | slowStart =>
    dsimp only
    split
    · exact ⟨hsegment, hthreshold, hthreshold, fun _ => hthreshold⟩
    · exact ⟨hsegment, saturatingAdd_pos hwindow, hthreshold, by simp⟩
  | congestionAvoidance =>
    have hspent := spendCredit_lt s.mssBytes (saturatingAdd 64 s.caCredit bytes) hwindow
    exact ⟨hsegment, Nat.zero_lt_of_lt hspent, hthreshold, fun _ => hspent⟩
  | fastRecovery =>
    dsimp only
    split
    · have hexit : 0 < max s.ssthreshBytes s.mssBytes := lt_max_of_lt_left hthreshold
      exact ⟨hsegment, hexit, hthreshold, fun _ => hexit⟩
    · exact ⟨hsegment, saturatingAdd_pos hthreshold, hthreshold, by simp⟩

theorem Credited.transition (now : Nat) (input : TcpTransitionInput)
    (control : TcpCongestionControl) (h : ∃ s : TcpReno, control = .reno s ∧ s.Credited) :
    ∃ s : TcpReno, (control.transition now input).2 = .reno s ∧ s.Credited := by
  obtain ⟨s, rfl, hs⟩ := h
  have hreduced (flight : Nat) : 0 < max (flight / 2) (saturatingMul 64 s.mssBytes 2) :=
    lt_max_of_lt_right (saturatingMul_pos hs.segment (by decide))
  cases input with
  | newAck bytes _ _ acknowledgment => exact ⟨_, rfl, hs.onNewAck bytes acknowledgment⟩
  | duplicateAck flight point =>
    rw [transition_duplicateAck]
    split
    · refine ⟨_, rfl, hs.segment, saturatingAdd_pos (hreduced flight), hreduced flight, ?_⟩
      simp [onFastRetransmit]
    · split
      · refine ⟨_, rfl, ?_⟩
        unfold TcpReno.onMoreDuplicateAck
        split
        · next hphase =>
          exact ⟨hs.segment, saturatingAdd_pos hs.window, hs.threshold,
            fun havoid => by cases hphase.symm.trans havoid⟩
        · exact ⟨hs.segment, hs.window, hs.threshold, hs.credit⟩
      · exact ⟨_, rfl, hs.segment, hs.window, hs.threshold, hs.credit⟩
  | timeout flight =>
    exact ⟨_, rfl, hs.segment, hs.segment, hreduced flight, by simp [onTimeout]⟩

theorem credited_ofMss (mss : Nat) : (ofMss mss).Credited :=
  ⟨nonzeroMss_pos mss, saturatingMul_pos (nonzeroMss_pos mss) (by decide),
    (by decide : 0 < initialSsthreshBytes), by simp [ofMss]⟩

end TcpReno

/-- In congestion avoidance the window and the credit depend on the acknowledged bytes only.
From a positive window with less credit than the window, `T` bytes in any split grow the window
by `k` segments, where `k` is the largest number with `k * cwnd + mss * k * (k - 1) / 2` at most
the credit plus `T`, and leave the rest as credit, as long as nothing saturates.  Every avoidance
state that a controller reaches from its initial state has such a window. -/
theorem reno_avoidance_by_bytes :
    (∀ (s : TcpReno) (acks : List (Nat × Nat)), s.phase = .congestionAvoidance →
      0 < s.cwndBytes → (acks ≠ [] ∨ s.caCredit < s.cwndBytes) →
      s.caCredit + (acks.map (·.1)).sum ≤ u64Max →
      ∃ k, IsGreatest
          { k | k * s.cwndBytes + s.mssBytes * k * (k - 1) / 2 ≤ s.caCredit + (acks.map (·.1)).sum } k ∧
        (s.cwndBytes + k * s.mssBytes ≤ u64Max →
          (acks.foldl (fun s ack => s.onNewAck ack.1 ack.2) s).cwndBytes =
            s.cwndBytes + k * s.mssBytes ∧
          (acks.foldl (fun s ack => s.onNewAck ack.1 ack.2) s).caCredit =
            s.caCredit + (acks.map (·.1)).sum -
              (k * s.cwndBytes + s.mssBytes * k * (k - 1) / 2))) ∧
    (∀ (mss : Nat) (inputs : List (Nat × TcpTransitionInput)) (s : TcpReno),
      (TcpCongestionControl.reno (.ofMss mss)).history inputs = .reno s →
      s.phase = .congestionAvoidance → 0 < s.cwndBytes ∧ s.caCredit < s.cwndBytes) := by
  refine ⟨fun s acks hphase hcwnd hspent hcredit => ?_, fun mss inputs s hreach hphase => ?_⟩
  · obtain ⟨k, hle, hlt⟩ :=
      exists_growth s.mssBytes hcwnd (s.caCredit + (acks.map (·.1)).sum)
    refine ⟨k, isGreatest_growth hle hlt, fun hfits => ?_⟩
    have hstart : TcpReno.Grown s 0 0 s :=
      ⟨hphase, rfl, by simp, by simp [windowCost], by simp [windowCost]⟩
    have hfirst : acks ≠ [] ∨ s.caCredit + 0 < windowCost s.mssBytes s.cwndBytes (0 + 1) := by
      simpa [windowCost] using hspent
    have hgrown := hstart.acks hcwnd acks (by simpa using hcredit) (by simpa using hle)
      (by simpa using hlt) hfits hfirst
    rw [zero_add] at hgrown
    exact ⟨hgrown.window, by rw [hgrown.credit, windowCost_eq]⟩
  · have hall : ∀ (inputs : List (Nat × TcpTransitionInput)) (control : TcpCongestionControl),
        (∃ s : TcpReno, control = .reno s ∧ s.Credited) →
        ∃ s : TcpReno, control.history inputs = .reno s ∧ s.Credited := by
      intro inputs
      induction inputs with
      | nil => exact fun _ h => h
      | cons input inputs ih => exact fun control h => ih _ (TcpReno.Credited.transition _ _ control h)
    obtain ⟨s', hs', hcredited⟩ := hall inputs _ ⟨_, rfl, TcpReno.credited_ofMss mss⟩
    cases hs'.symm.trans hreach
    exact ⟨hcredited.window, hcredited.credit hphase⟩

/-- A window of two segments and two acknowledgments of five thousand bytes together. -/
theorem reno_avoidance_by_bytes_two :
    let s : TcpReno := { TcpReno.ofMss 1000 with phase := .congestionAvoidance, cwndBytes := 2000 }
    ∃ k, IsGreatest { k | k * 2000 + 1000 * k * (k - 1) / 2 ≤ 5000 } k ∧
      ([(1500, 1500), (3500, 5000)].foldl (fun s ack => s.onNewAck ack.1 ack.2) s).cwndBytes =
        2000 + k * 1000 := by
  intro s
  obtain ⟨k, hgreatest, hgrown⟩ := reno_avoidance_by_bytes.1 s [(1500, 1500), (3500, 5000)] rfl
    (by decide) (.inl (by decide)) (by decide)
  have hk : k * 2000 + 1000 * k * (k - 1) / 2 ≤ 5000 := hgreatest.1
  have hfits : 2000 + k * 1000 ≤ u64Max := le_trans (by omega : _ ≤ 5000) (by decide)
  exact ⟨k, hgreatest, (hgrown hfits).1⟩

/-- From an empty window the loop asks for one byte of credit, so ten bytes grow the window by one
segment of ten, where the closed form allows two. -/
theorem reno_avoidance_empty_window :
    let s : TcpReno := { TcpReno.ofMss 10 with phase := .congestionAvoidance, cwndBytes := 0 }
    (s.onNewAck 10 10).cwndBytes = 10 ∧ 2 * s.cwndBytes + s.mssBytes * 2 * (2 - 1) / 2 ≤ s.caCredit + 10 := by
  refine ⟨?_, by decide⟩
  simp [TcpReno.onNewAck, TcpReno.ofMss, nonzeroMss, TcpReno.spendCredit, saturatingAdd, width]

end Days
