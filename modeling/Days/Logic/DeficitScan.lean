/-
  Days.Logic.DeficitScan — the scan loop of deficit round robin ends.

  The pointer after `k` skips from `current` is `current + k` modulo the number
  of classes, and the refills so far are the quotient.  A waiting class gains a
  quantum per refill, so within the ceiling of its head over its quantum it can
  be served.
-/
import Days.Logic.Ledger
import Days.Logic.RoundRobin
import Mathlib.Data.List.MinMax

namespace Days

open List

variable {current : Nat} {deficits quanta : List Nat}

variable {next position : Nat}

/-! ## §1. One iteration of the loop. -/

section Scan

variable {quanta : List Nat} {packets : List PacketDescriptor} {node : NodeId}

/-- The bytes of a candidate. -/
def frameSize (packets : List PacketDescriptor) (position : Nat) : Nat :=
  (packets[position]?).elim 0 (·.sizeBytes)

/-- The loop stops at the class: its deficit pays for its first candidate. -/
def DrrServes (quanta : List Nat) (packets : List PacketDescriptor) (current : Nat) (deficits : List Nat)
    (position : Nat) : Prop :=
  classPosition quanta.length current packets = some position ∧
    0 < deficits.getD current 0 ∧ frameSize packets position ≤ deficits.getD current 0

theorem drrScan_of_serves (node : NodeId) (fuel scanSteps : Nat)
    (h : DrrServes quanta packets current deficits position) :
    drrScan quanta packets node (fuel + 1) scanSteps current deficits = .ok (position, scanSteps, current,
      deficits.set current (deficits.getD current 0 - frameSize packets position)) := by
  obtain ⟨hposition, hpos, hle⟩ := h
  unfold frameSize at hle
  rw [drrScan, hposition]
  dsimp only
  rw [if_pos ⟨hpos, hle⟩]
  rfl

theorem drrScan_of_not_serves {fuel scanSteps : Nat} {refilled : List Nat}
    (h : ¬ ∃ position, DrrServes quanta packets current deficits position)
    (hadvance : drrAdvance quanta packets node current deficits = .ok (next, refilled)) :
    drrScan quanta packets node (fuel + 1) scanSteps current deficits =
      drrScan quanta packets node fuel (scanSteps + 1) next refilled := by
  rw [drrScan, hadvance]
  cases hposition : classPosition quanta.length current packets with
  | none => rfl
  | some position =>
    have hunpaid : ¬ (deficits.getD current 0 > 0 ∧
        (packets[position]?).elim 0 (·.sizeBytes) ≤ deficits.getD current 0) :=
      fun hpays => h ⟨position, hposition, hpays⟩
    dsimp only
    rw [if_neg hunpaid]
    rfl

/-- The deficit of a class after a refill. -/
def refilled (quanta : List Nat) (packets : List PacketDescriptor) (priority deficit : Nat) : Nat :=
  if (classPosition quanta.length priority packets).isSome then deficit + quanta.getD priority 0 else 0

theorem refillDeficit_eq_ok {priority deficit : Nat}
    (h : refillDeficit quanta.length quanta packets node priority deficit = .ok next) :
    next = refilled quanta packets priority deficit := by
  unfold refillDeficit at h
  unfold refilled
  split at h
  · next hsome =>
    rw [if_pos hsome]
    exact (checkedAdd_eq_some (okOr_eq_ok.1 h)).1
  · next hnone =>
    rw [if_neg hnone]
    exact (Except.ok.inj h).symm

theorem refillDeficit_of_lt (priority deficit : Nat) (node : NodeId)
    (h : HasCandidate quanta.length priority packets → deficit + quanta.getD priority 0 < 2 ^ 64) :
    refillDeficit quanta.length quanta packets node priority deficit =
      .ok (refilled quanta packets priority deficit) := by
  unfold refillDeficit refilled
  split
  · next hsome =>
    exact okOr_eq_ok.2 (checkedAdd_of_lt (h (Option.isSome_iff_exists.1 hsome)))
  · rfl

theorem refillDeficits_eq_ok {start : Nat} {next : List Nat}
    (h : refillDeficits quanta.length quanta packets node start deficits = .ok next) :
    next = deficits.mapIdx fun i deficit => refilled quanta packets (start + i) deficit := by
  induction deficits generalizing start next with
  | nil =>
    rw [refillDeficits] at h
    exact (Except.ok.inj h).symm
  | cons deficit rest ih =>
    rw [refillDeficits] at h
    obtain ⟨first, hfirst, h⟩ := bind_ok h
    obtain ⟨others, hothers, h⟩ := bind_ok h
    rw [← Except.ok.inj h, mapIdx_cons, refillDeficit_eq_ok hfirst, ih hothers]
    simp only [Nat.add_zero, Nat.add_assoc, Nat.add_comm 1]

theorem refillDeficits_of_lt (node : NodeId) (start : Nat)
    (h : ∀ i < deficits.length, HasCandidate quanta.length (start + i) packets →
      deficits.getD i 0 + quanta.getD (start + i) 0 < 2 ^ 64) :
    ∃ next, refillDeficits quanta.length quanta packets node start deficits = .ok next := by
  induction deficits generalizing start with
  | nil => exact ⟨[], rfl⟩
  | cons deficit rest ih =>
    have hfirst := refillDeficit_of_lt start deficit node fun hc => by
      simpa using h 0 (by simp) (by simpa using hc)
    obtain ⟨others, hothers⟩ := ih (start + 1) fun i hi hc => by
      have := h (i + 1) (by simpa using hi) (by rwa [← Nat.add_assoc, Nat.add_right_comm])
      rw [← Nat.add_assoc, Nat.add_right_comm] at this
      simpa using this
    rw [refillDeficits, hfirst]
    exact ⟨_, bind_eq_ok.2 ⟨_, rfl, bind_eq_ok.2 ⟨others, hothers, rfl⟩⟩⟩

/-- Advancing moves the pointer by one, or wraps it and refills. -/
theorem drrAdvance_eq_ok {after : List Nat}
    (h : drrAdvance quanta packets node current deficits = .ok (next, after)) :
    (current + 1 = quanta.length ∧ next = 0 ∧ after = deficits.mapIdx (refilled quanta packets)) ∨
      (current + 1 ≠ quanta.length ∧ next = current + 1 ∧ after = deficits) := by
  unfold drrAdvance at h
  by_cases hwrap : current + 1 = quanta.length
  · rw [if_pos hwrap] at h
    obtain ⟨filled, hfilled, h⟩ := bind_ok h
    cases h
    refine Or.inl ⟨hwrap, rfl, ?_⟩
    simpa only [Nat.zero_add] using refillDeficits_eq_ok hfilled
  · rw [if_neg hwrap] at h
    cases h
    exact Or.inr ⟨hwrap, rfl, rfl⟩

theorem drrAdvance_of_lt (node : NodeId)
    (h : current + 1 = quanta.length → ∀ c < deficits.length, HasCandidate quanta.length c packets →
      deficits.getD c 0 + quanta.getD c 0 < 2 ^ 64) :
    ∃ next, drrAdvance quanta packets node current deficits = .ok next := by
  unfold drrAdvance
  by_cases hwrap : current + 1 = quanta.length
  · rw [if_pos hwrap]
    obtain ⟨filled, hfilled⟩ := refillDeficits_of_lt node 0 fun i hi hc => by
      rw [Nat.zero_add] at hc ⊢
      exact h hwrap i hi hc
    exact ⟨(0, filled), bind_eq_ok.2 ⟨filled, hfilled, rfl⟩⟩
  · rw [if_neg hwrap]
    exact ⟨_, rfl⟩

theorem getD_mapIdx {f : Nat → Nat → Nat} {l : List Nat} {i : Nat} (h : i < l.length) :
    (l.mapIdx f).getD i 0 = f i (l.getD i 0) := by
  simp [getD_eq_getElem?_getD, h]

/-! ## §2. The states of the loop. -/

/-- The states the loop passes: so many skips lead from one pointer and deficits to another. -/
inductive DrrSkips (quanta : List Nat) (packets : List PacketDescriptor) (node : NodeId) (current : Nat)
    (deficits : List Nat) : Nat → Nat → List Nat → Prop
  | start : DrrSkips quanta packets node current deficits 0 current deficits
  | skip {steps middle next : Nat} {before after : List Nat}
      (hskips : DrrSkips quanta packets node current deficits steps middle before)
      (hserves : ¬ ∃ position, DrrServes quanta packets middle before position)
      (hadvance : drrAdvance quanta packets node middle before = .ok (next, after)) :
      DrrSkips quanta packets node current deficits (steps + 1) next after

variable {current steps stop : Nat} {deficits reached : List Nat}

theorem drrScan_of_skips (h : DrrSkips quanta packets node current deficits steps stop reached)
    (fuel scanSteps : Nat) :
    drrScan quanta packets node (fuel + steps) scanSteps current deficits =
      drrScan quanta packets node fuel (scanSteps + steps) stop reached := by
  induction h generalizing fuel with
  | start => rfl
  | @skip steps middle next before after hskips hserves hadvance ih =>
    have hsplit : fuel + (steps + 1) = (fuel + 1) + steps := by omega
    rw [hsplit, ih, drrScan_of_not_serves hserves hadvance, Nat.add_assoc]

/-- The deficit of a class after some refills. -/
def deficitAfter (quanta : List Nat) (packets : List PacketDescriptor) (deficits : List Nat)
    (refills priority : Nat) : Nat :=
  if refills = 0 then deficits.getD priority 0
  else if (classPosition quanta.length priority packets).isSome then
    deficits.getD priority 0 + refills * quanta.getD priority 0
  else 0

/-- The pointer and the deficits after some skips. -/
theorem DrrSkips.state (h : DrrSkips quanta packets node current deficits steps stop reached)
    (hcurrent : current < quanta.length) (hlen : deficits.length = quanta.length) :
    stop = (current + steps) % quanta.length ∧ reached.length = quanta.length ∧
      ∀ c < quanta.length, reached.getD c 0 =
        deficitAfter quanta packets deficits ((current + steps) / quanta.length) c := by
  induction h with
  | start =>
    rw [Nat.add_zero, Nat.mod_eq_of_lt hcurrent, Nat.div_eq_of_lt hcurrent]
    exact ⟨rfl, hlen, fun c _ => rfl⟩
  | @skip steps middle next before after hskips hserves hadvance ih =>
    obtain ⟨hmiddle, hbefore, hdeficits⟩ := ih
    have hpos : 0 < quanta.length := by omega
    have hdecomp := Nat.div_add_mod (current + steps) quanta.length
    rw [← hmiddle] at hdecomp
    rcases drrAdvance_eq_ok hadvance with ⟨hwrap, rfl, rfl⟩ | ⟨hwrap, rfl, rfl⟩
    · have htotal : current + (steps + 1) =
          quanta.length * ((current + steps) / quanta.length + 1) := by
        rw [Nat.mul_add]
        omega
      rw [htotal, Nat.mul_mod_right, Nat.mul_div_cancel_left _ hpos]
      refine ⟨rfl, by rw [length_mapIdx, hbefore], fun c hc => ?_⟩
      rw [getD_mapIdx (by omega), hdeficits c hc]
      unfold refilled deficitAfter
      rw [if_neg (Nat.succ_ne_zero _)]
      by_cases hsome : (classPosition quanta.length c packets).isSome
      · rw [if_pos hsome, if_pos hsome]
        split
        · next hzero => rw [hzero]; omega
        · ring
      · rw [if_neg hsome, if_neg hsome]
    · have hmlt : middle < quanta.length := hmiddle ▸ Nat.mod_lt _ hpos
      have htotal : current + (steps + 1) =
          (middle + 1) + quanta.length * ((current + steps) / quanta.length) := by omega
      rw [htotal, Nat.add_mul_mod_self_left, Nat.mod_eq_of_lt (by omega), Nat.add_mul_div_left _ _ hpos,
        Nat.div_eq_of_lt (by omega), Nat.zero_add]
      exact ⟨rfl, hbefore, hdeficits⟩

/-- No refill of the loop overflows. -/
def DrrNoOverflow (quanta : List Nat) (packets : List PacketDescriptor) (node : NodeId) (current : Nat)
    (deficits : List Nat) : Prop :=
  ∀ steps stop reached, DrrSkips quanta packets node current deficits steps stop reached →
    (¬ ∃ position, DrrServes quanta packets stop reached position) →
    ∃ next, drrAdvance quanta packets node stop reached = .ok next

/-- The loop stops at the latest at a waiting class whose head the refills pay for. -/
theorem drr_stops {target refills : Nat} (hcurrent : current < quanta.length)
    (hlen : deficits.length = quanta.length)
    (hfit : DrrNoOverflow quanta packets node current deficits)
    (htarget : classPosition quanta.length target packets = some position)
    (hquantum : 0 < quanta.getD target 0) (hrefills : 0 < refills)
    (hpaid : frameSize packets position ≤ refills * quanta.getD target 0) :
    ∃ steps stop reached found, DrrSkips quanta packets node current deficits steps stop reached ∧
      DrrServes quanta packets stop reached found ∧
      current + steps ≤ quanta.length * refills + target := by
  have hlt : target < quanta.length := HasCandidate.lt ⟨position, htarget⟩
  have hfirst : quanta.length ≤ quanta.length * refills := Nat.le_mul_of_pos_right _ hrefills
  by_contra hnever
  -- If the loop never stopped it would pass every step up to the target.
  have hpasses : ∀ steps, current + steps ≤ quanta.length * refills + target →
      ∃ stop reached, DrrSkips quanta packets node current deficits steps stop reached := by
    intro steps
    induction steps with
    | zero => exact fun _ => ⟨current, deficits, .start⟩
    | succ steps ih =>
      intro hle
      obtain ⟨stop, reached, hskips⟩ := ih (by omega)
      have hserves : ¬ ∃ found, DrrServes quanta packets stop reached found := by
        rintro ⟨found, hserves⟩
        exact hnever ⟨steps, stop, reached, found, hskips, hserves, by omega⟩
      obtain ⟨⟨next, after⟩, hadvance⟩ := hfit steps stop reached hskips hserves
      exact ⟨next, after, .skip hskips hserves hadvance⟩
  obtain ⟨stop, reached, hskips⟩ :=
    hpasses (quanta.length * refills + target - current) (by omega)
  obtain ⟨hstop, -, hreached⟩ := hskips.state hcurrent hlen
  have htotal : current + (quanta.length * refills + target - current) =
      target + quanta.length * refills := by omega
  rw [htotal, Nat.add_mul_mod_self_left, Nat.mod_eq_of_lt hlt] at hstop
  have hdeficit := hreached target hlt
  rw [htotal, Nat.add_mul_div_left _ _ (by omega), Nat.div_eq_of_lt hlt, Nat.zero_add] at hdeficit
  unfold deficitAfter at hdeficit
  rw [if_neg (by omega), if_pos (by rw [htarget]; rfl)] at hdeficit
  have hgain : 0 < refills * quanta.getD target 0 := Nat.mul_pos hrefills hquantum
  refine hnever ⟨_, stop, reached, position, hskips, ⟨hstop ▸ htarget, ?_, ?_⟩, by omega⟩
  · rw [hstop, hdeficit]
    omega
  · rw [hstop, hdeficit]
    omega

end Scan

/-! ## §3. One selection. -/

/-- A state with deficits and pointer of the right shape. -/
structure DrrSchedulerState.Valid (state : DrrSchedulerState) : Prop where
  length : state.deficitsBytes.length = state.quantaBytes.length
  positive : 0 ∉ state.quantaBytes
  current_lt : state.currentClass < state.quantaBytes.length

def maxFrame (packets : List PacketDescriptor) : Nat := (packets.map (·.sizeBytes)).foldr max 0

def minQuantum (quanta : List Nat) : Nat := quanta.min?.getD 0

theorem frameSize_le_maxFrame (packets : List PacketDescriptor) (position : Nat) :
    frameSize packets position ≤ maxFrame packets := by
  unfold frameSize maxFrame
  cases hp : packets[position]? with
  | none => exact Nat.zero_le _
  | some p => exact le_max_of_le (mem_map_of_mem (mem_of_getElem? hp)) le_rfl

theorem minQuantum_le {c : Nat} (hc : c < quanta.length) : minQuantum quanta ≤ quanta.getD c 0 := by
  rw [getD_eq_getElem?_getD, getElem?_eq_getElem hc]
  unfold minQuantum
  cases hmin : quanta.min? with
  | none => exact Nat.zero_le _
  | some q => exact (min?_eq_some_iff.1 hmin).2 _ (getElem_mem hc)

theorem minQuantum_pos (hne : quanta ≠ []) (hpos : 0 ∉ quanta) : 0 < minQuantum quanta := by
  unfold minQuantum
  cases hmin : quanta.min? with
  | none => exact absurd (min?_eq_none_iff.1 hmin) hne
  | some q =>
    refine Nat.pos_of_ne_zero fun hzero => hpos ?_
    have hmem := (min?_eq_some_iff.1 hmin).1
    rwa [show q = 0 from hzero] at hmem

/-- The refills after which every class can pay for any candidate. -/
def paidRefills (quanta : List Nat) (packets : List PacketDescriptor) : Nat :=
  (maxFrame packets + minQuantum quanta - 1) / minQuantum quanta

theorem maxFrame_le_paidRefills (hpos : 0 < minQuantum quanta) (packets : List PacketDescriptor) :
    maxFrame packets ≤ paidRefills quanta packets * minQuantum quanta := by
  have hdecomp := Nat.div_add_mod (maxFrame packets + minQuantum quanta - 1) (minQuantum quanta)
  have hmod := Nat.mod_lt (maxFrame packets + minQuantum quanta - 1) hpos
  unfold paidRefills
  rw [Nat.mul_comm] at hdecomp
  omega

theorem paidRefills_le_maxFrame (hpos : 0 < minQuantum quanta)
    (packets : List PacketDescriptor) : paidRefills quanta packets ≤ maxFrame packets := by
  unfold paidRefills
  rw [← Nat.lt_succ_iff, Nat.div_lt_iff_lt_mul hpos]
  have hle : maxFrame packets ≤ maxFrame packets * minQuantum quanta := Nat.le_mul_of_pos_right _ hpos
  rw [Nat.succ_mul]
  omega

namespace DrrSchedulerState.Valid

variable {state : DrrSchedulerState} {packets : List PacketDescriptor} {node : NodeId}

/-- Where the loop stops is the result of the selection. -/
theorem select_of_skips (h : state.Valid) {steps stop : Nat} {reached : List Nat}
    (hskips : DrrSkips state.quantaBytes packets node state.currentClass state.deficitsBytes steps stop
      reached) (hserves : DrrServes state.quantaBytes packets stop reached position)
    (hsteps : steps < drrFuel state.quantaBytes.length packets) :
    schedulerSelectPosition (.deficitRoundRobin state) packets node = .ok (some (position, steps),
      .deficitRoundRobin { state with
        deficitsBytes := reached.set stop (reached.getD stop 0 - frameSize packets position)
        currentClass := stop }) := by
  have hne : packets ≠ [] := by
    rintro rfl
    exact absurd hserves.1 (by simp [classPosition])
  obtain ⟨extra, hextra⟩ := Nat.exists_eq_add_of_lt hsteps
  have hscan := drrScan_of_skips hskips (extra + 1) 0
  rw [drrScan_of_serves node extra _ hserves, Nat.zero_add,
    show extra + 1 + steps = drrFuel state.quantaBytes.length packets by omega] at hscan
  have hcount : state.quantaBytes.length ≠ 0 := Nat.ne_zero_of_lt h.current_lt
  unfold schedulerSelectPosition
  rw [if_neg (by simpa using hne)]
  simp only [require, if_pos h.current_lt, if_pos (And.intro hcount (And.intro h.length h.positive)),
    hscan, bind, Except.bind, pure, Except.pure]

/-- A selection without overflow ends, within the passes that pay for the largest frame. -/
theorem select (h : state.Valid) (hne : packets ≠ [])
    (hfit : DrrNoOverflow state.quantaBytes packets node state.currentClass state.deficitsBytes) :
    ∃ steps stop reached position,
      DrrSkips state.quantaBytes packets node state.currentClass state.deficitsBytes steps stop reached ∧
      DrrServes state.quantaBytes packets stop reached position ∧
      steps < state.quantaBytes.length * (1 + max 1 (paidRefills state.quantaBytes packets)) ∧
      schedulerSelectPosition (.deficitRoundRobin state) packets node = .ok (some (position, steps),
        .deficitRoundRobin { state with
          deficitsBytes := reached.set stop (reached.getD stop 0 - frameSize packets position)
          currentClass := stop }) := by
  have hcurrent := h.current_lt
  obtain ⟨target, position, htarget⟩ := exists_hasCandidate (Nat.ne_zero_of_lt hcurrent) hne
  have hlt := HasCandidate.lt ⟨position, htarget⟩
  have hmin := minQuantum_pos (ne_nil_of_length_pos (Nat.zero_lt_of_lt hcurrent)) h.positive
  have hpaid : frameSize packets position ≤
      max 1 (paidRefills state.quantaBytes packets) * state.quantaBytes.getD target 0 :=
    calc frameSize packets position
      _ ≤ maxFrame packets := frameSize_le_maxFrame packets position
      _ ≤ paidRefills state.quantaBytes packets * minQuantum state.quantaBytes :=
        maxFrame_le_paidRefills hmin packets
      _ ≤ _ := Nat.mul_le_mul (le_max_right _ _) (minQuantum_le hlt)
  obtain ⟨steps, stop, reached, found, hskips, hserves, hsteps⟩ :=
    drr_stops hcurrent h.length hfit htarget (getD_pos h.positive hlt) (by omega) hpaid
  have hbound : steps < state.quantaBytes.length * (1 + max 1 (paidRefills state.quantaBytes packets)) := by
    rw [Nat.mul_add, Nat.mul_one]
    omega
  have hfuel : steps < drrFuel state.quantaBytes.length packets := by
    have hrefills := paidRefills_le_maxFrame hmin packets
    have hmul : state.quantaBytes.length * (1 + max 1 (paidRefills state.quantaBytes packets)) ≤
        (state.quantaBytes.length + 1) * (maxFrame packets + 3) :=
      Nat.mul_le_mul (Nat.le_succ _) (by omega)
    exact hbound.trans_le hmul
  exact ⟨steps, stop, reached, found, hskips, hserves, hbound, h.select_of_skips hskips hserves hfuel⟩

end DrrSchedulerState.Valid

/-! ## §4. What bounds the deficits of a scan. -/

/-- Deficits below a quantum and a largest frame, and below a largest frame for the waiting classes the
    pointer has passed. -/
structure DrrBounded (M : Nat → Nat) (quanta : List Nat) (packets : List PacketDescriptor) (current : Nat)
    (deficits : List Nat) : Prop where
  length : deficits.length = quanta.length
  current_lt : current < quanta.length
  bounded : ∀ c < quanta.length, deficits.getD c 0 < quanta.getD c 0 + M c
  passed : ∀ c < current, HasCandidate quanta.length c packets → deficits.getD c 0 < M c

namespace DrrBounded

variable {M : Nat → Nat} {quanta : List Nat} {packets : List PacketDescriptor} {node : NodeId}
  {current : Nat} {deficits : List Nat}

section

variable (h : DrrBounded M quanta packets current deficits)

include h

theorem anti {others : List PacketDescriptor}
    (hsub : ∀ c, HasCandidate quanta.length c others → HasCandidate quanta.length c packets) :
    DrrBounded M quanta others current deficits :=
  ⟨h.length, h.current_lt, h.bounded, fun c hc hcandidate => h.passed c hc (hsub c hcandidate)⟩

theorem serve (position : Nat) :
    DrrBounded M quanta packets current
      (deficits.set current (deficits.getD current 0 - frameSize packets position)) := by
  have hlt := h.current_lt
  have hlen := h.length
  refine ⟨by rw [length_set, hlen], hlt, fun c hc => ?_, fun c hc hcandidate => ?_⟩
  · have hbound := h.bounded c hc
    by_cases heq : current = c
    · subst heq
      rw [getD_set_self (by omega)]
      omega
    · rw [getD_set_ne heq]
      exact hbound
  · rw [getD_set_ne (by omega)]
    exact h.passed c hc hcandidate

variable (hM : ∀ c, 0 < M c)
  (hframes : ∀ p ∈ packets, ∀ c, schedulerClass p.flow quanta.length = some c → p.sizeBytes ≤ M c)

include hM hframes

/-- A waiting class that the pointer leaves unserved has less than a largest frame. -/
theorem unserved
    (hserves : ¬ ∃ position, DrrServes quanta packets current deficits position) {c : Nat}
    (hc : c ≤ current) (hcandidate : HasCandidate quanta.length c packets) : deficits.getD c 0 < M c := by
  rcases Nat.lt_or_eq_of_le hc with hlt | rfl
  · exact h.passed c hlt hcandidate
  obtain ⟨position, hposition⟩ := hcandidate
  obtain ⟨p, hp, hclass⟩ := schedulerClass_of_classPosition hposition
  have hsize : frameSize packets position ≤ M c := by
    unfold frameSize
    rw [hp]
    exact hframes p (mem_of_getElem? hp) c hclass
  have hpos := hM c
  by_contra hge
  exact hserves ⟨position, hposition, by omega, by omega⟩

theorem advance
    (hserves : ¬ ∃ position, DrrServes quanta packets current deficits position) {after : List Nat}
    (hadvance : drrAdvance quanta packets node current deficits = .ok (next, after)) :
    DrrBounded M quanta packets next after := by
  have hlt := h.current_lt
  have hlen := h.length
  rcases drrAdvance_eq_ok hadvance with ⟨hwrap, rfl, rfl⟩ | ⟨hwrap, rfl, rfl⟩
  · refine ⟨by rw [length_mapIdx, hlen], by omega, fun c hc => ?_,
      fun c hc => absurd hc (Nat.not_lt_zero _)⟩
    rw [getD_mapIdx (by omega)]
    unfold refilled
    split
    · next hsome =>
      have := h.unserved hM hframes hserves (c := c) (by omega) (Option.isSome_iff_exists.1 hsome)
      omega
    · have := hM c
      omega
  · exact ⟨hlen, by omega, h.bounded,
      fun c hc hcandidate => h.unserved hM hframes hserves (by omega) hcandidate⟩

theorem skips {steps stop : Nat} {reached : List Nat}
    (hskips : DrrSkips quanta packets node current deficits steps stop reached) :
    DrrBounded M quanta packets stop reached := by
  induction hskips with
  | start => exact h
  | skip hskips hserves hadvance ih => exact ih.advance hM hframes hserves hadvance

end

end DrrBounded

/-- Where a quantum and a largest frame fit, no refill of the scan overflows. -/
theorem drrNoOverflow_of_bounded {M : Nat → Nat} {packets : List PacketDescriptor}
    {node : NodeId} (hM : ∀ c, 0 < M c)
    (hframes : ∀ p ∈ packets, ∀ c, schedulerClass p.flow quanta.length = some c → p.sizeBytes ≤ M c)
    (hfit : ∀ c < quanta.length, quanta.getD c 0 + (M c - 1) < 2 ^ 64)
    (h : DrrBounded M quanta packets current deficits) :
    DrrNoOverflow quanta packets node current deficits := by
  intro steps stop reached hskips hserves
  have hreached := h.skips hM hframes hskips
  refine drrAdvance_of_lt node fun hwrap c hc hcandidate => ?_
  have hlt := hcandidate.lt
  have hsmall := hreached.unserved hM hframes hserves (c := c) (by omega) hcandidate
  have hroom := hfit c hlt
  omega

/-- Deficit round robin is work-conserving.  From a valid state and candidates whose refills cannot
    overflow, the loop ends with the first candidate of some class, its deficit lower by exactly the
    packet's bytes and every other one what the refills made it.  Unless all candidates are empty
    frames it takes at most one pass plus a pass for each quantum of the largest frame. -/
theorem drr_selection_work_conserving (node : NodeId) (state : DrrSchedulerState) (hvalid : state.Valid)
    (packets : List PacketDescriptor) (hne : packets ≠ [])
    (hfit : DrrNoOverflow state.quantaBytes packets node state.currentClass state.deficitsBytes) :
    ∃ position scanSteps current deficits,
      schedulerSelectPosition (.deficitRoundRobin state) packets node = .ok (some (position, scanSteps),
        .deficitRoundRobin { state with deficitsBytes := deficits, currentClass := current }) ∧
      classPosition state.quantaBytes.length current packets = some position ∧
      (0 < maxFrame packets → scanSteps ≤ state.quantaBytes.length *
        (1 + (maxFrame packets + minQuantum state.quantaBytes - 1) / minQuantum state.quantaBytes)) ∧
      deficits.length = state.quantaBytes.length ∧
      ∀ c < state.quantaBytes.length,
        deficits.getD c 0 + (if c = current then frameSize packets position else 0) =
          deficitAfter state.quantaBytes packets state.deficitsBytes
            ((state.currentClass + scanSteps) / state.quantaBytes.length) c := by
  obtain ⟨steps, stop, reached, position, hskips, hserves, hsteps, hselect⟩ := hvalid.select hne hfit
  obtain ⟨hstop, hreached, hdeficits⟩ := hskips.state hvalid.current_lt hvalid.length
  have hlt : stop < state.quantaBytes.length := HasCandidate.lt ⟨position, hserves.1⟩
  refine ⟨position, steps, stop, _, hselect, hserves.1, fun hframe => ?_, by rw [length_set, hreached],
    fun c hc => ?_⟩
  · have hmin := minQuantum_pos (ne_nil_of_length_pos (Nat.zero_lt_of_lt hvalid.current_lt))
      hvalid.positive
    have hone : 1 ≤ paidRefills state.quantaBytes packets := by
      by_contra hzero
      have hpaid := maxFrame_le_paidRefills hmin packets
      rw [show paidRefills state.quantaBytes packets = 0 by omega, Nat.zero_mul] at hpaid
      omega
    rw [max_eq_right hone] at hsteps
    exact hsteps.le
  · rw [← hdeficits c hc]
    by_cases heq : c = stop
    · subst heq
      rw [if_pos rfl, getD_set_self (by omega)]
      exact Nat.sub_add_cancel hserves.2.2
    · rw [if_neg heq, getD_set_ne (Ne.symm heq), Nat.add_zero]

/-- One candidate whose frame takes two quanta. -/
theorem drr_selection_work_conserving_one :
    DrrNoOverflow [100, 100] [dataFrame 1 150] 7 0 [0, 0] ∧
      ∃ position scanSteps current deficits,
        schedulerSelectPosition (.deficitRoundRobin ⟨[100, 100], [0, 0], 0⟩) [dataFrame 1 150] 7 =
          .ok (some (position, scanSteps), .deficitRoundRobin ⟨[100, 100], deficits, current⟩) ∧
        scanSteps ≤ 2 * (1 + (150 + 100 - 1) / 100) := by
  have hfit : DrrNoOverflow [100, 100] [dataFrame 1 150] 7 0 [0, 0] := by
    refine drrNoOverflow_of_bounded (M := fun _ => 150) (fun _ => by omega) ?_ ?_ ?_
    · intro p hp c _
      rw [mem_singleton.1 hp]
      exact le_refl _
    · intro c hc
      have : c = 0 ∨ c = 1 := by
        simp only [length_cons, length_nil] at hc
        omega
      rcases this with rfl | rfl <;> decide
    · refine ⟨rfl, by decide, ?_, fun c hc => absurd hc (Nat.not_lt_zero _)⟩
      intro c hc
      have : c = 0 ∨ c = 1 := by
        simp only [length_cons, length_nil] at hc
        omega
      rcases this with rfl | rfl <;> decide
  refine ⟨hfit, ?_⟩
  obtain ⟨position, scanSteps, current, deficits, hselect, -, hsteps, -⟩ :=
    drr_selection_work_conserving 7 ⟨[100, 100], [0, 0], 0⟩ ⟨rfl, by decide, by decide⟩
      [dataFrame 1 150] (by decide) hfit
  exact ⟨position, scanSteps, current, deficits, hselect, hsteps (by decide)⟩

/-- With only empty frames waiting the bound without that proviso fails: three scan steps for two
    classes. -/
theorem drr_scan_bound_empty_frame :
    schedulerSelectPosition (.deficitRoundRobin ⟨[1, 1], [0, 0], 0⟩) [dataFrame 1 0] 7 =
        .ok (some (0, 3), .deficitRoundRobin ⟨[1, 1], [0, 1], 1⟩) ∧
      ¬ 3 ≤ 2 * (1 + (maxFrame [dataFrame 1 0] + minQuantum [1, 1] - 1) / minQuantum [1, 1]) :=
  ⟨rfl, by decide⟩

end Days
