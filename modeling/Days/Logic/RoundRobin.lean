/-
  Days.Logic.RoundRobin — weighted round robin shares the link by weight.

  The pointer stays on a class until it has sent its weight or has nothing to
  send, and a class is left with its count cleared.  So over any stretch in
  which two classes always have a candidate, the lead one has over the other,
  each measured in units of the other's weight, is a function of the pointer.
-/
import Mathlib.Tactic.Ring
import Mathlib.Tactic.LinearCombination
import Days.Exec.Queue

namespace Days

variable {packets : List PacketDescriptor} {current : Nat} {sent : List Nat}

variable {classCount fuel i position priority : Nat} {state : WrrSchedulerState}

/-! ## §1. Scheduling classes. -/

theorem getD_set_self {α : Type} {l : List α} {d : α} (h : i < l.length) (v : α) :
    (l.set i v).getD i d = v := by
  simp [List.getD_eq_getElem?_getD, h]

theorem getD_set_ne {α : Type} {l : List α} {d : α} {j : Nat} (h : i ≠ j) (v : α) :
    (l.set i v).getD j d = l.getD j d := by
  simp [List.getD_eq_getElem?_getD, h]

theorem getD_pos {l : List Nat} (h : 0 ∉ l) (hi : i < l.length) : 0 < l.getD i 0 := by
  rw [List.getD_eq_getElem?_getD, List.getElem?_eq_getElem hi]
  exact Nat.pos_of_ne_zero fun hzero => h (hzero ▸ List.getElem_mem hi)

theorem getD_replicate_zero (n i : Nat) : (List.replicate n 0).getD i 0 = 0 := by
  rw [List.getD_eq_getElem?_getD, List.getElem?_replicate]
  split <;> rfl

/-- A data frame; a round-robin scheduler reads only the flow and the size. -/
def dataFrame (flow : FlowId) (sizeBytes : Nat) : PacketDescriptor := ⟨flow, flow, sizeBytes, false, .data⟩

/-- The class has a packet among the candidates. -/
def HasCandidate (classCount priority : Nat) (packets : List PacketDescriptor) : Prop :=
  ∃ position, classPosition classCount priority packets = some position

theorem schedulerClass_lt {flow : FlowId} (h : schedulerClass flow classCount = some priority) :
    priority < classCount := by
  unfold schedulerClass at h
  split at h
  · exact absurd h (by simp)
  · next hcount =>
    rw [← Option.some.inj h]
    exact Nat.mod_lt _ (Nat.pos_of_ne_zero hcount)

/-- The packet at a class's position is of that class. -/
theorem schedulerClass_of_classPosition
    (h : classPosition classCount priority packets = some position) :
    ∃ p, packets[position]? = some p ∧ schedulerClass p.flow classCount = some priority := by
  obtain ⟨hlt, hclass, -⟩ := List.findIdx?_eq_some_iff_getElem.1 h
  exact ⟨packets[position], List.getElem?_eq_getElem hlt, by simpa using hclass⟩

theorem HasCandidate.lt (h : HasCandidate classCount priority packets) : priority < classCount := by
  obtain ⟨position, hposition⟩ := h
  obtain ⟨p, -, hclass⟩ := schedulerClass_of_classPosition hposition
  exact schedulerClass_lt hclass

theorem hasCandidate_iff :
    HasCandidate classCount priority packets ↔
      ∃ p ∈ packets, schedulerClass p.flow classCount = some priority := by
  unfold HasCandidate classPosition
  rw [← Option.isSome_iff_exists, List.findIdx?_isSome, List.any_eq_true]
  simp only [beq_iff_eq]

theorem exists_hasCandidate (hcount : classCount ≠ 0)
    (hne : packets ≠ []) : ∃ priority, HasCandidate classCount priority packets := by
  obtain ⟨p, hp⟩ := List.exists_mem_of_ne_nil packets hne
  exact ⟨p.flow % classCount, hasCandidate_iff.2 ⟨p, hp, by rw [schedulerClass, if_neg hcount]⟩⟩

/-! ## §2. The scan loop. -/

section Scan

variable {weights : List Nat} {packets : List PacketDescriptor} {node : NodeId}

/-- The loop stops at the class: it has a packet and has not sent its weight. -/
def WrrServes (weights : List Nat) (packets : List PacketDescriptor) (current : Nat) (sent : List Nat) :
    Prop :=
  sent.getD current 0 < weights.getD current 0 ∧ HasCandidate weights.length current packets

theorem wrrScan_of_serves (node : NodeId) (fuel : Nat)
    (h : WrrServes weights packets current sent) :
    ∃ position, classPosition weights.length current packets = some position ∧
      wrrScan weights packets node (fuel + 1) current sent =
        .ok (position, current, sent.set current (sent.getD current 0 + 1)) := by
  obtain ⟨hlt, position, hposition⟩ := h
  refine ⟨position, hposition, ?_⟩
  rw [wrrScan, if_pos hlt, hposition]

theorem wrrScan_of_not_serves (h : ¬ WrrServes weights packets current sent) :
    wrrScan weights packets node (fuel + 1) current sent =
      wrrScan weights packets node fuel ((current + 1) % weights.length) (sent.set current 0) := by
  rw [wrrScan]
  by_cases hlt : sent.getD current 0 < weights.getD current 0
  · rw [if_pos hlt]
    cases hposition : classPosition weights.length current packets with
    | none => rfl
    | some position => exact absurd ⟨hlt, position, hposition⟩ h
  · rw [if_neg hlt]

/-- The invariant rule of the loop: what every skip keeps holds where the loop stops. -/
theorem wrrScan_invariant {P : Nat → List Nat → Prop} {stop : Nat} {sent' : List Nat}
    (hskip : ∀ current sent, P current sent → ¬ WrrServes weights packets current sent →
      P ((current + 1) % weights.length) (sent.set current 0)) (h : P current sent)
    (hok : wrrScan weights packets node fuel current sent = .ok (position, stop, sent')) :
    ∃ before, P stop before ∧ WrrServes weights packets stop before ∧
      classPosition weights.length stop packets = some position ∧
      sent' = before.set stop (before.getD stop 0 + 1) := by
  induction fuel generalizing current sent with
  | zero => exact absurd hok (by simp [wrrScan])
  | succ fuel ih =>
    by_cases hserves : WrrServes weights packets current sent
    · obtain ⟨found, hfound, heq⟩ := wrrScan_of_serves node fuel hserves
      rw [heq] at hok
      obtain ⟨rfl, rfl, rfl⟩ := hok
      exact ⟨sent, h, hserves, hfound, rfl⟩
    · rw [wrrScan_of_not_serves hserves] at hok
      exact ih (hskip _ _ h hserves) hok

/-- A waiting class is served when the pointer reaches it, or if it has sent its weight at the next
    pass: passing it clears its count. -/
theorem wrrScan_reaches {target : Nat} (distance : Nat)
    (hlen : sent.length = weights.length) (hpos : 0 ∉ weights) (hcurrent : current < weights.length)
    (htarget : HasCandidate weights.length target packets)
    (hdistance : (current + distance) % weights.length = target)
    (hfuel : distance + (if sent.getD target 0 < weights.getD target 0 then 0 else weights.length) < fuel) :
    ∃ result, wrrScan weights packets node fuel current sent = .ok result := by
  induction fuel generalizing distance current sent with
  | zero => exact absurd hfuel (Nat.not_lt_zero _)
  | succ fuel ih =>
    by_cases hserves : WrrServes weights packets current sent
    · obtain ⟨position, -, heq⟩ := wrrScan_of_serves node fuel hserves
      exact ⟨_, heq⟩
    rw [wrrScan_of_not_serves hserves]
    have hnext : (current + 1) % weights.length < weights.length := Nat.mod_lt _ (by omega)
    have hlength : (sent.set current 0).length = weights.length := by rw [List.length_set, hlen]
    have hcleared : (sent.set current 0).getD current 0 < weights.getD current 0 := by
      rw [getD_set_self (by omega)]
      exact getD_pos hpos hcurrent
    cases distance with
    | zero =>
      rw [Nat.add_zero, Nat.mod_eq_of_lt hcurrent] at hdistance
      subst hdistance
      rw [if_neg fun hmay => hserves ⟨hmay, htarget⟩] at hfuel
      refine ih (weights.length - 1) hlength hnext ?_ (by rw [if_pos hcleared]; omega)
      rw [Nat.mod_add_mod, show current + 1 + (weights.length - 1) = current + weights.length by omega,
        Nat.add_mod_right, Nat.mod_eq_of_lt hcurrent]
    | succ distance =>
      refine ih distance hlength hnext ?_ ?_
      · rw [Nat.mod_add_mod, ← hdistance]
        congr 1
        omega
      · by_cases heq : current = target
        · subst heq
          rw [if_pos hcleared]
          omega
        · rw [getD_set_ne heq]
          omega

/-- The loop ends within two passes over the classes. -/
theorem wrrScan_terminates (node : NodeId)
    (hlen : sent.length = weights.length) (hpos : 0 ∉ weights) (hcurrent : current < weights.length)
    (hne : packets ≠ []) (hfuel : 2 * weights.length ≤ fuel) :
    ∃ result, wrrScan weights packets node fuel current sent = .ok result := by
  obtain ⟨target, htarget⟩ := exists_hasCandidate (Nat.ne_zero_of_lt hcurrent) hne
  have hlt := htarget.lt
  have hdistance : ∃ distance < weights.length, (current + distance) % weights.length = target := by
    by_cases hahead : current ≤ target
    · refine ⟨target - current, by omega, ?_⟩
      rw [show current + (target - current) = target by omega, Nat.mod_eq_of_lt hlt]
    · refine ⟨target + weights.length - current, by omega, ?_⟩
      rw [show current + (target + weights.length - current) = target + weights.length by omega,
        Nat.add_mod_right, Nat.mod_eq_of_lt hlt]
  obtain ⟨distance, hnear, hdistance⟩ := hdistance
  refine wrrScan_reaches distance hlen hpos hcurrent htarget hdistance ?_
  split <;> omega

end Scan

/-! ## §3. Selections. -/

/-- Successive selections of a scheduler: the candidates of each, and the position it chose. -/
inductive Selections (node : NodeId) :
    SchedulerKind → List (List PacketDescriptor × Nat) → SchedulerKind → Prop
  | nil (scheduler : SchedulerKind) : Selections node scheduler [] scheduler
  | cons {scheduler next last : SchedulerKind} {packets : List PacketDescriptor}
      {position scanSteps : Nat} {rest : List (List PacketDescriptor × Nat)}
      (hselect : schedulerSelectPosition scheduler packets node = .ok (some (position, scanSteps), next))
      (hrest : Selections node next rest last) :
      Selections node scheduler ((packets, position) :: rest) last

/-- The packet a selection chose is of the class. -/
def servesClass (classCount priority : Nat) (selection : List PacketDescriptor × Nat) : Bool :=
  (selection.1[selection.2]?).bind (fun p => schedulerClass p.flow classCount) == some priority

/-- The packets of a class served over some selections. -/
def servedCount (classCount priority : Nat) (selections : List (List PacketDescriptor × Nat)) : Nat :=
  selections.countP (servesClass classCount priority)

theorem servesClass_of_classPosition
    (h : classPosition classCount priority packets = some position) (other : Nat) :
    servesClass classCount other (packets, position) = decide (priority = other) := by
  obtain ⟨p, hp, hclass⟩ := schedulerClass_of_classPosition h
  simp [servesClass, hp, hclass, beq_eq_decide]

/-- A state with counters and pointer of the right shape. -/
structure WrrSchedulerState.Valid (state : WrrSchedulerState) : Prop where
  length : state.packetsSentInRound.length = state.weights.length
  positive : 0 ∉ state.weights
  current_lt : state.currentClass < state.weights.length

/-- Every selection ends with the first candidate of its class. -/
theorem WrrSchedulerState.Valid.select (h : state.Valid) (hne : packets ≠ []) (node : NodeId) :
    ∃ position current sent,
      wrrScan state.weights packets node (wrrFuel state.weights.length) state.currentClass
        state.packetsSentInRound = .ok (position, current, sent) ∧
      classPosition state.weights.length current packets = some position ∧
      schedulerSelectPosition (.weightedRoundRobin state) packets node = .ok (some (position, 0),
        .weightedRoundRobin { state with packetsSentInRound := sent, currentClass := current }) := by
  have hfuel : 2 * state.weights.length ≤ wrrFuel state.weights.length := Nat.le_add_right _ 2
  obtain ⟨⟨position, current, sent⟩, hscan⟩ :=
    wrrScan_terminates node h.length h.positive h.current_lt hne hfuel
  obtain ⟨-, -, -, hposition, -⟩ :=
    wrrScan_invariant (P := fun _ _ => True) (fun _ _ _ _ => trivial) trivial hscan
  have hcount : state.weights.length ≠ 0 := Nat.ne_zero_of_lt h.current_lt
  refine ⟨position, current, sent, hscan, hposition, ?_⟩
  unfold schedulerSelectPosition
  rw [if_neg (by simpa using hne)]
  simp only [require, if_pos h.current_lt, if_pos (And.intro hcount (And.intro h.length h.positive)),
    hscan, bind, Except.bind, pure, Except.pure]

/-! ## §4. The lead of one class over another. -/

/-- What holds of a state that grew from cleared counters: only the pointer's class has sent. -/
structure WrrSchedulerState.Round (weights : List Nat) (current : Nat) (sent : List Nat) : Prop where
  length : sent.length = weights.length
  current_lt : current < weights.length
  cleared : ∀ other, other ≠ current → sent.getD other 0 = 0
  within : sent.getD current 0 ≤ weights.getD current 0

namespace WrrSchedulerState.Round

variable {weights : List Nat} {packets : List PacketDescriptor} {current : Nat} {sent : List Nat}

theorem clear (h : Round weights current sent) (other : Nat) : (sent.set current 0).getD other 0 = 0 := by
  by_cases heq : current = other
  · subst heq
    exact getD_set_self (by rw [h.length]; exact h.current_lt) 0
  · rw [getD_set_ne heq]
    exact h.cleared other (Ne.symm heq)

theorem skip (h : Round weights current sent) :
    Round weights ((current + 1) % weights.length) (sent.set current 0) := by
  have hlt := h.current_lt
  exact ⟨by rw [List.length_set, h.length], Nat.mod_lt _ (by omega), fun other _ => h.clear other,
    by rw [h.clear]; exact Nat.zero_le _⟩

theorem serve (h : Round weights current sent) (hserves : WrrServes weights packets current sent) :
    Round weights current (sent.set current (sent.getD current 0 + 1)) := by
  refine ⟨by rw [List.length_set, h.length], h.current_lt, fun other hne => ?_, ?_⟩
  · rw [getD_set_ne (Ne.symm hne)]
    exact h.cleared other hne
  · rw [getD_set_self (by rw [h.length]; exact h.current_lt)]
    exact hserves.1

end WrrSchedulerState.Round

/-- How far `c` is ahead of a later class `d` in the current round, each packet of one class counted
    with the other's weight. -/
def wrrLead (weights : List Nat) (c d current : Nat) (sent : List Nat) : Int :=
  if current ≤ c then sent.getD c 0 * weights.getD d 0
  else if current < d then weights.getD c 0 * weights.getD d 0
  else if current = d then weights.getD c 0 * weights.getD d 0 - sent.getD d 0 * weights.getD c 0
  else 0

section Lead

variable {weights : List Nat} {packets : List PacketDescriptor} {current c d : Nat} {sent : List Nat}

open WrrSchedulerState (Round)

section

variable (h : Round weights current sent)

include h

theorem Round.sent_le (x : Nat) : sent.getD x 0 ≤ weights.getD x 0 := by
  by_cases heq : x = current
  · rw [heq]
    exact h.within
  · rw [h.cleared x heq]
    exact Nat.zero_le _

theorem wrrLead_bounds :
    0 ≤ wrrLead weights c d current sent ∧
      wrrLead weights c d current sent ≤ weights.getD c 0 * weights.getD d 0 := by
  have hc : (sent.getD c 0 : Int) * weights.getD d 0 ≤ weights.getD c 0 * weights.getD d 0 := by
    exact_mod_cast Nat.mul_le_mul_right _ (Round.sent_le h c)
  have hd : (sent.getD d 0 : Int) * weights.getD c 0 ≤ weights.getD c 0 * weights.getD d 0 := by
    rw [mul_comm (weights.getD c 0 : Int)]
    exact_mod_cast Nat.mul_le_mul_right _ (Round.sent_le h d)
  have hnonneg (a b : Nat) : (0 : Int) ≤ a * b := by exact_mod_cast Nat.zero_le (a * b)
  have h0 := hnonneg (weights.getD c 0) (weights.getD d 0)
  have h1 := hnonneg (sent.getD c 0) (weights.getD d 0)
  have h2 := hnonneg (sent.getD d 0) (weights.getD c 0)
  unfold wrrLead
  split
  · exact ⟨h1, hc⟩
  split
  · exact ⟨h0, le_refl _⟩
  split
  · constructor <;> omega
  · exact ⟨le_refl _, h0⟩

/-- A class with a candidate is left only once it has sent its weight. -/
theorem sent_eq_of_not_serves (hcandidate : HasCandidate weights.length current packets)
    (hskip : ¬ WrrServes weights packets current sent) : sent.getD current 0 = weights.getD current 0 := by
  have hnot : ¬ sent.getD current 0 < weights.getD current 0 := fun hlt => hskip ⟨hlt, hcandidate⟩
  have hle := h.within
  omega

/-- Skipping a class does not change the lead. -/
theorem wrrLead_skip (hlt : c < d)
    (hc : HasCandidate weights.length c packets) (hd : HasCandidate weights.length d packets)
    (hskip : ¬ WrrServes weights packets current sent) :
    wrrLead weights c d ((current + 1) % weights.length) (sent.set current 0) =
      wrrLead weights c d current sent := by
  have hcurrent := h.current_lt
  have hdlt := hd.lt
  unfold wrrLead
  simp only [h.clear, Nat.cast_zero, zero_mul, sub_zero]
  -- Where the pointer stands before the skip decides the branch after it.
  rcases lt_trichotomy current c with hbefore | rfl | hafter
  · rw [Nat.mod_eq_of_lt (by omega), if_pos (by omega), if_pos (by omega), h.cleared c (by omega)]
    simp
  · have hsent := sent_eq_of_not_serves h hc hskip
    rw [Nat.mod_eq_of_lt (by omega), if_neg (by omega), if_pos (le_refl _), hsent]
    by_cases hnext : current + 1 < d
    · rw [if_pos hnext]
    · rw [if_neg hnext, if_pos (by omega)]
  · rw [if_neg (show ¬ current ≤ c by omega)]
    rcases lt_trichotomy current d with hbetween | rfl | hpast
    · rw [Nat.mod_eq_of_lt (by omega), if_neg (by omega), if_pos hbetween]
      by_cases hnext : current + 1 < d
      · rw [if_pos hnext]
      · rw [if_neg hnext, if_pos (by omega)]
    · have hsent := sent_eq_of_not_serves h hd hskip
      rw [if_neg (lt_irrefl _), if_pos rfl, hsent, mul_comm (weights.getD current 0 : Int), sub_self]
      by_cases hwrap : current + 1 = weights.length
      · rw [hwrap, Nat.mod_self, if_pos (Nat.zero_le _)]
      · rw [Nat.mod_eq_of_lt (by omega), if_neg (by omega), if_neg (by omega), if_neg (by omega)]
    · rw [if_neg (show ¬ current < d by omega), if_neg (show ¬ current = d by omega)]
      by_cases hwrap : current + 1 = weights.length
      · rw [hwrap, Nat.mod_self, if_pos (Nat.zero_le _)]
      · rw [Nat.mod_eq_of_lt (by omega), if_neg (by omega), if_neg (by omega), if_neg (by omega)]

/-- Serving a class moves the lead by the other's weight. -/
theorem wrrLead_serve (hlt : c < d) :
    wrrLead weights c d current (sent.set current (sent.getD current 0 + 1)) =
      wrrLead weights c d current sent + (if current = c then (weights.getD d 0 : Int) else 0) -
        (if current = d then (weights.getD c 0 : Int) else 0) := by
  have hself := getD_set_self (l := sent) (d := 0) (i := current) (by rw [h.length]; exact h.current_lt)
    (sent.getD current 0 + 1)
  have hother (x : Nat) (hne : current ≠ x) :=
    getD_set_ne (l := sent) (d := 0) hne (sent.getD current 0 + 1)
  unfold wrrLead
  rcases lt_trichotomy current c with hbefore | rfl | hafter
  · rw [if_pos (by omega), if_pos (by omega), if_neg (by omega), if_neg (by omega), hother c (by omega)]
    ring
  · rw [if_pos (le_refl _), if_pos (le_refl _), if_pos rfl, if_neg (by omega), hself]
    push_cast
    ring
  · simp only [if_neg (show ¬ current ≤ c by omega), if_neg (show ¬ current = c by omega)]
    rcases lt_trichotomy current d with hbetween | rfl | hpast
    · simp only [if_pos hbetween, if_neg (show ¬ current = d by omega)]
      ring
    · simp only [lt_irrefl, if_false, if_true, hself]
      push_cast
      ring
    · simp only [if_neg (show ¬ current < d by omega), if_neg (show ¬ current = d by omega)]
      ring

end

end Lead

/-! ## §5. Runs. -/

open WrrSchedulerState (Round)

/-- One selection: the lead at the class where the loop stops is the lead before, and that class then
    sends one packet. -/
theorem wrr_step {node : NodeId} {scanSteps : Nat} {next : SchedulerKind} (hpos : 0 ∉ state.weights)
    (hround : Round state.weights state.currentClass state.packetsSentInRound)
    (h : schedulerSelectPosition (.weightedRoundRobin state) packets node =
      .ok (some (position, scanSteps), next)) :
    ∃ current sent, next = .weightedRoundRobin ⟨state.weights, sent, current⟩ ∧
      classPosition state.weights.length current packets = some position ∧
      Round state.weights current sent ∧
      ∀ c d, c < d → HasCandidate state.weights.length c packets →
        HasCandidate state.weights.length d packets →
        wrrLead state.weights c d current sent =
          wrrLead state.weights c d state.currentClass state.packetsSentInRound +
            (if current = c then (state.weights.getD d 0 : Int) else 0) -
            (if current = d then (state.weights.getD c 0 : Int) else 0) := by
  have hne : packets ≠ [] := by
    rintro rfl
    simp [schedulerSelectPosition] at h
  obtain ⟨found, current, sent, hscan, hposition, hselect⟩ :=
    WrrSchedulerState.Valid.select ⟨hround.length, hpos, hround.current_lt⟩ hne node
  rw [hselect] at h
  obtain ⟨⟨rfl, rfl⟩, rfl⟩ := h
  -- The invariant of the loop: the round's shape, and the lead of every pair of waiting classes.
  obtain ⟨before, ⟨hbefore, hlead⟩, hserves, -, rfl⟩ := wrrScan_invariant
    (P := fun current sent => Round state.weights current sent ∧
      ∀ c d, c < d → HasCandidate state.weights.length c packets →
        HasCandidate state.weights.length d packets →
        wrrLead state.weights c d current sent =
          wrrLead state.weights c d state.currentClass state.packetsSentInRound)
    (fun current sent hinv hskip => ⟨hinv.1.skip, fun c d hlt hc hd =>
      (wrrLead_skip hinv.1 hlt hc hd hskip).trans (hinv.2 c d hlt hc hd)⟩)
    ⟨hround, fun _ _ _ _ _ => rfl⟩ hscan
  refine ⟨current, _, rfl, hposition, hbefore.serve hserves, fun c d hlt hc hd => ?_⟩
  rw [wrrLead_serve hbefore hlt, hlead c d hlt hc hd]

/-- Over a run the difference of the weighted counts is the change of the lead. -/
theorem Selections.wrr {node : NodeId} {scheduler last : SchedulerKind}
    {selections : List (List PacketDescriptor × Nat)}
    (h : Selections node scheduler selections last)
    (hscheduler : scheduler = .weightedRoundRobin state) (hpos : 0 ∉ state.weights)
    (hround : Round state.weights state.currentClass state.packetsSentInRound) :
    ∃ current sent, last = .weightedRoundRobin ⟨state.weights, sent, current⟩ ∧
      Round state.weights current sent ∧
      ∀ c d, c < d → (∀ selection ∈ selections, HasCandidate state.weights.length c selection.1 ∧
          HasCandidate state.weights.length d selection.1) →
        (servedCount state.weights.length c selections : Int) * state.weights.getD d 0 -
            servedCount state.weights.length d selections * state.weights.getD c 0 =
          wrrLead state.weights c d current sent -
            wrrLead state.weights c d state.currentClass state.packetsSentInRound := by
  induction h generalizing state with
  | nil scheduler =>
    refine ⟨state.currentClass, state.packetsSentInRound, hscheduler, hround, fun c d _ _ => ?_⟩
    simp [servedCount]
  | @cons scheduler next last packets position scanSteps rest hselect hrest ih =>
    subst hscheduler
    obtain ⟨middle, sent, rfl, hposition, hround', hlead⟩ := wrr_step hpos hround hselect
    obtain ⟨current, sent', hlast, hround'', hrun⟩ := ih rfl hpos hround'
    refine ⟨current, sent', hlast, hround'', fun c d hlt hcandidates => ?_⟩
    obtain ⟨hc, hd⟩ := hcandidates (packets, position) List.mem_cons_self
    have hstep := hlead c d hlt hc hd
    have htail := hrun c d hlt fun selection hs => hcandidates selection (List.mem_cons_of_mem _ hs)
    have hcount (x : Nat) : (servedCount state.weights.length x ((packets, position) :: rest) : Int) =
        servedCount state.weights.length x rest + (if middle = x then 1 else 0) := by
      unfold servedCount
      rw [List.countP_cons, servesClass_of_classPosition hposition]
      by_cases heq : middle = x <;> simp [heq]
    rw [hcount, hcount]
    dsimp only at htail hstep
    rw [hstep] at htail
    split_ifs at htail ⊢ with hmc hmd <;> linear_combination htail

theorem WrrSchedulerState.new_round {weights : List Nat} (hne : weights ≠ []) :
    Round weights (WrrSchedulerState.new weights).currentClass
      (WrrSchedulerState.new weights).packetsSentInRound := by
  exact ⟨List.length_replicate, List.length_pos_iff.2 hne, fun x _ => getD_replicate_zero _ x,
    by rw [WrrSchedulerState.new, getD_replicate_zero]; exact Nat.zero_le _⟩

/-- Weighted fairness.  From a fresh state, over any interval of selections during which two classes
    always have a candidate, the packets served of each differ, in the other's weight, by at most the
    product of the weights; and from every state reached a selection ends with the first candidate of
    its class. -/
theorem wrr_weighted_fairness (node : NodeId) (weights : List Nat) (hne : weights ≠ [])
    (hpos : 0 ∉ weights) (before during : List (List PacketDescriptor × Nat))
    (start last : SchedulerKind)
    (hbefore : Selections node (.weightedRoundRobin (.new weights)) before start)
    (hduring : Selections node start during last) :
    (∀ c d, (∀ selection ∈ during, HasCandidate weights.length c selection.1 ∧
          HasCandidate weights.length d selection.1) →
        |(servedCount weights.length c during : Int) * weights.getD d 0 -
            servedCount weights.length d during * weights.getD c 0| ≤
          weights.getD c 0 * weights.getD d 0) ∧
      ∀ packets, packets ≠ [] → ∃ priority position next,
        classPosition weights.length priority packets = some position ∧
        schedulerSelectPosition last packets node = .ok (some (position, 0), next) := by
  obtain ⟨current, sent, rfl, hround, -⟩ :=
    hbefore.wrr rfl hpos (WrrSchedulerState.new_round hne)
  obtain ⟨current', sent', rfl, hround', hlead⟩ := hduring.wrr rfl hpos hround
  refine ⟨fun c d hcandidates => ?_, fun packets hpackets => ?_⟩
  · wlog hle : c ≤ d generalizing c d
    · rw [abs_sub_comm, mul_comm (weights.getD c 0 : Int)]
      exact this d c (fun selection hs => (hcandidates selection hs).symm) (Nat.le_of_not_le hle)
    rcases hle.lt_or_eq with hlt | rfl
    · obtain ⟨hlow, hhigh⟩ := wrrLead_bounds (c := c) (d := d) hround
      obtain ⟨hlow', hhigh'⟩ := wrrLead_bounds (c := c) (d := d) hround'
      have heq := hlead c d hlt hcandidates
      dsimp only [WrrSchedulerState.new] at heq hlow hhigh hlow' hhigh'
      rw [heq, abs_le]
      constructor <;> omega
    · rw [sub_self, abs_zero]
      exact_mod_cast Nat.zero_le _
  · have hvalid : (⟨weights, sent', current'⟩ : WrrSchedulerState).Valid :=
      ⟨hround'.length, hpos, hround'.current_lt⟩
    obtain ⟨position, priority, sent'', -, hposition, hselect⟩ := hvalid.select hpackets node
    exact ⟨priority, position, _, hposition, hselect⟩

/-- Weights two and one, with one packet of each class waiting after the first selection. -/
theorem wrr_weighted_fairness_two :
    Selections 7 (.weightedRoundRobin (.new [2, 1])) [([dataFrame 0 100], 0)]
        (.weightedRoundRobin ⟨[2, 1], [1, 0], 0⟩) ∧
      Selections 7 (.weightedRoundRobin ⟨[2, 1], [1, 0], 0⟩)
        [([dataFrame 0 100, dataFrame 1 100], 0), ([dataFrame 0 100, dataFrame 1 100], 1)]
        (.weightedRoundRobin ⟨[2, 1], [0, 1], 1⟩) ∧
      |(servedCount 2 0
          [([dataFrame 0 100, dataFrame 1 100], 0), ([dataFrame 0 100, dataFrame 1 100], 1)] : Int) * 1 -
        servedCount 2 1
          [([dataFrame 0 100, dataFrame 1 100], 0), ([dataFrame 0 100, dataFrame 1 100], 1)] * 2| ≤
        2 * 1 := by
  have hfirst : schedulerSelectPosition (.weightedRoundRobin (.new [2, 1])) [dataFrame 0 100] 7 =
      .ok (some (0, 0), .weightedRoundRobin ⟨[2, 1], [1, 0], 0⟩) := rfl
  have hsecond : schedulerSelectPosition (.weightedRoundRobin ⟨[2, 1], [1, 0], 0⟩)
      [dataFrame 0 100, dataFrame 1 100] 7 =
      .ok (some (0, 0), .weightedRoundRobin ⟨[2, 1], [2, 0], 0⟩) := rfl
  have hthird : schedulerSelectPosition (.weightedRoundRobin ⟨[2, 1], [2, 0], 0⟩)
      [dataFrame 0 100, dataFrame 1 100] 7 =
      .ok (some (1, 0), .weightedRoundRobin ⟨[2, 1], [0, 1], 1⟩) := rfl
  have hbefore := Selections.cons hfirst (.nil _)
  have hduring := Selections.cons hsecond (.cons hthird (.nil _))
  refine ⟨hbefore, hduring, (wrr_weighted_fairness 7 [2, 1] (by decide) (by decide) _ _ _ _ hbefore
    hduring).1 0 1 fun selection hs => ?_⟩
  have hboth : selection.1 = [dataFrame 0 100, dataFrame 1 100] := by
    simp only [List.mem_cons, List.not_mem_nil, or_false] at hs
    rcases hs with rfl | rfl <;> rfl
  rw [hboth]
  exact ⟨⟨0, rfl⟩, ⟨1, rfl⟩⟩

end Days
