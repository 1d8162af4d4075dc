/-
  Days.Logic.DeficitRun — how far the deficits of deficit round robin grow.

  A class keeps what it did not spend when it empties or is paused; only a class with
  nothing to offer at a refill starts again from zero.  So a class that empties or pauses and
  comes back between two wraps of the pointer saves up credit, and the bound of a
  quantum and a largest frame holds for the runs in which none does.
-/
import Days.Logic.DeficitScan

namespace Days

open List

/-! ## §1. Runs of a queue. -/

/-- A queue served by deficit round robin, with the packets PFC holds back. -/
structure DrrQueue where
  waiting : List PacketDescriptor
  paused : PacketDescriptor → Bool
  state : DrrSchedulerState

inductive DrrEvent where
  | arrive (packet : PacketDescriptor)
  | pause (paused : PacketDescriptor → Bool)
  | select

namespace DrrQueue

/-- The packets that may be served, each with its place in the queue. -/
def eligible (queue : DrrQueue) : List (PacketDescriptor × Nat) :=
  queue.waiting.zipIdx.filter fun entry => !queue.paused entry.1

/-- The packets the scheduler is offered. -/
def offered (queue : DrrQueue) : List PacketDescriptor := queue.waiting.filter fun p => !queue.paused p

/-- An arrival joins the tail, a PFC frame changes what is held back, and a selection takes its packet
    out. -/
def step (node : NodeId) (queue : DrrQueue) : DrrEvent → Except PlainError DrrQueue
  | .arrive packet => .ok { queue with waiting := queue.waiting ++ [packet] }
  | .pause paused => .ok { queue with paused }
  | .select => do
    match ← schedulerSelectPosition (.deficitRoundRobin queue.state) (queue.eligible.map (·.1)) node with
    | (some (position, _), .deficitRoundRobin state) =>
      let chosen ← okOr queue.eligible[position]? (.invalidSchedulerState node)
      return { queue with waiting := queue.waiting.eraseIdx chosen.2, state }
    | _ => return queue

def run (node : NodeId) (queue : DrrQueue) (events : List DrrEvent) : Except PlainError DrrQueue :=
  events.foldlM (fun queue event => queue.step node event) queue

/-- No class comes back with credit: one that is offered from now on was offered already, is one the
    pointer has not passed in this round, or has less than a largest frame saved. -/
def Returns (M : Nat → Nat) (queue : DrrQueue) (offered : List PacketDescriptor) : Prop :=
  ∀ c, HasCandidate queue.state.quantaBytes.length c offered →
    HasCandidate queue.state.quantaBytes.length c queue.offered ∨
      queue.state.currentClass ≤ c ∨ queue.state.deficitsBytes.getD c 0 < M c

/-- Frames are no larger than `M`, and neither an arrival nor the end of a pause brings back credit. -/
def Meets (M : Nat → Nat) (queue : DrrQueue) : DrrEvent → Prop
  | .arrive packet => (∀ c, schedulerClass packet.flow queue.state.quantaBytes.length = some c →
      packet.sizeBytes ≤ M c) ∧ queue.Returns M { queue with waiting := queue.waiting ++ [packet] }.offered
  | .pause paused => queue.Returns M { queue with paused }.offered
  | .select => True

/-- The scheduler is offered the packets that are not held back, in order. -/
theorem eligible_map_fst (queue : DrrQueue) : queue.eligible.map (·.1) = queue.offered := by
  have hfilter := filter_map (f := Prod.fst) (p := fun p => !queue.paused p) (l := queue.waiting.zipIdx)
  rw [zipIdx_map_fst] at hfilter
  exact hfilter.symm

end DrrQueue

/-- The queues reached by events that all meet the condition. -/
inductive DrrRun (node : NodeId) (M : Nat → Nat) (first : DrrQueue) : DrrQueue → Prop
  | start : DrrRun node M first first
  | step {queue next : DrrQueue} (event : DrrEvent) (hrun : DrrRun node M first queue)
      (hmeets : queue.Meets M event) (hstep : queue.step node event = .ok next) : DrrRun node M first next

/-! ## §2. The invariant. -/

/-- The invariant of a run: the packets waiting are no larger than `M`, and the deficits are bounded. -/
structure DrrQueue.Bounded (M : Nat → Nat) (quanta : List Nat) (queue : DrrQueue) : Prop where
  sameQuanta : queue.state.quantaBytes = quanta
  frames : ∀ p ∈ queue.waiting, ∀ c, schedulerClass p.flow quanta.length = some c → p.sizeBytes ≤ M c
  deficits : DrrBounded M quanta queue.offered queue.state.currentClass queue.state.deficitsBytes

section Run

variable {M : Nat → Nat} {quanta : List Nat} {queue next : DrrQueue} {node : NodeId}

/-- A selection keeps the invariant and cannot fail. -/
theorem DrrQueue.Bounded.select (h : queue.Bounded M quanta) (hpos : 0 ∉ quanta) (hM : ∀ c, 0 < M c)
    (hfit : ∀ c < quanta.length, quanta.getD c 0 + (M c - 1) < 2 ^ 64) (node : NodeId) :
    ∃ next, queue.step node .select = .ok next ∧ next.Bounded M quanta := by
  obtain ⟨hquanta, hframes, hdeficits⟩ := h
  subst hquanta
  have hsublist : queue.offered.Sublist queue.waiting := filter_sublist
  by_cases hne : queue.offered = []
  · refine ⟨queue, ?_, rfl, hframes, hdeficits⟩
    unfold DrrQueue.step
    rw [queue.eligible_map_fst, hne]
    rfl
  have hvalid : queue.state.Valid := ⟨hdeficits.length, hpos, hdeficits.current_lt⟩
  have hoffered : ∀ p ∈ queue.offered, ∀ c, schedulerClass p.flow queue.state.quantaBytes.length = some c →
      p.sizeBytes ≤ M c := fun p hp => hframes p (hsublist.subset hp)
  have hroom : DrrNoOverflow queue.state.quantaBytes queue.offered node queue.state.currentClass
      queue.state.deficitsBytes := drrNoOverflow_of_bounded hM hoffered hfit hdeficits
  obtain ⟨steps, stop, reached, position, hskips, hserves, -, hselect⟩ := hvalid.select hne hroom
  have hreached := hdeficits.skips hM hoffered hskips
  obtain ⟨chosen, hchosen⟩ : ∃ chosen, queue.eligible[position]? = some chosen := by
    obtain ⟨hlt, -⟩ := findIdx?_eq_some_iff_getElem.1 hserves.1
    rw [← queue.eligible_map_fst, length_map] at hlt
    exact ⟨_, getElem?_eq_getElem hlt⟩
  refine ⟨⟨queue.waiting.eraseIdx chosen.2, queue.paused, ⟨queue.state.quantaBytes,
    reached.set stop (reached.getD stop 0 - frameSize queue.offered position), stop⟩⟩, ?_, rfl,
    fun p hp => ?_, ?_⟩
  · unfold DrrQueue.step
    rw [queue.eligible_map_fst, hselect]
    exact bind_eq_ok.2 ⟨_, rfl, bind_eq_ok.2 ⟨chosen, okOr_eq_ok.2 hchosen, rfl⟩⟩
  · exact hframes p ((eraseIdx_sublist _ _).subset hp)
  · refine (hreached.serve position).anti fun c hc => ?_
    obtain ⟨p, hp, hclass⟩ := hasCandidate_iff.1 hc
    exact hasCandidate_iff.2 ⟨p, ((eraseIdx_sublist _ _).filter _).subset hp, hclass⟩

/-- Deficits stay bounded when no class comes back with credit. -/
theorem DrrQueue.Bounded.returns (h : queue.Bounded M quanta) {offered : List PacketDescriptor}
    (hreturns : queue.Returns M offered) :
    DrrBounded M quanta offered queue.state.currentClass queue.state.deficitsBytes := by
  obtain ⟨rfl, -, hdeficits⟩ := h
  refine ⟨hdeficits.length, hdeficits.current_lt, hdeficits.bounded, fun c hc hcandidate => ?_⟩
  rcases hreturns c hcandidate with hbefore | hahead | hsmall
  · exact hdeficits.passed c hc hbefore
  · exact absurd hc (Nat.not_lt.2 hahead)
  · exact hsmall

theorem DrrQueue.Bounded.step (h : queue.Bounded M quanta) (hpos : 0 ∉ quanta) (hM : ∀ c, 0 < M c)
    (hfit : ∀ c < quanta.length, quanta.getD c 0 + (M c - 1) < 2 ^ 64) {event : DrrEvent}
    (hmeets : queue.Meets M event) (hstep : queue.step node event = .ok next) :
    next.Bounded M quanta := by
  cases event with
  | select =>
    obtain ⟨other, hother, hbounded⟩ := h.select hpos hM hfit node
    rw [hstep] at hother
    rw [Except.ok.inj hother]
    exact hbounded
  | pause paused =>
    have hnext := Except.ok.inj hstep
    subst hnext
    exact ⟨h.sameQuanta, h.frames, h.returns hmeets⟩
  | arrive packet =>
    have hnext := Except.ok.inj hstep
    subst hnext
    obtain ⟨hsize, hreturns⟩ := hmeets
    rw [h.sameQuanta] at hsize
    refine ⟨h.sameQuanta, fun p hp c hclass => ?_, h.returns hreturns⟩
    rcases mem_append.1 hp with hp | hp
    · exact h.frames p hp c hclass
    · rw [mem_singleton.1 hp] at hclass ⊢
      exact hsize c hclass

end Run

/-- The deficit bound.  From zero deficits, in every run of arrivals, pauses and selections in which no
    arrival or end of a pause brings back saved credit, the deficit of a class stays at most a quantum
    and a largest frame less one byte, and no event fails. -/
theorem drr_deficit_bounded (node : NodeId) (quanta : List Nat) (hne : quanta ≠ []) (hpos : 0 ∉ quanta)
    (M : Nat → Nat) (hM : ∀ c, 0 < M c)
    (hfit : ∀ c < quanta.length, quanta.getD c 0 + (M c - 1) < 2 ^ 64) (queue : DrrQueue)
    (hrun : DrrRun node M ⟨[], fun _ => false, .new quanta⟩ queue) :
    (∀ c < quanta.length, queue.state.deficitsBytes.getD c 0 ≤ quanta.getD c 0 + M c - 1) ∧
      ∀ event, ∃ next, queue.step node event = .ok next := by
  have hbounded : queue.Bounded M quanta := by
    induction hrun with
    | start =>
      refine ⟨rfl, by simp, length_replicate, length_pos_iff.2 hne, fun c hc => ?_,
        fun c hc => absurd hc (Nat.not_lt_zero _)⟩
      have hquantum := getD_pos hpos hc
      dsimp only [DrrSchedulerState.new]
      rw [getD_replicate_zero]
      omega
    | step event hrun hmeets hstep ih => exact ih.step hpos hM hfit hmeets hstep
  refine ⟨fun c hc => ?_, fun event => ?_⟩
  · have := hbounded.deficits.bounded c hc
    omega
  · cases event with
    | arrive packet => exact ⟨_, rfl⟩
    | pause paused => exact ⟨_, rfl⟩
    | select =>
      obtain ⟨next, hstep, -⟩ := hbounded.select hpos hM hfit node
      exact ⟨next, hstep⟩

/-- Two packets of two classes, the first held back while the second is served. -/
theorem drr_deficit_bounded_two :
    ∃ queue, DrrRun 7 (fun _ => 150) ⟨[], fun _ => false, .new [100, 100]⟩ queue ∧
      queue.waiting = [dataFrame 0 150] ∧ queue.state.deficitsBytes.getD 1 0 ≤ 100 + 150 - 1 := by
  have hrun : DrrRun 7 (fun _ => 150) ⟨[], fun _ => false, .new [100, 100]⟩
      ⟨[dataFrame 0 150], fun p => p.flow == 0, ⟨[100, 100], [0, 50], 1⟩⟩ := by
    -- The pointer has passed no class before the selection.
    have hfirst {queue : DrrQueue} (h : queue.state.currentClass = 0) (offered : List PacketDescriptor) :
        queue.Returns (fun _ => 150) offered := fun c _ => .inr (.inl (h ▸ Nat.zero_le c))
    refine .step .select (.step (.pause fun p => p.flow == 0) (.step (.arrive (dataFrame 1 150))
      (.step (.arrive (dataFrame 0 150)) .start ⟨fun _ _ => le_refl 150, hfirst rfl _⟩ rfl)
      ⟨fun _ _ => le_refl 150, hfirst rfl _⟩ rfl) (hfirst rfl _) rfl) trivial rfl
  have hbound := drr_deficit_bounded 7 [100, 100] (by decide) (by decide) (fun _ => 150)
    (fun _ => by decide) (fun c hc => by
      have : c = 0 ∨ c = 1 := by
        simp only [length_cons, length_nil] at hc
        omega
      rcases this with rfl | rfl <;> decide) _ hrun
  exact ⟨_, hrun, rfl, hbound.1 1 (by decide)⟩

/-- One-byte packets of two classes that arrive in pairs, each pair served before the next.  Class `0`
    has a quantum of `2 ^ 63`, which with a one-byte frame cannot overflow; it keeps what it did not
    spend, exceeds its bound at the second pair and overflows at the third. -/
theorem drr_deficit_saved_up :
    (∃ queue, DrrQueue.run 7 ⟨[], fun _ => false, .new [2 ^ 63, 1]⟩
        [.arrive (dataFrame 0 1), .arrive (dataFrame 1 1), .select, .select,
         .arrive (dataFrame 0 1), .arrive (dataFrame 1 1), .select] = .ok queue ∧
      queue.state.deficitsBytes.getD 0 0 > 2 ^ 63 + 1 - 1) ∧
    DrrQueue.run 7 ⟨[], fun _ => false, .new [2 ^ 63, 1]⟩
        [.arrive (dataFrame 0 1), .arrive (dataFrame 1 1), .select, .select,
         .arrive (dataFrame 0 1), .arrive (dataFrame 1 1), .select, .select,
         .arrive (dataFrame 0 1), .arrive (dataFrame 1 1), .select] =
      .error (.invalidSchedulerState 7) :=
  ⟨⟨_, rfl, by decide⟩, rfl⟩

end Days
