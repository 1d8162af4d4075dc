/-
  Days.Logic.SerialLoop — a serial run executes its events in the order of their keys.

  A turn pops the least event; the children of its dispatch come later than it.  So
  whatever is pending after a turn lies behind the event the turn took.
-/
import Days.Logic.FutureEvents
import Days.Logic.SenderRun

namespace Days

open List Relation Prog

variable {image : SimulationImage} {mode : ObservationMode} {horizonNs : Option Nat}
  {c : Ctx} {s s' : TransitionState} {event : Event} {f f' : FutureEvents} {run next : ScalarRun}

/-! ## §1. The children of a dispatch. -/

theorem Op.exec_children {o : Op} {r : Resp o} (h : Op.exec c o s = .ok (r, s')) :
    ∀ child ∈ s'.children, child ∈ s.children ∨ c.event.key < child.key := by
  cases o with
  | setHost entry | setSwitch entry =>
    cases h
    simp only [TransitionState.setHostAt, TransitionState.setSwitchAt]
    split <;> exact fun _ => .inl
  | emit =>
    obtain ⟨t, ht, ⟨⟩⟩ := bind_pure_ok h
    obtain ⟨_, child, rfl, hlt, -⟩ := emitChild_ok ht
    exact forall_mem_append.2 ⟨fun _ => .inl, forall_mem_singleton.2 (.inr hlt)⟩
  | _ =>
    rw [(Op.exec_entries h trivial).2.1]
    exact fun _ => .inl

theorem visits_children {α : Type} {x : Prog α} (h : x.Visits (Op.exec c) s s') :
    ∀ child ∈ s'.children, child ∈ s.children ∨ c.event.key < child.key := by
  induction h with
  | here => exact fun _ => .inl
  | later hop _ ih =>
    intro child hchild
    exact (ih child hchild).elim (Op.exec_children hop child) .inr

/-- The children of a dispatch come later than its event. -/
theorem dispatch_children (h : dispatch image mode event s = .ok s') :
    ∀ child ∈ s'.children, child ∈ s.children ∨ event.key < child.key := by
  obtain ⟨⟨c, handler⟩, hresolve, h⟩ := bind_ok h
  obtain ⟨⟨_, t⟩, hrun, ⟨⟩⟩ := bind_pure_ok h
  rw [liftPlain_eq_ok] at hresolve
  obtain ⟨node, -, hresolve⟩ := bind_ok hresolve
  obtain ⟨_, -, ⟨⟩⟩ := bind_pure_ok hresolve
  exact visits_children (c := ⟨image, mode, node, event⟩) (Lib.Program.visits_of_run hrun)

/-! ## §2. The event list of a turn. -/

namespace FutureEvents

/-- What is popped has the least key, and no other event has it. -/
theorem Ordered.pop (hf : f.Ordered) (h : f.pop = .ok (some (event, f'))) :
    f'.Ordered ∧ f.peekKey = some event.key ∧ event ∈ f.pending ∧
      (∀ other ∈ f.pending, event.key ≤ other.key) ∧ ∀ other ∈ f'.pending, event.key < other.key := by
  unfold FutureEvents.pop at h
  split at h
  · cases h
  · next hmin =>
    split at h
    · cases h
    · next hpeek =>
      cases h
      obtain ⟨hperm, hordered, hleast⟩ := takeMin_eq_some hf hmin
      refine ⟨hordered, by rw [peekKey_eq_takeMin, hmin]; rfl, hperm.mem_iff.2 mem_cons_self, hleast,
        fun other hother => ?_⟩
      refine lt_of_le_of_ne (hleast other (hperm.mem_iff.2 (mem_cons_of_mem event hother))) fun heq => hpeek ?_
      exact (peekKey_again hf hmin).2 (heq ▸ mem_map_of_mem hother)

theorem Ordered.insertAll {events : List Event} (hf : f.Ordered) (h : f.insertAll events = .ok f') :
    f'.Ordered ∧ ∀ event ∈ f'.pending, event ∈ f.pending ∨ event ∈ events := by
  induction events generalizing f with
  | nil =>
    cases h
    exact ⟨hf, fun _ => .inl⟩
  | cons first rest ih =>
    obtain ⟨between, hinsert, h⟩ := bind_ok h
    obtain ⟨hordered, hperm⟩ := hf.insert hinsert
    obtain ⟨hordered', hmem⟩ := ih hordered h
    refine ⟨hordered', fun event hevent => ?_⟩
    have := hmem event hevent
    rw [hperm.mem_iff] at this
    grind

end FutureEvents

theorem removeSupersededTimers_sublist {timers : List SupersededTimer} {events left : List Event}
    (h : removeSupersededTimers events timers = .ok left) : left.Sublist events := by
  induction timers generalizing events with
  | nil =>
    cases h
    exact .refl _
  | cons timer rest ih =>
    obtain ⟨between, hremove, h⟩ := bind_ok h
    unfold removeSupersededTimer at hremove
    split at hremove
    · cases hremove
      exact (ih h).trans eraseP_sublist
    · cases hremove

/-! ## §3. Turns and runs. -/

/-- Between two turns no child waits to be handed over. -/
structure Settled (run : ScalarRun) : Prop where
  ordered : run.events.Ordered
  children : run.state.children = []

theorem scalarStart_settled {start : ScalarRun} (h : scalarStart image = .ok start) : Settled start := by
  obtain ⟨s, hnew, h⟩ := bind_ok h
  obtain ⟨events, hinitial, ⟨⟩⟩ := bind_pure_ok h
  obtain ⟨ledger, -, hnew⟩ := bind_ok hnew
  obtain ⟨store, -, hnew⟩ := bind_ok hnew
  obtain ⟨store', -, hnew⟩ := bind_ok hnew
  obtain ⟨switches, -, ⟨⟩⟩ := bind_pure_ok hnew
  refine ⟨?_, rfl⟩
  have hordered (initial : List Event) (keys : List EventKey) {f f' : FutureEvents} (hf : f.Ordered)
      (h : initialEventQueue keys f initial = .ok f') : f'.Ordered := by
    induction initial generalizing keys f with
    | nil =>
      cases h
      exact hf
    | cons event rest ih =>
      unfold initialEventQueue at h
      split at h
      · cases h
      · obtain ⟨between, hinsert, h⟩ := bind_ok h
        exact ih _ (hf.insert hinsert).1 h
  exact hordered _ _ FutureEvents.ordered_new hinitial

/-- A turn takes the least event, and all that is pending after it comes later. -/
theorem ScalarNext.settled (h : ScalarNext image mode horizonNs run next) (hrun : Settled run) :
    Settled next ∧ ∃ event ∈ run.events.pending, (∀ other ∈ run.events.pending, event.key ≤ other.key) ∧
      withinRun image horizonNs event.key.timeNs = true ∧
      (∃ s, dispatch image mode event run.state = .ok s) ∧
      ∀ other ∈ next.events.pending, event.key < other.key := by
  unfold ScalarNext scalarStep at h
  split at h
  · cases h
  · next key hkey =>
    split at h
    · next hwithin =>
      obtain ⟨popped, hpop, h⟩ := bind_ok h
      split at h
      · cases h
      · next event events =>
        obtain ⟨s, hdispatch, h⟩ := bind_ok h
        obtain ⟨_, hsettle, ⟨⟩⟩ := bind_pure_ok h
        obtain ⟨cleared, hremove, hsettle⟩ := bind_ok hsettle
        obtain ⟨left, hleft, ⟨⟩⟩ := bind_pure_ok hremove
        obtain ⟨full, hinsert, ⟨⟩⟩ := bind_pure_ok hsettle
        obtain ⟨hordered, hpeek, hmember, hleast, hlater⟩ := hrun.ordered.pop hpop
        obtain rfl := Option.some.inj (hkey.symm.trans hpeek)
        have hsub := removeSupersededTimers_sublist hleft
        have hcleared : FutureEvents.Ordered { events with timers := left } :=
          ⟨hordered.heap, hordered.timers.sublist hsub, hordered.apart⟩
        obtain ⟨hfull, hmem⟩ := hcleared.insertAll hinsert
        refine ⟨⟨hfull, rfl⟩, event, hmember, hleast, hwithin, ⟨s, hdispatch⟩, fun other hother => ?_⟩
        rcases hmem other hother with hother | hother
        · exact hlater other ((hsub.append_left events.heap).mem hother)
        · exact (dispatch_children hdispatch other hother).resolve_left (by simp [hrun.children])
    · cases h

/-- A run stays settled, and what lies behind a key stays behind it. -/
theorem Settled.runs {start : ScalarRun} (h : Settled start)
    (hrun : ReflTransGen (ScalarNext image mode horizonNs) start run) :
    Settled run ∧ ∀ key, (∀ event ∈ start.events.pending, key < event.key) →
      ∀ event ∈ run.events.pending, key < event.key := by
  induction hrun with
  | refl => exact ⟨h, fun _ hafter => hafter⟩
  | tail _ hstep ih =>
    obtain ⟨hnext, taken, htaken, -, -, -, hlater⟩ := hstep.settled ih.1
    exact ⟨hnext, fun key hkey event hevent => (ih.2 key hkey taken htaken).trans (hlater event hevent)⟩

/-- The serial order.  Each turn of a run executes the least pending event, which lies within the run's
    limits; everything pending at any later point of the run, and so every event executed later, has a
    larger key. -/
theorem serial_run_in_order (image : SimulationImage) (mode : ObservationMode) (horizonNs : Option Nat)
    (start run next later : ScalarRun) (hstart : scalarStart image = .ok start)
    (hrun : ReflTransGen (ScalarNext image mode horizonNs) start run)
    (hturn : ScalarNext image mode horizonNs run next)
    (hlater : ReflTransGen (ScalarNext image mode horizonNs) next later) :
    ∃ event ∈ run.events.pending, (∀ other ∈ run.events.pending, event.key ≤ other.key) ∧
      withinRun image horizonNs event.key.timeNs = true ∧
      (∃ s, dispatch image mode event run.state = .ok s) ∧
      ∀ other ∈ later.events.pending, event.key < other.key := by
  obtain ⟨hnext, event, hmem, hleast, hwithin, hdispatch, hafter⟩ :=
    hturn.settled ((scalarStart_settled hstart).runs hrun).1
  exact ⟨event, hmem, hleast, hwithin, hdispatch, (hnext.runs hlater).2 event.key hafter⟩

/-- Packet 3 waits at the switch and is also on its last link: it is delivered at 100 ns, and at
150 ns the switch serves packet 0 in front of it. -/
def crossedImage : SimulationImage where
  stopTimeNs := 1000000
  nodes := [⟨0, .host, 0⟩, ⟨1, .switch, 0⟩, ⟨2, .host, 1⟩]
  hostStates := [{ emptyHost with nextPayloadSeq := 2 }, { emptyHost with egressLink := 2 }]
  switchStates := [{
    queues := [{
      egressLink := some 1
      scheduler := .weightedFairQueue {
        weights := [1]
        virtualTime := 0
        lastUpdatedNs := 0
        finishTimes := [16000]
        activePackets := [2]
        packetFinishTimes :=
          (∅ : Std.ExtTreeMap PayloadId Rat).insert 0 8000 |>.insert 3 16000 }
      queueCapacityPackets := 0
      dropMark := .tailDrop
      pfc := none
      queue := [0, 3]
      inService := none
      txReadyPending := true }]
    nextOriginSeq := 2
    arrivedPackets := 2
    droppedPackets := 0
    departedPackets := 0 }]
  flows := [⟨0, 0, 2, 0, 0, [0, 1], []⟩]
  initialPackets := [⟨0, 0, 1000, false, .data⟩, ⟨3, 0, 1000, false, .data⟩]
  links := [⟨0, 0, 1, 1000000000, 1000⟩, ⟨1, 1, 2, 1000000000, 1000⟩, ⟨2, 2, 1, 1000000000, 1000⟩]
  channels := [⟨0, 1, 0, .remoteArrival, 9000⟩, ⟨1, 2, 1, .remoteArrival, 9000⟩]
  initialEvents := [
    ⟨⟨100, eventPhase .remoteArrival, 1, 0⟩, 2, .remoteArrival, 3⟩,
    ⟨⟨150, eventPhase .txReady, 1, 1⟩, 1, .txReady, 0⟩]
  seed := 1
  stageJoins := []

/-- A first turn of the crossed packets. -/
theorem serial_run_in_order_crossed : ∃ start next, scalarStart crossedImage = .ok start ∧
    ScalarNext crossedImage .summary (some 200) start next ∧ ∃ event ∈ start.events.pending,
      (∃ s, dispatch crossedImage .summary event start.state = .ok s) ∧
      ∀ other ∈ next.events.pending, event.key < other.key := by
  obtain ⟨turned, hturn, hsome⟩ := exists_ok (scalarStart crossedImage >>=
    scalarStep crossedImage .summary (some 200)) Option.isSome (by decide +kernel)
  obtain ⟨next, rfl⟩ := Option.isSome_iff_exists.1 hsome
  obtain ⟨start, hstart, hnext⟩ := bind_ok hturn
  obtain ⟨event, hmem, -, -, hdispatch, hlater⟩ :=
    serial_run_in_order _ _ _ _ _ _ _ hstart .refl hnext .refl
  exact ⟨start, next, hstart, hnext, event, hmem, hdispatch, hlater⟩

end Days
