/-
  Days.Logic.StaticPriority — a static-priority queue keeps its packets by
  priority and, within a priority, by arrival.
-/
import Days.Logic.SwitchRun

namespace Days

open List

variable {image : SimulationImage} {desc : PayloadId → PacketDescriptor}

/-! ## §1. Inserting behind the packets of at least the same priority. -/

section Insert

variable {α : Type} {f : α → Nat} {l : List α} {x : α}

/-- Sorted from the largest value down. -/
def Descending (f : α → Nat) (l : List α) : Prop := l.Pairwise fun a b => f b ≤ f a

theorem insertIdx_takeWhile_length (p : α → Bool) (l : List α) (x : α) :
    l.insertIdx (l.takeWhile p).length x = l.takeWhile p ++ x :: l.dropWhile p := by
  rw [← insertIdx_length_append, takeWhile_append_dropWhile]

/-- Behind the insertion point everything is smaller. -/
theorem Descending.dropWhile_lt (h : Descending f l) (v : Nat) :
    ∀ a ∈ l.dropWhile fun b => decide (v ≤ f b), f a < v := by
  induction l with
  | nil => simp
  | cons b rest ih =>
    obtain ⟨hfirst, hrest⟩ := pairwise_cons.1 h
    by_cases hb : v ≤ f b
    · rw [dropWhile_cons_of_pos (by simpa using hb)]
      exact ih hrest
    · rw [dropWhile_cons_of_neg (by simpa using hb)]
      intro a ha
      rcases mem_cons.1 ha with rfl | ha
      · omega
      · have := hfirst a ha
        omega

theorem le_of_mem_takeWhile {v : Nat} {a : α} (ha : a ∈ l.takeWhile fun b => decide (v ≤ f b)) : v ≤ f a := by
  simpa using all_eq_true.1 all_takeWhile a ha

theorem Descending.insert (h : Descending f l) (x : α) :
    Descending f (l.insertIdx (l.takeWhile fun b => decide (f x ≤ f b)).length x) := by
  rw [insertIdx_takeWhile_length]
  have hsplit : Descending f (l.takeWhile (fun b => decide (f x ≤ f b)) ++
      l.dropWhile fun b => decide (f x ≤ f b)) := by
    rw [takeWhile_append_dropWhile]
    exact h
  obtain ⟨htake, hdrop, hacross⟩ := pairwise_append.1 hsplit
  refine pairwise_append.2 ⟨htake, pairwise_cons.2 ⟨fun a ha => (h.dropWhile_lt _ a ha).le, hdrop⟩,
    fun a ha b hb => ?_⟩
  rcases mem_cons.1 hb with rfl | hb
  · exact le_of_mem_takeWhile ha
  · exact hacross a ha b hb

/-- Among the packets of one priority an inserted one is the last. -/
theorem Descending.filter_insert (h : Descending f l) (x : α) (v : Nat) :
    (l.insertIdx (l.takeWhile fun b => decide (f x ≤ f b)).length x).filter (fun a => f a == v) =
      l.filter (fun a => f a == v) ++ [x].filter fun a => f a == v := by
  have hsplit : l.filter (fun a => f a == v) =
      (l.takeWhile fun b => decide (f x ≤ f b)).filter (fun a => f a == v) ++
        (l.dropWhile fun b => decide (f x ≤ f b)).filter fun a => f a == v := by
    rw [← filter_append, takeWhile_append_dropWhile]
  rw [insertIdx_takeWhile_length, ← singleton_append, filter_append, filter_append, hsplit,
    append_assoc]
  congr 1
  by_cases hv : f x = v
  · -- Nothing behind the insertion point has this priority.
    have hnone : (l.dropWhile fun b => decide (f x ≤ f b)).filter (fun a => f a == v) = [] := by
      rw [filter_eq_nil_iff]
      intro a ha hav
      have hlt := h.dropWhile_lt _ a ha
      have heq := beq_iff_eq.1 hav
      omega
    rw [hnone, append_nil, nil_append]
  · have hnone : [x].filter (fun a => f a == v) = [] := by simp [hv]
    rw [hnone, append_nil, nil_append]

end Insert

/-! ## §2. The invariant. -/

/-- By priority, and within a priority in the order of arrival. -/
structure SpOrdered (desc : PayloadId → PacketDescriptor) (priorities : List Nat)
    (arrivals waiting : List PayloadId) : Prop where
  descending : Descending (spPriority desc priorities) waiting
  stable : ∀ v, (waiting.filter fun id => spPriority desc priorities id == v).Sublist
    (arrivals.filter fun id => spPriority desc priorities id == v)

theorem SchedulerKind.Like.staticPriority {next : SchedulerKind} {priorities : List Nat} {k : SchedulerKind}
    (h : k.Like next) (hnext : next = .staticPriority priorities) : k = .staticPriority priorities := by
  subst hnext
  cases k <;> simp_all [SchedulerKind.Like]

theorem SpOrdered.step {queue next : SwitchQueueState} {order order' : Option PfcClassOrder}
    {label : Option PayloadId} {arrivals : List PayloadId}
    (h : ∀ priorities, queue.scheduler = .staticPriority priorities →
      SpOrdered desc priorities arrivals queue.queue)
    (hstep : QueueStep image desc queue order label next order') :
    ∀ priorities, next.scheduler = .staticPriority priorities →
      SpOrdered desc priorities (arrivals ++ label.toList) next.queue := by
  intro priorities hnext
  cases hstep with
  | rest hsame hqueue | build hsame hqueue =>
    rw [hqueue, Option.toList_none, append_nil]
    exact h priorities (hsame.scheduler.staticPriority hnext)
  | @arrive _ payload _ hsame hplaced =>
    have hscheduler := hsame.scheduler.staticPriority hnext
    obtain ⟨hdescending, hstable⟩ := h priorities hscheduler
    simp only [QueuedAt, hscheduler] at hplaced
    rw [hplaced, Option.toList_some]
    refine ⟨hdescending.insert payload, fun v => ?_⟩
    rw [hdescending.filter_insert payload v, filter_append]
    exact (hstable v).append (Sublist.refl _)
  | @serve _ position _ _ hsame _ hqueue =>
    obtain ⟨hdescending, hstable⟩ := h priorities (hsame.scheduler.staticPriority hnext)
    rw [hqueue, Option.toList_none, append_nil]
    have hsub : (queue.queue.eraseIdx position).Sublist queue.queue := eraseIdx_sublist _ _
    exact ⟨hdescending.sublist hsub, fun v => (hsub.filter _).trans (hstable v)⟩

/-! ## §3. Runs. -/

/-- A head-serving queue that nothing pauses is left idle only when it is empty. -/
theorem empty_of_idle {c : Ctx} {s s' : TransitionState} {entry : SwitchEntry} {slot : Nat}
    {queue current served : SwitchQueueState} {plan : SwitchServicePlan}
    (hserves : schedulerServesHead queue.scheduler = true)
    (hopen : (queue.pfc.all fun pfc => !pfcAnyPaused pfc) = true)
    (hplan : Prog.run c (switchServicePlan c entry slot queue) s = .ok (plan, s'))
    (hserve : serviceStep c slot current plan = .ok (none, served)) : queue.queue = [] := by
  unfold switchServicePlan at hplan
  cases hids : queue.queue with
  | nil => rfl
  | cons head rest =>
    exfalso
    cases hpfc : queue.pfc with
    | none =>
      simp only [hpfc, hserves, hids] at hplan
      obtain ⟨p, t, -, hplan⟩ := run_bind_ok.1 hplan
      obtain ⟨rfl, -⟩ := run_pure_ok.1 hplan
      obtain ⟨_, -, h⟩ := bind_ok hserve
      cases pure_eq_ok.1 h
    | some pfc =>
      have hunpaused : pfcAnyPaused pfc = false := by simpa [hpfc] using hopen
      simp only [hpfc, hserves] at hplan
      obtain ⟨found, t, hfound, hplan⟩ := run_bind_ok.1 hplan
      unfold pfcFirstEligible at hfound
      simp only [hids, hunpaused] at hfound
      obtain ⟨rfl, rfl⟩ := run_pure_ok.1 hfound
      obtain ⟨p, t, -, hplan⟩ := run_bind_ok.1 hplan
      obtain ⟨priority, t, -, hplan⟩ := run_bind_ok.1 hplan
      obtain ⟨incoming, t, -, hplan⟩ := run_bind_ok.1 hplan
      obtain ⟨rfl, -⟩ := run_pure_ok.1 hplan
      obtain ⟨_, -, h⟩ := bind_ok hserve
      cases pure_eq_ok.1 h

/-- Static priority.  Over every run of a switch whose static-priority queues start in order, each such
    queue holds its packets by priority and, within a priority, in the order in which they came; and
    when nothing is paused it serves the earliest of the packets of the highest waiting priority, and
    nothing only when it is empty. -/
theorem static_priority_order (image : SimulationImage) (desc : PayloadId → PacketDescriptor)
    (first entry : SwitchEntry)
    (hfirst : ∀ (slot : Nat) (queue : SwitchQueueState) (priorities : List Nat), first.state.queues[slot]? = some queue →
      queue.scheduler = .staticPriority priorities → Descending (spPriority desc priorities) queue.queue)
    (admitted : List (Nat × PayloadId)) (hrun : SwitchRun image desc first admitted entry) (slot : Nat)
    (initial queue : SwitchQueueState) (hinitial : first.state.queues[slot]? = some initial)
    (hqueue : entry.state.queues[slot]? = some queue) (priorities : List Nat)
    (hscheduler : queue.scheduler = .staticPriority priorities) :
    SpOrdered desc priorities
        (initial.queue ++ (admitted.filter fun a => a.1 == slot).map (·.2)) queue.queue ∧
      ∀ (c : Ctx) (s s' : TransitionState) (plan : SwitchServicePlan)
          (outcome : Option ServiceOutcome) (served : SwitchQueueState), c.image = image → Names desc s.packets →
        (queue.pfc.all fun pfc => !pfcAnyPaused pfc) = true →
        Prog.run c (switchServicePlan c entry slot queue) s = .ok (plan, s') →
        serviceStep c slot { queue with txReadyPending := false } plan = .ok (outcome, served) →
        match outcome with
        | none => queue.queue = []
        | some outcome =>
          (∀ id ∈ queue.queue, spPriority desc priorities id ≤ spPriority desc priorities outcome.payload) ∧
            (queue.queue.filter fun id => spPriority desc priorities id ==
              spPriority desc priorities outcome.payload).head? = some outcome.payload := by
  have hordered : SpOrdered desc priorities
      (initial.queue ++ (admitted.filter fun a => a.1 == slot).map (·.2)) queue.queue := by
    refine hrun.queue_induction (P := fun at_ arrived queue _ => ∀ start, first.state.queues[at_]? = some start →
      ∀ priorities, queue.scheduler = .staticPriority priorities →
        SpOrdered desc priorities (start.queue ++ arrived) queue.queue) ?_ ?_ hqueue initial hinitial
      priorities hscheduler
    · intro at_ start hstart other hother priorities hpriorities
      obtain rfl := Option.some.inj (hstart.symm.trans hother)
      rw [append_nil]
      exact ⟨hfirst at_ start priorities hstart hpriorities, fun _ => Sublist.refl _⟩
    · intro at_ arrived before order label next order' hbefore hstep start hstart
      rw [← append_assoc]
      exact SpOrdered.step (hbefore start hstart) hstep
  refine ⟨hordered, ?_⟩
  intro c s s' plan outcome served hc hs hopen hplan hserve
  subst hc
  have hserves : schedulerServesHead queue.scheduler = true := by rw [hscheduler]; rfl
  cases outcome with
  | none => exact empty_of_idle hserves hopen hplan hserve
  | some outcome =>
  obtain ⟨position, -, hpayload, -, -, hhead, -⟩ := service_ok hs hplan hserve
  obtain rfl := hhead hserves hopen
  cases hids : queue.queue with
  | nil =>
    rw [hids] at hpayload
    simp at hpayload
  | cons head rest =>
    have hsame : head = outcome.payload := by
      rw [hids] at hpayload
      simpa using hpayload
    have hdescending := hordered.descending
    rw [hids] at hdescending
    obtain ⟨hbelow, -⟩ := pairwise_cons.1 hdescending
    refine ⟨fun id hid => ?_, ?_⟩
    · rw [← hsame]
      rcases mem_cons.1 hid with rfl | hid
      · exact le_refl _
      · exact hbelow id hid
    · rw [filter_cons_of_pos (by simp [hsame]), head?_cons, hsame]

/-- Packet 2 comes in before packet 1, packet 0 goes, and packet 2 is next. -/
theorem static_priority_order_two : ∃ entry queue,
    SwitchRun sampleSwitchImage sampleFrame (sampleEntry (.staticPriority [7, 1]) none) [(0, 2)] entry ∧
      entry.state.queues[0]? = some queue ∧ queue.queue = [2, 1] ∧
      SpOrdered sampleFrame [7, 1] [0, 1, 2] queue.queue ∧ ∃ plan s' outcome served,
        Prog.run sampleCtx (switchServicePlan sampleCtx entry 0 queue) sampleState = .ok (plan, s') ∧
        serviceStep sampleCtx 0 { queue with txReadyPending := false } plan = .ok (some outcome, served) ∧
        (queue.queue.filter fun id => spPriority sampleFrame [7, 1] id ==
          spPriority sampleFrame [7, 1] outcome.payload).head? = some outcome.payload := by
  have hstart : ∀ (slot : Nat) (queue : SwitchQueueState) (priorities : List Nat),
      [sampleQueue (.staticPriority [7, 1]) none][slot]? = some queue →
      queue.scheduler = .staticPriority priorities →
      Descending (spPriority sampleFrame priorities) queue.queue := by
    intro slot queue priorities hqueue hscheduler
    obtain rfl := mem_singleton.1 (mem_of_getElem? hqueue)
    obtain rfl := SchedulerKind.staticPriority.inj hscheduler
    exact pairwise_pair.2 (by decide)
  have hserved : ∃ entry queue plan s' outcome served,
      admitAndServe (sampleEntry (.staticPriority [7, 1]) none) = .ok entry ∧
      entry.state.queues[0]? = some queue ∧ queue.queue = [2, 1] ∧
      queue.scheduler = .staticPriority [7, 1] ∧ (queue.pfc.all fun pfc => !pfcAnyPaused pfc) = true ∧
      Prog.run sampleCtx (switchServicePlan sampleCtx entry 0 queue) sampleState = .ok (plan, s') ∧
      serviceStep sampleCtx 0 { queue with txReadyPending := false } plan = .ok (some outcome, served) :=
    ⟨_, _, _, _, _, _, rfl, rfl, rfl, rfl, rfl, rfl, rfl⟩
  obtain ⟨entry, queue, plan, s', outcome, served, hentry, hqueue, hids, hscheduler, hpfc, hplan, hserve⟩ :=
    hserved
  have hrun := admitAndServe_run hentry
  obtain ⟨hordered, hnext⟩ := static_priority_order sampleSwitchImage sampleFrame
    (sampleEntry (.staticPriority [7, 1]) none) entry hstart _ hrun 0 (sampleQueue (.staticPriority [7, 1]) none)
    queue rfl hqueue [7, 1] hscheduler
  exact ⟨entry, queue, hrun, hqueue, hids, hordered, plan, s', outcome, served, hplan, hserve,
    (hnext sampleCtx sampleState s' plan (some outcome) served rfl sampleStore_names hpfc hplan hserve).2⟩

end Days
