/-
  Days.Logic.FutureEvents — the future-event list refines an ordered map.

  The heap and the timers together hold what the map holds.  As long as no
  pending key is inserted again, every operation answers as the map does; and a
  key that is pending twice is reported when it is popped, or by the last drain.
-/
import Days.Exec.FutureOps
import Days.Lib.Keyed
import Days.Logic.Ledger

namespace Days

open List Option FutureEvents

variable {f : FutureEvents} {m : EventMap}

variable {events : List Event}

variable {event : Event} {f' : FutureEvents} {key : EventKey}

/-! ## §1. Sorted lists of events. -/

/-- The order in which events are kept. -/
def KeySorted (events : List Event) : Prop := events.Pairwise fun a b => a.key ≤ b.key

theorem KeySorted.head_le (h : KeySorted (event :: events)) :
    ∀ other ∈ event :: events, event.key ≤ other.key :=
  forall_mem_cons.2 ⟨le_rfl, (pairwise_cons.1 h).1⟩

theorem KeySorted.insert (h : KeySorted events) (event : Event) :
    KeySorted (insertEvent event events) := by
  unfold KeySorted insertEvent at *
  induction events with
  | nil => simp
  | cons a rest ih =>
    rw [orderedInsert_cons]
    split
    · next hle => exact pairwise_cons.2 ⟨fun b hb => hle.trans (KeySorted.head_le h b hb), h⟩
    · next hgt =>
      rw [pairwise_cons] at h
      refine pairwise_cons.2 ⟨fun b hb => ?_, ih h.2⟩
      rcases (mem_orderedInsert _).1 hb with rfl | hb
      · exact (not_le.1 hgt).le
      · exact h.1 b hb

theorem insertEvent_perm (event : Event) (events : List Event) :
    (insertEvent event events).Perm (event :: events) :=
  perm_orderedInsert _ event events

/-- The first event in key order with a property is the least one with it. -/
theorem find?_eq_some_iff_least (h : events.Pairwise fun a b => a.key < b.key) {p : Event → Bool} :
    events.find? p = some event ↔
      event ∈ events ∧ p event = true ∧ ∀ other ∈ events, p other = true → event.key ≤ other.key := by
  induction events with
  | nil => simp
  | cons a rest ih =>
    have hleast := KeySorted.head_le (h.imp le_of_lt)
    rw [pairwise_cons] at h
    cases hp : p a with
    | true =>
      rw [find?_cons_of_pos hp]
      constructor
      · rintro ⟨⟩
        exact ⟨by simp, hp, fun other hother _ => hleast other hother⟩
      · rintro ⟨hmem, -, hleast⟩
        rcases mem_cons.1 hmem with rfl | hmem
        · rfl
        · exact absurd (h.1 event hmem) (not_lt_of_ge (hleast a (by simp) hp))
    | false =>
      rw [find?_cons_of_neg (by simp [hp]), ih h.2]
      constructor
      · rintro ⟨hmem, hpe, hleast⟩
        refine ⟨by simp [hmem], hpe, fun other hother hpo => ?_⟩
        rcases mem_cons.1 hother with rfl | hother
        · rw [hp] at hpo
          cases hpo
        · exact hleast other hother hpo
      · rintro ⟨hmem, hpe, hleast⟩
        rcases mem_cons.1 hmem with rfl | hmem
        · rw [hp] at hpe
          cases hpe
        · exact ⟨hmem, hpe, fun other hother => hleast other (by simp [hother])⟩

/-! ## §2. The list itself. -/

namespace FutureEvents

/-- Everything pending. -/
def pending (f : FutureEvents) : List Event := f.heap ++ f.timers

def keys (f : FutureEvents) : List EventKey := f.pending.map (·.key)

/-- Both parts are in key order, and timers are kept apart. -/
structure Ordered (f : FutureEvents) : Prop where
  heap : KeySorted f.heap
  timers : f.timers.Pairwise fun a b => a.key < b.key
  apart : ∀ event ∈ f.heap, event.kind ≠ .retransmissionTimeout

theorem ordered_new : Ordered .new := ⟨.nil, .nil, by simp [new]⟩

theorem takeMin_eq_none : f.takeMin = none ↔ f.pending = [] := by
  obtain ⟨heap, timers⟩ := f
  cases heap <;> cases timers <;> simp [takeMin, pending]
  split <;> simp

/-- What is taken out is least, and the rest stays. -/
theorem takeMin_eq_some (hf : f.Ordered) (h : f.takeMin = some (event, f')) :
    f.pending.Perm (event :: f'.pending) ∧ f'.Ordered ∧ ∀ other ∈ f.pending, event.key ≤ other.key := by
  obtain ⟨heap, timers⟩ := f
  obtain ⟨hheap, htimers, hapart⟩ := hf
  cases heap with
  | nil =>
    cases timers with
    | nil => cases h
    | cons timer timers =>
      cases h
      exact ⟨by simp [pending], ⟨.nil, htimers.tail, by simp⟩, KeySorted.head_le (htimers.imp le_of_lt)⟩
  | cons first heap =>
    have hrest : ∀ event ∈ heap, event.kind ≠ .retransmissionTimeout :=
      fun event hevent => hapart event (by simp [hevent])
    have hleast := hheap.head_le
    cases timers with
    | nil =>
      cases h
      exact ⟨by simp [pending], ⟨hheap.tail, .nil, hrest⟩, by simpa [pending] using hleast⟩
    | cons timer timers =>
      have hfirst := KeySorted.head_le (htimers.imp le_of_lt)
      simp only [takeMin] at h
      split at h
      · next hlt =>
        cases h
        refine ⟨?_, ⟨hheap, htimers.tail, hapart⟩, fun other hother => ?_⟩
        · exact perm_middle
        · rcases mem_append.1 hother with hother | hother
          · exact hlt.le.trans (hleast other hother)
          · exact hfirst other hother
      · next hge =>
        cases h
        refine ⟨by simp [pending], ⟨hheap.tail, htimers, hrest⟩, fun other hother => ?_⟩
        rcases mem_append.1 hother with hother | hother
        · exact hleast other hother
        · exact (not_lt.1 hge).trans (hfirst other hother)

/-- The least key is the key of what is taken out. -/
theorem peekKey_eq_takeMin (f : FutureEvents) : f.peekKey = f.takeMin.map (·.1.key) := by
  obtain ⟨heap, timers⟩ := f
  cases heap with
  | nil => cases timers <;> rfl
  | cons first heap =>
    cases timers with
    | nil => rfl
    | cons timer timers =>
      simp only [peekKey, takeMin]
      split
      · next hlt => simp [min_eq_right hlt.le]
      · next hge => simp [min_eq_left (not_lt.1 hge)]

theorem peekKey_eq_some (hf : f.Ordered) :
    f.peekKey = some key ↔ key ∈ f.keys ∧ ∀ other ∈ f.keys, key ≤ other := by
  have hleast {event : Event} {f' : FutureEvents} (hmin : f.takeMin = some (event, f')) :
      event.key ∈ f.keys ∧ ∀ other ∈ f.keys, event.key ≤ other := by
    obtain ⟨hperm, -, hle⟩ := takeMin_eq_some hf hmin
    refine ⟨mem_map.2 ⟨event, hperm.mem_iff.2 (by simp), rfl⟩, fun other hother => ?_⟩
    obtain ⟨e, he, rfl⟩ := mem_map.1 hother
    exact hle e he
  rw [peekKey_eq_takeMin]
  constructor
  · intro h
    obtain ⟨⟨event, f'⟩, hmin, rfl⟩ := map_eq_some_iff.1 h
    exact hleast hmin
  · rintro ⟨hmem, hle⟩
    cases hmin : f.takeMin with
    | none =>
      rw [takeMin_eq_none] at hmin
      simp [keys, hmin] at hmem
    | some result =>
      obtain ⟨event, f'⟩ := result
      obtain ⟨hmem', hle'⟩ := hleast hmin
      exact congrArg some (le_antisymm (hle' key hmem) (hle event.key hmem'))

/-- The minimum is seen again where its key is pending twice. -/
theorem peekKey_again (hf : f.Ordered) (hmin : f.takeMin = some (event, f')) :
    f'.peekKey = some event.key ↔ event.key ∈ f'.keys := by
  obtain ⟨hperm, hordered, hleast⟩ := takeMin_eq_some hf hmin
  rw [peekKey_eq_some hordered]
  refine ⟨And.left, fun hmem => ⟨hmem, forall_mem_map.2 fun other hother => ?_⟩⟩
  exact hleast other (hperm.mem_iff.2 (mem_cons_of_mem _ hother))

theorem Ordered.insert (hf : f.Ordered) (h : f.insert event = .ok f') :
    f'.Ordered ∧ f'.pending.Perm (event :: f.pending) := by
  unfold FutureEvents.insert at h
  split at h
  · split at h
    · cases h
    · next hnew =>
      cases h
      refine ⟨⟨hf.heap, ?_, hf.apart⟩, ?_⟩
      · refine Lib.strict_of_sorted _ (KeySorted.insert (hf.timers.imp le_of_lt) event) ?_
        rw [(insertEvent_perm event f.timers).map _ |>.nodup_iff, map_cons, nodup_cons]
        refine ⟨fun hmem => hnew ?_, ?_⟩
        · obtain ⟨timer, htimer, heq⟩ := mem_map.1 hmem
          exact any_eq_true.2 ⟨timer, htimer, by simp [heq]⟩
        · rw [Nodup, pairwise_map]
          exact hf.timers.imp ne_of_lt
      · exact ((insertEvent_perm event f.timers).append_left f.heap).trans perm_middle
  · next hkind =>
    cases h
    refine ⟨⟨hf.heap.insert event, hf.timers, fun other hother => ?_⟩, ?_⟩
    · rcases mem_cons.1 ((insertEvent_perm event f.heap).mem_iff.1 hother) with rfl | hother
      · exact hkind
      · exact hf.apart other hother
    · exact (insertEvent_perm event f.heap).append_right f.timers

theorem removeSupersededTimer_eq_ok (hf : f.Ordered) {timer : SupersededTimer}
    (h : f.removeSupersededTimer timer = .ok (event, f')) :
    f'.Ordered ∧ f.pending.Perm (event :: f'.pending) ∧ f.timers.find? timer.carriedBy = some event := by
  unfold removeSupersededTimer at h
  split at h
  · cases h
  · next event' hfind =>
    cases h
    refine ⟨⟨hf.heap, hf.timers.sublist eraseP_sublist, hf.apart⟩, ?_, hfind⟩
    obtain ⟨hcarries, before, after, hsplit, hbefore⟩ := find?_eq_some_iff_append.1 hfind
    have herase : f.timers.eraseP timer.carriedBy = before ++ after := by
      rw [hsplit, eraseP_append_right _ (by simpa using hbefore),
        eraseP_cons_of_pos hcarries]
    unfold pending
    rw [herase, hsplit, ← append_assoc, ← append_assoc]
    exact perm_middle

end FutureEvents

/-! ## §3. What the list stands for. -/

/-- The map holds the pending events, each under its key. -/
structure Represents (f : FutureEvents) (m : EventMap) : Prop where
  ordered : f.Ordered
  lists : Lib.Lists Event.key f.pending m

namespace Represents

variable {f : FutureEvents} {m : EventMap}

theorem new : Represents .new ∅ := ⟨ordered_new, .nil⟩

section

variable (h : Represents f m)

include h

/-- An event leaves both. -/
theorem erase (hordered : f'.Ordered)
    (hperm : f.pending.Perm (event :: f'.pending)) : Represents f' (m.erase event.key) :=
  ⟨hordered, (h.lists.perm hperm).tail⟩

theorem mem_drain : event ∈ m.drain ↔ event ∈ f.pending :=
  h.lists.mem_values

theorem drain_strict : m.drain.Pairwise fun a b => a.key < b.key :=
  h.lists.values_strict

/-- Both name the same first event. -/
theorem first : m.first = f.takeMin.map fun taken => (taken.1.key, taken.1) := by
  have hdrain : m.drain.head? = m.first.map (·.2) := by
    simp [EventMap.drain, EventMap.first]
  cases hmin : f.takeMin with
  | none =>
    rw [takeMin_eq_none] at hmin
    have hempty : m.drain = [] := by
      have hperm := h.lists.values_perm
      rw [hmin] at hperm
      exact hperm.eq_nil
    rw [hempty] at hdrain
    simpa using hdrain.symm
  | some taken =>
    obtain ⟨event, f'⟩ := taken
    obtain ⟨hperm, -, hleast⟩ := takeMin_eq_some h.ordered hmin
    have hmem : event ∈ m.drain := h.mem_drain.2 (hperm.mem_iff.2 (by simp))
    cases hfirst : m.first with
    | none =>
      rw [hfirst, map_none, head?_eq_none_iff] at hdrain
      simp [hdrain] at hmem
    | some entry =>
      obtain ⟨key, first⟩ := entry
      rw [hfirst] at hdrain
      obtain ⟨rest, hrest⟩ := head?_eq_some_iff.1 hdrain
      have hpending : first ∈ f.pending := h.mem_drain.1 (by simp [hrest])
      have hle : first.key ≤ event.key := by
        have hsorted := h.drain_strict
        rw [hrest] at hmem hsorted
        exact KeySorted.head_le (hsorted.imp le_of_lt) event hmem
      have hsame : first = event := by
        refine h.lists.unique hpending (hperm.mem_iff.2 (by simp)) ?_
        exact le_antisymm hle (hleast first hpending)
      have hkey : first.key = key := by
        refine h.lists.entry_key (mem_of_mem_head? ?_)
        exact hfirst
      rw [map_some, ← hkey, hsame]

/-- Both name the same carrier of a timer: heap events carry none. -/
theorem carrier (timer : SupersededTimer) :
    m.carrier timer = (f.timers.find? timer.carriedBy).map fun event => (event.key, event) := by
  have hdrain : m.drain.find? timer.carriedBy = (m.carrier timer).map (·.2) := by
    rw [EventMap.drain, find?_map]
    rfl
  have hkind {event : Event} (hcarries : timer.carriedBy event = true) :
      event.kind = .retransmissionTimeout := by
    simp only [SupersededTimer.carriedBy, Bool.and_eq_true, beq_iff_eq] at hcarries
    exact hcarries.1.1.1.1.1
  have hmem {event : Event} (hcarries : timer.carriedBy event = true) :
      event ∈ m.drain ↔ event ∈ f.timers := by
    rw [h.mem_drain, pending, mem_append]
    constructor
    · rintro (hheap | htimer)
      · exact absurd (hkind hcarries) (h.ordered.apart event hheap)
      · exact htimer
    · exact .inr
  have hfind : m.drain.find? timer.carriedBy = f.timers.find? timer.carriedBy := by
    apply ext
    intro event
    rw [find?_eq_some_iff_least h.drain_strict, find?_eq_some_iff_least h.ordered.timers]
    constructor
    · rintro ⟨hin, hcarries, hleast⟩
      exact ⟨(hmem hcarries).1 hin, hcarries,
        fun other hother hc => hleast other ((hmem hc).2 hother) hc⟩
    · rintro ⟨hin, hcarries, hleast⟩
      exact ⟨(hmem hcarries).2 hin, hcarries,
        fun other hother hc => hleast other ((hmem hc).1 hother) hc⟩
  rw [← hfind, hdrain]
  cases hcarrier : m.carrier timer with
  | none => rfl
  | some entry =>
    obtain ⟨key, event⟩ := entry
    have hkey := h.lists.entry_key (mem_of_find?_eq_some hcarrier)
    simp [hkey]

theorem countBelow (horizon : Nat) :
    (m.toList.countP fun entry => decide (entry.1.timeNs < horizon)) = f.countBelow horizon := by
  have hentries : (m.toList.countP fun entry => decide (entry.1.timeNs < horizon)) =
      m.drain.countP (below horizon) := by
    rw [EventMap.drain, countP_map]
    refine countP_congr fun entry hentry => ?_
    simp [below, h.lists.entry_key hentry]
  have htimers : (f.timers.takeWhile (below horizon)).length =
      f.timers.countP (below horizon) := by
    have hsorted := h.ordered.timers
    generalize f.timers = timers at hsorted
    induction timers with
    | nil => rfl
    | cons timer rest ih =>
      rw [pairwise_cons] at hsorted
      cases hbelow : below horizon timer with
      | true => simp [hbelow, ih hsorted.2]
      | false =>
        -- Nothing after a timer at or beyond the bound lies below it.
        have hrest : rest.countP (below horizon) = 0 := by
          rw [countP_eq_zero]
          intro other hother
          have hlt := (EventKey.lt_iff _ _).1 (hsorted.1 other hother)
          simp only [below, decide_eq_false_iff_not, decide_eq_true_eq] at hbelow ⊢
          omega
        simp [hbelow, hrest]
  rw [hentries, EventMap.drain, h.lists.values_perm.countP_eq, pending, countP_append, ← htimers]
  rfl

end

end Represents

/-! ## §4. Every operation. -/

/-- An insertion is allowed if its key is not pending. -/
def FreshInsert (m : EventMap) : FelOp → Prop
  | .insert event => event.key ∉ m
  | _ => True

instance (m : EventMap) (o : FelOp) : Decidable (FreshInsert m o) := by
  cases o <;> unfold FreshInsert <;> infer_instance

theorem FutureEvents.insert_of_fresh (h : event.key ∉ f.keys) : ∃ f', f.insert event = .ok f' := by
  unfold insert
  split
  · split
    · next hany =>
      obtain ⟨timer, htimer, hkey⟩ := List.any_eq_true.1 hany
      refine absurd (List.mem_map.2 ⟨timer, ?_, by simpa using hkey⟩) h
      exact mem_append_right _ htimer
    · exact ⟨_, rfl⟩
  · exact ⟨_, rfl⟩

theorem Represents.insert (h : Represents f m)
    (hfresh : event.key ∉ f.keys) (hinsert : f.insert event = .ok f') :
    Represents f' (m.insert event.key event) := by
  obtain ⟨hordered, hperm⟩ := h.ordered.insert hinsert
  exact ⟨hordered, (h.lists.cons hfresh).perm hperm.symm⟩

/-- With distinct keys the minimum is popped without complaint. -/
theorem Represents.pop (h : Represents f m)
    (hmin : f.takeMin = some (event, f')) : f.pop = .ok (some (event, f')) := by
  have hkeys : f.keys.Perm (event.key :: f'.keys) := (takeMin_eq_some h.ordered hmin).1.map _
  unfold FutureEvents.pop
  rw [hmin]
  refine if_neg ?_
  rw [peekKey_again h.ordered hmin]
  exact (nodup_cons.1 (hkeys.nodup_iff.1 h.lists.nodup)).1

theorem Represents.step (o : FelOp) (h : Represents f m) (hfresh : FreshInsert m o) :
    (f.step o).1 = (m.step o).1 ∧ Represents (f.step o).2 (m.step o).2 := by
  cases o with
  | insert event =>
    have hnot : event.key ∉ f.keys := fun hmem => hfresh (h.lists.mem_iff.2 hmem)
    obtain ⟨f', hinsert⟩ := FutureEvents.insert_of_fresh hnot
    have hm : m.step (.insert event) = (.ok .inserted, m.insert event.key event) := if_neg hfresh
    rw [hm, FutureEvents.step, hinsert]
    exact ⟨rfl, h.insert hnot hinsert⟩
  | peek =>
    refine ⟨?_, h⟩
    show Except.ok (FelAnswer.key f.peekKey) = .ok (.key (m.first.map (·.1)))
    rw [h.first, FutureEvents.peekKey_eq_takeMin, Option.map_map]
    rfl
  | pop =>
    have hfirst := h.first
    cases hmin : f.takeMin with
    | none =>
      have hpop : f.pop = .ok none := by
        unfold FutureEvents.pop
        rw [hmin]
      rw [hmin, Option.map_none] at hfirst
      simp only [FutureEvents.step, EventMap.step, hpop, hfirst]
      exact ⟨trivial, h⟩
    | some taken =>
      obtain ⟨event, f'⟩ := taken
      obtain ⟨hperm, hordered, -⟩ := FutureEvents.takeMin_eq_some h.ordered hmin
      rw [hmin, Option.map_some] at hfirst
      simp only [FutureEvents.step, EventMap.step, h.pop hmin, hfirst]
      exact ⟨trivial, h.erase hordered hperm⟩
  | removeTimer timer =>
    have hcarrier := h.carrier timer
    cases hremove : f.removeSupersededTimer timer with
    | error e =>
      unfold FutureEvents.removeSupersededTimer at hremove
      split at hremove
      · next hfind =>
        rw [hfind, Option.map_none] at hcarrier
        have hnone : f.removeSupersededTimer timer = .error
            (.supersededTimerMissing timer.target timer.payload timer.deadlineNs) := by
          unfold FutureEvents.removeSupersededTimer
          rw [hfind]
        simp only [FutureEvents.step, EventMap.step, hnone, hcarrier]
        exact ⟨trivial, h⟩
      · cases hremove
    | ok removed =>
      obtain ⟨event, f'⟩ := removed
      obtain ⟨hordered, hperm, hfind⟩ := FutureEvents.removeSupersededTimer_eq_ok h.ordered hremove
      rw [hfind, Option.map_some] at hcarrier
      simp only [FutureEvents.step, EventMap.step, hremove, hcarrier]
      exact ⟨trivial, h.erase hordered hperm⟩
  | countBelow horizon =>
    refine ⟨?_, h⟩
    show Except.ok (FelAnswer.count (f.countBelow horizon)) = .ok (.count _)
    rw [h.countBelow]

/-! ## §5. The drain. -/

/-- In key order, equal keys are neighbours. -/
theorem FutureEvents.duplicateKey_eq_none (h : KeySorted events) :
    duplicateKey events = none ↔ (events.map (·.key)).Nodup := by
  unfold KeySorted at h
  induction events with
  | nil => simp [duplicateKey]
  | cons a rest ih =>
    cases rest with
    | nil => simp [duplicateKey]
    | cons b rest =>
      rw [pairwise_cons] at h
      have ih := ih h.2
      rw [duplicateKey]
      split
      · next heq => simp [heq]
      · next hne =>
        rw [ih, map_cons, map_cons, map_cons, nodup_cons (a := a.key)]
        refine ⟨fun hnodup => ⟨fun hmem => ?_, hnodup⟩, And.right⟩
        have hlt : a.key < b.key := lt_of_le_of_ne (h.1 b (by simp)) hne
        obtain ⟨other, hother, heq⟩ := mem_map.1 (by simpa using hmem : a.key ∈ (b :: rest).map (·.key))
        rcases mem_cons.1 hother with rfl | hother
        · exact absurd heq hlt.ne'
        · exact absurd (heq ▸ (pairwise_cons.1 h.2).1 other hother) (not_le_of_gt hlt)

theorem Represents.drain (h : Represents f m) : f.intoSortedVec = .ok m.drain := by
  have hperm := perm_insertionSort (fun a b : Event => a.key ≤ b.key) f.pending
  have hnone := (duplicateKey_eq_none (Lib.sorted_insertionSort Event.key f.pending)).2
    ((hperm.map _).nodup_iff.2 h.lists.nodup)
  unfold intoSortedVec
  dsimp only
  rw [show f.heap ++ f.timers = f.pending from rfl, hnone, h.lists.insertionSort_eq]
  rfl

/-! ## §6. Duplicate keys. -/

namespace FutureEvents

theorem Ordered.replaceTimer (hf : f.Ordered) (event : Event) :
    (f.replaceTimer event).Ordered ∧ (f.replaceTimer event).keys = f.keys := by
  have hkey (timer : Event) : (if timer.key = event.key then event else timer).key = timer.key := by
    split
    · next heq => exact heq.symm
    · rfl
  refine ⟨⟨hf.heap, ?_, hf.apart⟩, ?_⟩
  · refine pairwise_map.2 (hf.timers.imp fun {a b} hlt => ?_)
    rw [hkey a, hkey b]
    exact hlt
  · simp only [keys, pending, FutureEvents.replaceTimer, List.map_append, List.map_map]
    exact congrArg _ (List.map_congr_left fun timer _ => hkey timer)

/-- An operation adds to the list, or takes one event out. -/
theorem Ordered.effect (o : FelOp) (hf : f.Ordered) : (f.step o).2.Ordered ∧
    ((∀ key, f.keys.count key ≤ (f.step o).2.keys.count key) ∧
        (∀ event, (f.step o).1 ≠ .ok (.popped (some event))) ∨
      ∃ event, f.keys.Perm (event.key :: (f.step o).2.keys) ∧
        ((f.step o).1 = .ok (.removed event) ∨ o = .pop ∧ f.takeMin = some (event, (f.step o).2) ∧
          ∀ other, (f.step o).1 = .ok (.popped (some other)) → event = other)) := by
  cases o with
  | insert event =>
    cases hinsert : f.insert event with
    | ok f' =>
      obtain ⟨hordered, hperm⟩ := hf.insert hinsert
      simp only [FutureEvents.step, hinsert]
      refine ⟨hordered, .inl ⟨fun key => ?_, nofun⟩⟩
      rw [keys, keys, (hperm.map Event.key).count_eq key]
      exact count_le_count_cons
    | error e =>
      obtain ⟨hordered, hkeys⟩ := hf.replaceTimer event
      simp only [FutureEvents.step, hinsert]
      exact ⟨hordered, .inl ⟨fun key => hkeys ▸ le_rfl, nofun⟩⟩
  | peek | countBelow => exact ⟨hf, .inl ⟨fun _ => le_rfl, nofun⟩⟩
  | pop =>
    cases hmin : f.takeMin with
    | none =>
      simp only [FutureEvents.step, FutureEvents.pop, hmin]
      exact ⟨hf, .inl ⟨fun _ => le_rfl, nofun⟩⟩
    | some taken =>
      obtain ⟨event, f'⟩ := taken
      obtain ⟨hperm, hordered, -⟩ := takeMin_eq_some hf hmin
      by_cases hpeek : f'.peekKey = some event.key
      · simp only [FutureEvents.step, FutureEvents.pop, hmin, if_pos hpeek]
        exact ⟨hordered, .inr ⟨event, hperm.map _, .inr ⟨trivial, rfl, nofun⟩⟩⟩
      · simp only [FutureEvents.step, FutureEvents.pop, hmin, if_neg hpeek]
        exact ⟨hordered, .inr ⟨event, hperm.map _, .inr ⟨trivial, rfl, by simp⟩⟩⟩
  | removeTimer timer =>
    cases hremove : f.removeSupersededTimer timer with
    | ok removed =>
      obtain ⟨hordered, hperm, -⟩ := removeSupersededTimer_eq_ok hf hremove
      simp only [FutureEvents.step, hremove]
      exact ⟨hordered, .inr ⟨removed.1, hperm.map _, .inl rfl⟩⟩
    | error e =>
      simp only [FutureEvents.step, hremove]
      exact ⟨hf, .inl ⟨fun _ => le_rfl, nofun⟩⟩

theorem Ordered.step (o : FelOp) (hf : f.Ordered) : (f.step o).2.Ordered := (hf.effect o).1

/-- At least two pending events have the key. -/
structure Duplicated (key : EventKey) (f : FutureEvents) : Prop where
  ordered : f.Ordered
  copies : 2 ≤ f.keys.count key

/-- The first copy cannot be popped. -/
theorem Duplicated.pop (h : Duplicated event.key f)
    (hmin : f.takeMin = some (event, f')) : f.pop = .error (.duplicateEventKey event.key) := by
  have hkeys : f.keys.Perm (event.key :: f'.keys) := (takeMin_eq_some h.ordered hmin).1.map _
  have hcopies := h.copies
  rw [hkeys.count_eq, count_cons_self] at hcopies
  unfold FutureEvents.pop
  rw [hmin]
  exact if_pos ((peekKey_again h.ordered hmin).2 (count_pos_iff.1 (by omega)))

/-- One operation: both copies stay, unless one of them is popped or removed. -/
theorem Duplicated.step (o : FelOp) (h : Duplicated key f)
    (hkept : ∀ event, (f.step o).1 = .ok (.removed event) → event.key ≠ key) :
    (o = .pop ∧ f.pop = .error (.duplicateEventKey key)) ∨
      (Duplicated key (f.step o).2 ∧
        ∀ event, (f.step o).1 = .ok (.popped (some event)) → event.key ≠ key) := by
  obtain ⟨hordered, ⟨hmore, hpopped⟩ | ⟨event, hkeys, hout⟩⟩ := h.ordered.effect o
  · exact .inr ⟨⟨hordered, h.copies.trans (hmore key)⟩, fun event hevent => absurd hevent (hpopped event)⟩
  · by_cases hkey : event.key = key
    · subst hkey
      rcases hout with hremoved | ⟨rfl, hmin, -⟩
      · exact absurd rfl (hkept event hremoved)
      · exact .inl ⟨rfl, h.pop hmin⟩
    · have hcopies := h.copies
      rw [hkeys.count_eq, count_cons_of_ne hkey] at hcopies
      refine .inr ⟨⟨hordered, hcopies⟩, fun other hother => ?_⟩
      rcases hout with hremoved | ⟨-, -, hpopped⟩
      · rw [hremoved] at hother
        cases hother
      · exact hpopped other hother ▸ hkey

/-- The drain sees two copies. -/
theorem Duplicated.drain (h : Duplicated key f) :
    ∃ other, f.intoSortedVec = .error (.duplicateEventKey other) := by
  have hperm := perm_insertionSort (fun a b : Event => a.key ≤ b.key) f.pending
  cases hdup : duplicateKey (f.pending.insertionSort fun a b => a.key ≤ b.key) with
  | none =>
    rw [duplicateKey_eq_none (Lib.sorted_insertionSort Event.key f.pending), (hperm.map _).nodup_iff] at hdup
    have hle := nodup_iff_count_le_one.1 hdup key
    exact absurd h.copies (by rw [keys]; omega)
  | some other =>
    refine ⟨other, ?_⟩
    unfold intoSortedVec
    rw [pending] at hdup
    simp only [hdup]

/-- No operation pops an event with the key. -/
def NeverPopped (key : EventKey) (answers : List (Except ExecutionError FelAnswer)) : Prop :=
  ∀ event : Event, .ok (.popped (some event)) ∈ answers → event.key ≠ key

/-- No operation removes an event with the key as a superseded timer. -/
def NeverRemoved (key : EventKey) (answers : List (Except ExecutionError FelAnswer)) : Prop :=
  ∀ event : Event, .ok (.removed event) ∈ answers → event.key ≠ key

/-- Two copies are found out: by the pop that meets the first of them, or by the drain. -/
theorem Duplicated.perform (ops : List FelOp) (h : Duplicated key f)
    (hkept : NeverRemoved key (Lib.perform FutureEvents.step ops f).1) :
    (∃ before after, ops = before ++ .pop :: after ∧
      NeverPopped key (Lib.perform FutureEvents.step before f).1 ∧
      (Lib.perform FutureEvents.step before f).2.pop = .error (.duplicateEventKey key)) ∨
    (NeverPopped key (Lib.perform FutureEvents.step ops f).1 ∧
      ∃ other, (Lib.perform FutureEvents.step ops f).2.intoSortedVec =
        .error (.duplicateEventKey other)) := by
  induction ops generalizing f with
  | nil => exact .inr ⟨fun _ hmem => (List.not_mem_nil hmem).elim, h.drain⟩
  | cons o rest ih =>
    rcases h.step o fun event hevent => hkept event (by simp [hevent]) with ⟨rfl, hpop⟩ | ⟨hnext, hfirst⟩
    · exact .inl ⟨[], rest, rfl, fun _ hmem => (List.not_mem_nil hmem).elim, hpop⟩
    · have hnever (answers : List (Except ExecutionError FelAnswer))
          (hrest : NeverPopped key answers) : NeverPopped key ((f.step o).1 :: answers) := by
        intro event hmem
        rcases List.mem_cons.1 hmem with heq | hmem
        · exact hfirst event heq.symm
        · exact hrest event hmem
      have hkept' : NeverRemoved key (Lib.perform FutureEvents.step rest (f.step o).2).1 :=
        fun event hmem => hkept event (List.mem_cons_of_mem _ hmem)
      rcases ih hnext hkept' with ⟨before, after, rfl, hnot, hpop⟩ | ⟨hnot, hdrain⟩
      · exact .inl ⟨o :: before, after, rfl, hnever _ hnot, hpop⟩
      · exact .inr ⟨hnever _ hnot, hdrain⟩

/-- A second copy is either refused, or pending next to the first. -/
theorem Ordered.insert_again (hf : f.Ordered) (hpending : event.key ∈ f.keys) :
    (f.step (.insert event)).1 = .error (.duplicateEventKey event.key) ∨
      ((f.step (.insert event)).1 = .ok .inserted ∧ Duplicated event.key (f.step (.insert event)).2) := by
  cases hinsert : f.insert event with
  | ok f' =>
    obtain ⟨hordered, hperm⟩ := hf.insert hinsert
    have hkeys : f'.keys.Perm (event.key :: f.keys) := hperm.map _
    simp only [FutureEvents.step, hinsert]
    refine .inr ⟨trivial, hordered, ?_⟩
    rw [hkeys.count_eq, count_cons_self]
    have := count_pos_iff.2 hpending
    omega
  | error e =>
    simp only [FutureEvents.step, hinsert]
    unfold FutureEvents.insert at hinsert
    split at hinsert
    · split at hinsert
      · cases hinsert
        exact .inl rfl
      · cases hinsert
    · cases hinsert

end FutureEvents

/-! ## §7. The list is an ordered map. -/

open FutureEvents in
/-- While no inserted key is pending the list answers as the ordered map from keys to events does,
    down to the final drain.  A key that is inserted again while it is pending is refused at once
    (two timers), or by the pop that meets its first copy, or by the final drain, unless a copy is
    removed as a superseded timer in between. -/
theorem futureEvents_refines_orderedMap (ops : List FelOp) :
    (Lib.Allowed EventMap.step FreshInsert ops ∅ →
      (Lib.perform FutureEvents.step ops .new).1 = (Lib.perform EventMap.step ops ∅).1 ∧
        (Lib.perform FutureEvents.step ops .new).2.intoSortedVec =
          .ok (Lib.perform EventMap.step ops ∅).2.drain) ∧
    ∀ (event : Event) (later : List FelOp),
      let f := (Lib.perform FutureEvents.step ops .new).2
      let again := f.step (.insert event)
      let answers := (Lib.perform FutureEvents.step later again.2).1
      event.key ∈ f.keys → NeverRemoved event.key answers →
        again.1 = .error (.duplicateEventKey event.key) ∨
        again.1 = .ok .inserted ∧
          ((∃ before after, later = before ++ .pop :: after ∧
            NeverPopped event.key (Lib.perform FutureEvents.step before again.2).1 ∧
            (Lib.perform FutureEvents.step before again.2).2.pop =
              .error (.duplicateEventKey event.key)) ∨
          (NeverPopped event.key answers ∧
            ∃ other, (Lib.perform FutureEvents.step later again.2).2.intoSortedVec =
              .error (.duplicateEventKey other))) := by
  constructor
  · intro hfresh
    obtain ⟨hanswers, hlast⟩ :=
      Lib.perform_refines (fun _ _ o h hf => Represents.step o h hf) ops Represents.new hfresh
    exact ⟨hanswers, hlast.drain⟩
  · intro event later f again answers hpending hkept
    have hordered : f.Ordered :=
      Lib.perform_invariant (fun _ o hf => Ordered.step o hf) ops ordered_new
    rcases hordered.insert_again hpending with hrefused | ⟨hinserted, htwice⟩
    · exact .inl hrefused
    · exact .inr ⟨hinserted, htwice.perform later hkept⟩

/-- A send and a timer of one instant: the send leaves first. -/
def sendEvent : Event := ⟨⟨10, eventPhase .txReady, 0, 0⟩, 0, .txReady, 0⟩

def timerEvent : Event :=
  ⟨⟨10, eventPhase .retransmissionTimeout, 0, 1⟩, 0, .retransmissionTimeout, 0⟩

theorem futureEvents_refines_orderedMap_run :
    (Lib.perform FutureEvents.step
        [.insert timerEvent, .insert sendEvent, .peek, .pop, .removeTimer ⟨0, 0, 10⟩] .new).1 =
      (Lib.perform EventMap.step
        [.insert timerEvent, .insert sendEvent, .peek, .pop, .removeTimer ⟨0, 0, 10⟩] ∅).1 ∧
    (Lib.perform FutureEvents.step [.insert sendEvent, .pop]
        (Lib.perform FutureEvents.step [.insert sendEvent] .new).2).1 =
      [.ok .inserted, .error (.duplicateEventKey sendEvent.key)] := by
  refine ⟨((futureEvents_refines_orderedMap _).1 ?_).1, ?_⟩
  · exact ⟨by decide +kernel, by decide +kernel, trivial, trivial, trivial, trivial⟩
  · rfl

end Days
