/-
  Days.Logic.FairQueue — a weighted fair queue over whole runs.

  Packets are admitted, taken into service from any position (a paused head may
  be passed over) and completed, at nondecreasing times.  Between events the tags
  name the packets that are present, the waiting packets stand in tag order, and
  the finish time of a class is the tag of its latest admission.  While service keeps
  to the order of each class, that is the tag of a packet still present.
-/
import Days.Logic.SwitchRun
import Days.Logic.RoundRobin
import Mathlib.Algebra.Order.Field.Rat
import Mathlib.Algebra.Order.BigOperators.Group.List
import Mathlib.Data.List.GetD

namespace Days

open List WfqSchedulerState

variable {s : WfqSchedulerState} {id : PayloadId} {timeNs : Nat}

/-! ## §1. Runs of a queue. -/

/-- A weighted fair queue with its packets and the tags given so far, newest first. -/
structure WfqQueue where
  state : WfqSchedulerState
  waiting : List PayloadId
  inService : Option PayloadId
  now : Nat
  admitted : List (PayloadId × Rat)

inductive WfqEvent where
  | arrive (id : PayloadId) (timeNs : Nat)
  | start (position timeNs : Nat)
  | complete (timeNs : Nat)

def WfqSchedulerState.new (weights : List Nat) : WfqSchedulerState :=
  ⟨weights, 0, 0, List.replicate weights.length 0, List.replicate weights.length 0, ∅⟩

def WfqSchedulerState.tagOf (s : WfqSchedulerState) (id : PayloadId) : Rat :=
  (s.packetFinishTimes[id]?).getD 0

namespace WfqQueue

def new (weights : List Nat) : WfqQueue := ⟨.new weights, [], none, 0, []⟩

/-- The packets waiting or in service. -/
def present (q : WfqQueue) : List PayloadId := q.waiting ++ q.inService.toList

/-- A new packet arrives, an idle server takes a waiting packet, or the packet in service leaves;
    none of them before the event that came last. -/
def Enabled (q : WfqQueue) : WfqEvent → Prop
  | .arrive id timeNs => q.now ≤ timeNs ∧ id ∉ q.present
  | .start position timeNs => q.now ≤ timeNs ∧ q.inService = none ∧ position < q.waiting.length
  | .complete timeNs => q.now ≤ timeNs ∧ q.inService.isSome

variable (desc : PayloadId → PacketDescriptor) (rateBps : Nat) (node : NodeId)

def step (q : WfqQueue) : WfqEvent → Except PlainError WfqQueue
  | .arrive id timeNs => do
    let (state, waiting) ← q.state.enqueue q.waiting (desc id) timeNs rateBps node
    return { q with state, waiting, now := timeNs, admitted := (id, state.tagOf id) :: q.admitted }
  | .start position timeNs => do
    let id ← okOr q.waiting[position]? (.invalidSchedulerState node)
    let _ ← okOr q.state.packetFinishTimes[id]? (.missingWfqFinishTag node id)
    return { q with waiting := q.waiting.eraseIdx position, inService := some id, now := timeNs }
  | .complete timeNs =>
    match q.inService with
    | none => .ok q
    | some id => do
      let state ← q.state.complete (desc id) timeNs rateBps node
      return { q with state, inService := none, now := timeNs }

/-- The queues reached by enabled events that meet a condition. -/
inductive Run (meets : WfqQueue → WfqEvent → Prop) (first : WfqQueue) : WfqQueue → Prop
  | start : Run meets first first
  | step {q next : WfqQueue} (event : WfqEvent) (hrun : Run meets first q) (henabled : q.Enabled event)
      (hmeets : meets q event) (hstep : q.step desc rateBps node event = .ok next) : Run meets first next

/-- An enabled event between two queues of one busy period. -/
def BusyStep (q next : WfqQueue) : Prop :=
  q.present ≠ [] ∧ next.present ≠ [] ∧
    ∃ event, q.Enabled event ∧ q.step desc rateBps node event = .ok next

end WfqQueue

/-- The scheduling class of a packet among `n`. -/
def wfqClass (desc : PayloadId → PacketDescriptor) (n : Nat) (id : PayloadId) : Nat :=
  (desc id).flow % n

/-- A service start passes over no earlier waiting packet of the class it serves. -/
def WfqQueue.ServesInOrder (desc : PayloadId → PacketDescriptor) (n : Nat) (q : WfqQueue) :
    WfqEvent → Prop
  | .start position _ => ∀ id, q.waiting[position]? = some id →
      ∀ earlier ∈ q.waiting.take position, wfqClass desc n earlier ≠ wfqClass desc n id
  | _ => True

/-! ## §2. The invariant. -/

structure WfqQueue.Fair (desc : PayloadId → PacketDescriptor) (weights : List Nat) (q : WfqQueue) :
    Prop where
  sameWeights : q.state.weights = weights
  finishLength : q.state.finishTimes.length = weights.length
  activeLength : q.state.activePackets.length = weights.length
  clock : q.state.lastUpdatedNs ≤ q.now
  nodup : q.present.Nodup
  tagged : ∀ id, (q.state.packetFinishTimes[id]?).isSome ↔ id ∈ q.present
  sorted : q.waiting.Pairwise fun a b => q.state.tagOf a ≤ q.state.tagOf b
  arrivals : ∀ c, (q.waiting.filter fun id => wfqClass desc weights.length id == c).Sublist
    (q.admitted.map Prod.fst).reverse
  counts : ∀ c < weights.length, q.state.activePackets.getD c 0 =
    q.present.countP fun id => wfqClass desc weights.length id == c
  latest : ∀ id ∈ q.present, ∃ last,
    q.admitted.find? (fun entry => wfqClass desc weights.length entry.1 ==
      wfqClass desc weights.length id) =
        some (last, q.state.finishTimes.getD (wfqClass desc weights.length id) 0) ∧
      (last ∈ q.present →
        q.state.tagOf last = q.state.finishTimes.getD (wfqClass desc weights.length id) 0)
  bounded : ∀ id ∈ q.present,
    q.state.tagOf id ≤ q.state.finishTimes.getD (wfqClass desc weights.length id) 0
  idle : q.present = [] → q.state.virtualTime = 0

section Invariant

variable {desc : PayloadId → PacketDescriptor} {rateBps : Nat} {node : NodeId} {weights : List Nat}
  {q : WfqQueue}

theorem WfqQueue.new_fair : (WfqQueue.new weights).Fair desc weights where
  sameWeights := rfl
  finishLength := length_replicate
  activeLength := length_replicate
  clock := le_rfl
  nodup := nodup_nil
  tagged := by simp [WfqQueue.new, WfqQueue.present, WfqSchedulerState.new]
  sorted := Pairwise.nil
  arrivals := fun _ => Sublist.refl _
  counts := by
    intro c _
    exact getD_replicate_zero _ c
  latest := nofun
  bounded := nofun
  idle := fun _ => rfl

theorem wfqClass_lt (hne : weights ≠ []) (id : PayloadId) :
    wfqClass desc weights.length id < weights.length :=
  Nat.mod_lt _ (length_pos_iff.2 hne)

section Counted

variable {l : List PayloadId} (hne : weights ≠ [])
  (hlength : s.activePackets.length = weights.length)
  (hcounts : ∀ c < weights.length, s.activePackets.getD c 0 =
    l.countP fun id => wfqClass desc weights.length id == c)

include hne hlength hcounts

/-- The class of a counted packet is active. -/
theorem active_pos_of_mem (hid : id ∈ l) :
    ∃ h : wfqClass desc weights.length id < s.activePackets.length,
      0 < s.activePackets[wfqClass desc weights.length id] := by
  have hclass : wfqClass desc weights.length id < weights.length := wfqClass_lt hne id
  have hcount := hcounts _ hclass
  rw [getD_eq_getElem _ _ (hlength ▸ hclass)] at hcount
  refine ⟨hlength ▸ hclass, hcount ▸ countP_pos_iff.2 ⟨id, hid, beq_self_eq_true _⟩⟩

/-- Some class is active exactly when a packet is counted. -/
theorem idle_iff_of_counts : s.idle = true ↔ l = [] := by
  unfold idle
  rw [all_eq_true]
  constructor
  · intro hzero
    by_contra hsome
    obtain ⟨id, hid⟩ := exists_mem_of_ne_nil _ hsome
    obtain ⟨hlt, hpos⟩ := active_pos_of_mem hne hlength hcounts hid
    rw [beq_iff_eq.1 (hzero _ (getElem_mem hlt))] at hpos
    omega
  · intro hnil active hactive
    obtain ⟨c, hc, rfl⟩ := getElem_of_mem hactive
    have hcount := hcounts c (hlength ▸ hc)
    rw [getD_eq_getElem _ _ hc, hnil] at hcount
    simpa using hcount

end Counted

theorem WfqQueue.Fair.idle_iff (h : q.Fair desc weights) (hne : weights ≠ []) :
    q.state.idle = true ↔ q.present = [] :=
  idle_iff_of_counts hne h.activeLength h.counts

/-- A busy queue has weight. -/
theorem WfqQueue.Fair.activeWeightSum_pos (h : q.Fair desc weights) (hne : weights ≠ [])
    (hpos : 0 ∉ weights) (hid : id ∈ q.present) : q.state.activeWeightSum ≠ 0 := by
  have hclass : wfqClass desc weights.length id < weights.length := wfqClass_lt hne id
  obtain ⟨hlt, hactive⟩ := active_pos_of_mem hne h.activeLength h.counts hid
  unfold activeWeightSum
  rw [h.sameWeights]
  have hmem : weights[wfqClass desc weights.length id] ∈
      ((weights.zip q.state.activePackets).filter fun entry => entry.2 ≠ 0).map (·.1) := by
    refine mem_map.2 ⟨(weights[wfqClass desc weights.length id],
      q.state.activePackets[wfqClass desc weights.length id]), mem_filter.2 ⟨?_, ?_⟩, rfl⟩
    · exact mem_iff_getElem.2 ⟨wfqClass desc weights.length id, by simp; omega, by simp⟩
    · simp only [ne_eq, decide_not, Bool.not_eq_eq_eq_not, Bool.not_true, decide_eq_false_iff_not]
      omega
  intro hsum
  have hzero := sum_eq_zero_iff.1 hsum _ hmem
  exact hpos (hzero ▸ getElem_mem hclass)

/-! ## §3. Admission. -/

namespace WfqSchedulerState

/-- Virtual time moves on at the rate shared by the active weight. -/
theorem advanceVirtualTime_ok (rateBps : Nat) (node : NodeId) (htime : s.lastUpdatedNs ≤ timeNs)
    (hweight : s.activeWeightSum ≠ 0) :
    ∃ v, s.advanceVirtualTime timeNs rateBps node = .ok { s with virtualTime := v } ∧
      s.virtualTime ≤ v := by
  have helapsed : checkedSub timeNs s.lastUpdatedNs = some (timeNs - s.lastUpdatedNs) := by
    exact if_pos htime
  by_cases hzero : timeNs - s.lastUpdatedNs = 0
  · refine ⟨s.virtualTime, ?_, le_rfl⟩
    refine bind_eq_ok.2 ⟨_, okOr_eq_ok.2 helapsed, bind_eq_ok.2 ⟨(), if_pos hweight, ?_⟩⟩
    rw [if_neg (not_not_intro hzero)]
    rfl
  · have hstep : (0 : Rat) ≤ (((timeNs - s.lastUpdatedNs) * rateBps : Nat) : Rat)
        / ((1000000000 * s.activeWeightSum : Nat) : Rat) :=
      div_nonneg (Nat.cast_nonneg _) (Nat.cast_nonneg _)
    refine ⟨s.virtualTime + _, ?_, le_add_of_nonneg_right hstep⟩
    refine bind_eq_ok.2 ⟨_, okOr_eq_ok.2 helapsed, bind_eq_ok.2 ⟨(), if_pos hweight, ?_⟩⟩
    rw [if_pos hzero]
    rfl

/-- The new packet goes behind every tag that is not later. -/
theorem insertionPosition_ok (node : NodeId) (finish : Rat) {queue : List PayloadId}
    (htags : ∀ a ∈ queue, (s.packetFinishTimes[a]?).isSome)
    (hsorted : queue.Pairwise fun a b => s.tagOf a ≤ s.tagOf b) :
    ∃ front back, queue = front ++ back ∧
      s.insertionPosition finish node queue = .ok front.length ∧
      (∀ a ∈ front, s.tagOf a ≤ finish) ∧ ∀ a ∈ back, finish < s.tagOf a := by
  induction queue with
  | nil => exact ⟨[], [], rfl, rfl, nofun, nofun⟩
  | cons queued rest ih =>
    obtain ⟨hhead, hrest⟩ := pairwise_cons.1 hsorted
    obtain ⟨tag, htag⟩ := Option.isSome_iff_exists.1 (htags queued mem_cons_self)
    have htagOf : s.tagOf queued = tag := by rw [tagOf, htag, Option.getD_some]
    by_cases hlt : finish < tag
    · refine ⟨[], queued :: rest, rfl, ?_, nofun, fun a ha => ?_⟩
      · refine bind_eq_ok.2 ⟨_, okOr_eq_ok.2 htag, ?_⟩
        rw [if_pos hlt]
        rfl
      · rcases mem_cons.1 ha with rfl | hmem
        · rwa [htagOf]
        · exact lt_of_lt_of_le (htagOf ▸ hlt) (hhead a hmem)
    · obtain ⟨front, back, hsplit, hposition, hfront, hback⟩ :=
        ih (fun a ha => htags a (mem_cons_of_mem _ ha)) hrest
      refine ⟨queued :: front, back, by rw [hsplit]; rfl, ?_, fun a ha => ?_, hback⟩
      · refine bind_eq_ok.2 ⟨_, okOr_eq_ok.2 htag, ?_⟩
        rw [if_neg hlt]
        exact bind_eq_ok.2 ⟨_, hposition, rfl⟩
      · rcases mem_cons.1 ha with rfl | hmem
        · rw [htagOf]; exact not_lt.1 hlt
        · exact hfront a hmem

end WfqSchedulerState

theorem bind_of_ok {ε α β : Type} {x : Except ε α} {f : α → Except ε β} {a : α} (h : x = .ok a) :
    (x >>= f) = f a := by
  rw [h]; rfl

/-- What an arrival reads: an idle queue starts over, a busy one moves on. -/
theorem WfqQueue.Fair.arrivalTime_ok (h : q.Fair desc weights) (rateBps : Nat) (node : NodeId)
    (hne : weights ≠ []) (hpos : 0 ∉ weights) (htime : q.now ≤ timeNs) :
    ∃ v finishes, q.state.arrivalTime timeNs rateBps node =
        .ok { q.state with virtualTime := v, finishTimes := finishes } ∧
      finishes.length = weights.length ∧
      (q.present ≠ [] → finishes = q.state.finishTimes ∧ q.state.virtualTime ≤ v) := by
  unfold arrivalTime
  by_cases hidle : q.present = []
  · rw [if_pos ((h.idle_iff hne).2 hidle)]
    exact ⟨0, _, rfl, by rw [length_map]; exact h.finishLength, fun hbusy => absurd hidle hbusy⟩
  · obtain ⟨id, hid⟩ := exists_mem_of_ne_nil _ hidle
    obtain ⟨v, hadvance, hle⟩ := advanceVirtualTime_ok rateBps node
      (h.clock.trans htime) (h.activeWeightSum_pos hne hpos hid)
    rw [if_neg (fun hi => hidle ((h.idle_iff hne).1 hi)), hadvance]
    exact ⟨v, q.state.finishTimes, rfl, h.finishLength, fun _ => ⟨rfl, hle⟩⟩

theorem WfqQueue.Fair.classValid (h : q.Fair desc weights) (hpos : 0 ∉ weights) (priority : Nat) :
    q.state.classValid priority = true := by
  unfold WfqSchedulerState.classValid
  rw [h.finishLength, h.activeLength, h.sameWeights]
  have hweight : weights[priority]? ≠ some 0 := fun hzero => hpos (mem_of_getElem? hzero)
  simp [hweight]

theorem schedulerClass_eq (hne : weights ≠ []) (id : PayloadId) :
    schedulerClass (desc id).flow weights.length = some (wfqClass desc weights.length id) :=
  if_neg fun hzero => hne (length_eq_zero_iff.1 hzero)

/-- An admission: where the packet goes and what it is tagged with. -/
structure WfqQueue.Admits (desc : PayloadId → PacketDescriptor) (rateBps : Nat) (node : NodeId)
    (weights : List Nat) (q : WfqQueue) (id : PayloadId) (timeNs : Nat) (v finish : Rat)
    (finishes : List Rat) (front back : List PayloadId) : Prop where
  enqueue : q.state.enqueue q.waiting (desc id) timeNs rateBps node =
    countUp node (q.state.activePackets.getD (wfqClass desc weights.length id) 0) >>= fun active => .ok
      ({ q.state with
          virtualTime := v
          finishTimes := finishes.set (wfqClass desc weights.length id) finish
          packetFinishTimes := q.state.packetFinishTimes.insert id finish
          activePackets := q.state.activePackets.set (wfqClass desc weights.length id) active
          lastUpdatedNs := timeNs }, front ++ id :: back)
  split : q.waiting = front ++ back
  before : ∀ a ∈ front, q.state.tagOf a ≤ finish
  after : ∀ a ∈ back, finish < q.state.tagOf a
  length : finishes.length = weights.length
  busy : q.present ≠ [] → finishes = q.state.finishTimes ∧ q.state.virtualTime ≤ v
  finish_ge : finishes.getD (wfqClass desc weights.length id) 0 ≤ finish

theorem WfqQueue.Fair.admits (h : q.Fair desc weights) (rateBps : Nat) (node : NodeId)
    (hne : weights ≠ []) (hpos : 0 ∉ weights) (hdesc : ∀ id, (desc id).id = id)
    (htime : q.now ≤ timeNs) (hnew : id ∉ q.present) :
    ∃ v finish finishes front back, q.Admits desc rateBps node weights id timeNs v finish finishes front
      back := by
  obtain ⟨v, finishes, harrival, hlength, hbusy⟩ :=
    h.arrivalTime_ok rateBps node hne hpos htime
  have hclass : schedulerClass (desc id).flow q.state.weights.length =
      some (wfqClass desc weights.length id) := by
    rw [h.sameWeights]; exact schedulerClass_eq hne id
  let classFinish := finishes.getD (wfqClass desc weights.length id) 0
  let finish := (if v ≤ classFinish then classFinish else v) +
    (((desc id).sizeBytes * 8 : Nat) : Rat)
      / ((q.state.weights.getD (wfqClass desc weights.length id) 0 : Nat) : Rat)
  have hfinish : classFinish ≤ finish := by
    have hservice : (0 : Rat) ≤ (((desc id).sizeBytes * 8 : Nat) : Rat)
        / ((q.state.weights.getD (wfqClass desc weights.length id) 0 : Nat) : Rat) :=
      div_nonneg (Nat.cast_nonneg _) (Nat.cast_nonneg _)
    refine le_trans ?_ (le_add_of_nonneg_right hservice)
    split
    next => exact le_rfl
    next hlate => exact (not_le.1 hlate).le
  have htags : ∀ a ∈ q.waiting, (q.state.packetFinishTimes[a]?).isSome := fun a ha =>
    (h.tagged a).2 (mem_append_left _ ha)
  obtain ⟨front, back, hsplit, hposition, hfront, hback⟩ :=
    insertionPosition_ok node
      (s := { q.state with virtualTime := v, finishTimes := finishes }) finish htags h.sorted
  have hfresh : (q.state.packetFinishTimes[(desc id).id]?).isNone = true := by
    rw [hdesc]
    cases hget : q.state.packetFinishTimes[id]? with
    | none => rfl
    | some tag => exact absurd ((h.tagged id).1 (by rw [hget]; rfl)) hnew
  refine ⟨v, finish, finishes, front, back, ⟨?_, hsplit, hfront, hback, hlength, hbusy, hfinish⟩⟩
  refine (bind_of_ok (okOr_eq_ok.2 hclass)).trans ((bind_of_ok (if_pos (h.classValid hpos _))).trans
    ((bind_of_ok (if_pos (h.clock.trans htime))).trans ((bind_of_ok harrival).trans
      ((bind_of_ok hposition).trans ((bind_of_ok (if_pos hfresh)).trans ?_)))))
  rw [hdesc id, hsplit, insertIdx_length_append]
  rfl

/-- The tags after an admission. -/
theorem tagOf_insert {tags : Std.ExtTreeMap PayloadId Rat} {finish : Rat}
    (hs : s.packetFinishTimes = tags.insert id finish) (a : PayloadId) :
    s.packetFinishTimes[a]? = if a = id then some finish else tags[a]? := by
  rw [hs, Std.ExtTreeMap.getElem?_insert]
  by_cases heq : a = id
  · rw [if_pos heq, heq, if_pos (Std.ReflCmp.compare_self)]
  · rw [if_neg heq, if_neg fun hcmp => heq (compare_eq_iff_eq.1 hcmp).symm]

/-- The queue after an admission. -/
def WfqQueue.enter (desc : PayloadId → PacketDescriptor) (weights : List Nat) (q : WfqQueue)
    (id : PayloadId) (timeNs : Nat) (v finish : Rat) (finishes : List Rat) (front back : List PayloadId) :
    WfqQueue where
  state :=
    { q.state with
      virtualTime := v
      finishTimes := finishes.set (wfqClass desc weights.length id) finish
      packetFinishTimes := q.state.packetFinishTimes.insert id finish
      activePackets := q.state.activePackets.set (wfqClass desc weights.length id)
        (q.state.activePackets.getD (wfqClass desc weights.length id) 0 + 1)
      lastUpdatedNs := timeNs }
  waiting := front ++ id :: back
  inService := q.inService
  now := timeNs
  admitted := (id, finish) :: q.admitted

theorem WfqQueue.Fair.enter (h : q.Fair desc weights) (hne : weights ≠ []) {v finish : Rat}
    {finishes : List Rat} {front back : List PayloadId} (hnew : id ∉ q.present)
    (ha : q.Admits desc rateBps node weights id timeNs v finish finishes front back) :
    (q.enter desc weights id timeNs v finish finishes front back).Fair desc weights := by
  let next := q.enter desc weights id timeNs v finish finishes front back
  show next.Fair desc weights
  have hclass : wfqClass desc weights.length id < weights.length := wfqClass_lt hne id
  have htags (a : PayloadId) :
      (next.state.packetFinishTimes)[a]? =
        if a = id then some finish else q.state.packetFinishTimes[a]? := tagOf_insert rfl a
  have hnewTag : next.state.tagOf id = finish := by
    rw [tagOf, htags, if_pos rfl]; rfl
  have hold {a : PayloadId} (hmem : a ∈ q.present) :
      next.state.tagOf a = q.state.tagOf a := by
    have hdiff : a ≠ id := fun heq => hnew (heq ▸ hmem)
    rw [tagOf, htags, if_neg hdiff]; rfl
  have hperm : next.present.Perm
      (id :: q.present) := by
    unfold WfqQueue.present
    rw [ha.split]
    exact perm_middle.append_right _
  have hwaiting {a : PayloadId} (hin : a ∈ front ++ back) : a ∈ q.present :=
    mem_append_left _ (ha.split ▸ hin)
  have hmem {a : PayloadId} :
      a ∈ next.present ↔
        a = id ∨ a ∈ q.present := hperm.mem_iff.trans mem_cons
  have hfinishSelf : (finishes.set (wfqClass desc weights.length id) finish).getD
      (wfqClass desc weights.length id) 0 = finish := getD_set_self (by rw [ha.length]; exact hclass) _
  have hfinishOther {c : Nat} (hc : wfqClass desc weights.length id ≠ c) (hbusy : q.present ≠ []) :
      (finishes.set (wfqClass desc weights.length id) finish).getD c 0 = q.state.finishTimes.getD c 0 := by
    rw [getD_set_ne hc, (ha.busy hbusy).1]
  have hkept {a : PayloadId} (hin : a ∈ q.present)
      (hsame : wfqClass desc weights.length a = wfqClass desc weights.length id) :
      q.state.tagOf a ≤ finish := by
    have hbusy := (ha.busy (ne_nil_of_mem hin)).1
    refine (h.bounded a hin).trans ?_
    rw [hsame, ← hbusy]
    exact ha.finish_ge
  refine {
    sameWeights := h.sameWeights
    finishLength := by rw [← ha.length]; exact length_set
    activeLength := by rw [← h.activeLength]; exact length_set
    clock := le_rfl
    nodup := hperm.nodup_iff.2 (nodup_cons.2 ⟨hnew, h.nodup⟩)
    tagged := ?_
    sorted := ?_
    arrivals := ?_
    counts := ?_
    latest := ?_
    bounded := ?_
    idle := ?_ }
  · intro a
    rw [htags, hmem, ← h.tagged]
    by_cases heq : a = id <;> simp [heq]
  · -- Old packets keep their order, and the new one stands between the earlier and the later tags.
    have hsorted := h.sorted
    rw [ha.split, pairwise_append] at hsorted
    obtain ⟨hfront, hback, hcross⟩ := hsorted
    have hinFront {a : PayloadId} (hfa : a ∈ front) := hwaiting (mem_append_left back hfa)
    have hinBack {a : PayloadId} (hba : a ∈ back) := hwaiting (mem_append_right front hba)
    refine pairwise_append.2 ⟨hfront.imp_of_mem ?_, pairwise_cons.2 ⟨?_, hback.imp_of_mem ?_⟩, ?_⟩
    · intro a b hfa hfb hle
      rwa [hold (hinFront hfa), hold (hinFront hfb)]
    · intro b hb
      rw [hnewTag, hold (hinBack hb)]
      exact (ha.after b hb).le
    · intro a b hba hbb hle
      rwa [hold (hinBack hba), hold (hinBack hbb)]
    · intro a hfa b hb
      rcases mem_cons.1 hb with rfl | hbb
      · rw [hnewTag, hold (hinFront hfa)]
        exact ha.before a hfa
      · rw [hold (hinFront hfa), hold (hinBack hbb)]
        exact hcross a hfa b hbb
  · intro c
    have hprev := h.arrivals c
    rw [ha.split, filter_append] at hprev
    show ((front ++ id :: back).filter _).Sublist ((((id, finish) :: q.admitted).map Prod.fst).reverse)
    rw [filter_append, map_cons, reverse_cons]
    by_cases hc : wfqClass desc weights.length id = c
    · -- No packet of the class stands behind the new one.
      have hnone : back.filter (fun a => wfqClass desc weights.length a == c) = [] := by
        refine filter_eq_nil_iff.2 fun a hab hsame => ?_
        have hle := hkept (hwaiting (mem_append_right _ hab)) ((beq_iff_eq.1 hsame).trans hc.symm)
        exact absurd (ha.after a hab) (not_lt.2 hle)
      rw [hnone, append_nil] at hprev
      rw [filter_cons_of_pos (by simpa using hc), hnone]
      exact hprev.append (Sublist.refl _)
    · rw [filter_cons_of_neg (by simpa using hc)]
      exact hprev.trans (sublist_append_left _ _)
  · intro c hc
    show (q.state.activePackets.set _ _).getD c 0 = _
    rw [hperm.countP_eq, countP_cons]
    by_cases hsame : wfqClass desc weights.length id = c
    · rw [hsame, getD_set_self (by rw [h.activeLength]; exact hc), h.counts c hc, if_pos (beq_self_eq_true c)]
    · rw [getD_set_ne hsame, h.counts c hc, if_neg (by simpa using hsame), Nat.add_zero]
  · intro a hin
    show ∃ last, ((id, finish) :: q.admitted).find? _ = some (last, (finishes.set _ _).getD _ 0) ∧
      (_ → _ = (finishes.set _ _).getD _ 0)
    by_cases hsame : wfqClass desc weights.length id = wfqClass desc weights.length a
    · refine ⟨id, ?_, fun _ => ?_⟩
      · rw [find?_cons_of_pos (by simpa using hsame), ← hsame, hfinishSelf]
      · rw [hnewTag, ← hsame, hfinishSelf]
    · have hinOld : a ∈ q.present := (hmem.1 hin).resolve_left fun heq => hsame (by rw [heq])
      have hbusy : q.present ≠ [] := ne_nil_of_mem hinOld
      obtain ⟨last, hfind, htag⟩ := h.latest a hinOld
      refine ⟨last, ?_, fun hlast => ?_⟩
      · rw [find?_cons_of_neg (by simpa using hsame), hfinishOther hsame hbusy]
        exact hfind
      · have hlastClass : wfqClass desc weights.length last = wfqClass desc weights.length a := by
          simpa using find?_some hfind
        have hlastOld : last ∈ q.present :=
          (hmem.1 hlast).resolve_left fun heq => hsame (by rw [← heq]; exact hlastClass)
        rw [hold hlastOld, hfinishOther hsame hbusy]
        exact htag hlastOld
  · intro a hin
    show _ ≤ (finishes.set _ _).getD _ 0
    rcases hmem.1 hin with rfl | hinOld
    · rw [hnewTag, hfinishSelf]
    · rw [hold hinOld]
      by_cases hsame : wfqClass desc weights.length id = wfqClass desc weights.length a
      · rw [← hsame, hfinishSelf]
        exact hkept hinOld hsame.symm
      · rw [hfinishOther hsame (ne_nil_of_mem hinOld)]
        exact h.bounded a hinOld
  · intro hempty
    exact absurd (hmem.2 (.inl rfl)) (by rw [hempty]; exact not_mem_nil)

/-! ## §4. Service and completion. -/

theorem WfqQueue.Fair.start (h : q.Fair desc weights) {position : Nat} (htime : q.now ≤ timeNs)
    (hidle : q.inService = none) (hposition : q.waiting[position]? = some id) :
    ({ q with waiting := q.waiting.eraseIdx position, inService := some id, now := timeNs } :
      WfqQueue).Fair desc weights := by
  have hsublist := eraseIdx_sublist q.waiting position
  have hperm : ({ q with
      waiting := q.waiting.eraseIdx position, inService := some id, now := timeNs } :
        WfqQueue).present.Perm q.present := by
    obtain ⟨hlt, rfl⟩ := List.getElem?_eq_some_iff.1 hposition
    unfold WfqQueue.present
    rw [hidle]
    simp only [Option.toList_some, Option.toList_none, append_nil]
    exact (perm_append_singleton _ _).trans (getElem_cons_eraseIdx_perm hlt)
  exact {
    sameWeights := h.sameWeights
    finishLength := h.finishLength
    activeLength := h.activeLength
    clock := h.clock.trans htime
    nodup := hperm.nodup_iff.2 h.nodup
    tagged := fun id => (h.tagged id).trans hperm.mem_iff.symm
    sorted := h.sorted.sublist hsublist
    arrivals := fun c => (hsublist.filter _).trans (h.arrivals c)
    counts := fun c hc => (h.counts c hc).trans (hperm.countP_eq _).symm
    latest := fun id hid => by
      obtain ⟨last, hfind, htag⟩ := h.latest id (hperm.mem_iff.1 hid)
      exact ⟨last, hfind, fun hlast => htag (hperm.mem_iff.1 hlast)⟩
    bounded := fun id hid => h.bounded id (hperm.mem_iff.1 hid)
    idle := fun hempty => h.idle (by rw [hempty] at hperm; exact hperm.nil_eq.symm) }

/-- The state after a packet has left. -/
def WfqSchedulerState.leave (s : WfqSchedulerState) (priority : Nat) (id : PayloadId) (timeNs : Nat)
    (v : Rat) (last : Bool) : WfqSchedulerState :=
  { s with
    virtualTime := if last then 0 else v
    finishTimes := if last then s.finishTimes.set priority 0 else s.finishTimes
    packetFinishTimes := s.packetFinishTimes.erase id
    activePackets := s.activePackets.set priority (s.activePackets.getD priority 0 - 1)
    lastUpdatedNs := timeNs }

section

variable (h : q.Fair desc weights)

include h

theorem WfqQueue.Fair.leave_counts (hne : weights ≠ []) (hserving : q.inService = some id) :
    ∀ c < weights.length,
      (q.state.activePackets.set (wfqClass desc weights.length id)
        (q.state.activePackets.getD (wfqClass desc weights.length id) 0 - 1)).getD c 0 =
      q.waiting.countP fun other => wfqClass desc weights.length other == c := by
  intro c hc
  have hcount := h.counts c hc
  have hclass : wfqClass desc weights.length id < weights.length := wfqClass_lt hne id
  have hown := h.counts _ hclass
  unfold WfqQueue.present at hcount hown
  rw [hserving, Option.toList_some, countP_append, countP_singleton] at hcount hown
  by_cases hsame : wfqClass desc weights.length id = c
  · subst hsame
    rw [getD_set_self (by rw [h.activeLength]; exact hc), hown, if_pos (beq_self_eq_true _)]
    omega
  · rw [getD_set_ne hsame, hcount, if_neg (by simpa using hsame), Nat.add_zero]

/-- A completion succeeds; the last packet resets the clock. -/
theorem WfqQueue.Fair.complete_ok (rateBps : Nat) (node : NodeId)
    (hne : weights ≠ []) (hpos : 0 ∉ weights) (hdesc : ∀ id, (desc id).id = id)
    (htime : q.now ≤ timeNs) (hserving : q.inService = some id) :
    ∃ v, q.state.virtualTime ≤ v ∧ q.state.complete (desc id) timeNs rateBps node =
      .ok (q.state.leave (wfqClass desc weights.length id) id timeNs v (decide (q.waiting = []))) := by
  have hclass : schedulerClass (desc id).flow q.state.weights.length =
      some (wfqClass desc weights.length id) := by
    rw [h.sameWeights]; exact schedulerClass_eq hne id
  have hid : id ∈ q.present := by
    unfold WfqQueue.present
    rw [hserving]
    exact mem_append_right _ (mem_singleton_self id)
  have hactive : q.state.activePackets.getD (wfqClass desc weights.length id) 0 ≠ 0 := by
    rw [h.counts _ (wfqClass_lt hne id)]
    have hmany : 0 < q.present.countP fun other =>
        wfqClass desc weights.length other == wfqClass desc weights.length id :=
      countP_pos_iff.2 ⟨id, hid, beq_self_eq_true _⟩
    omega
  obtain ⟨v, hadvance, hle⟩ := advanceVirtualTime_ok rateBps node
      (h.clock.trans htime) (h.activeWeightSum_pos hne hpos hid)
  have htag : (q.state.packetFinishTimes[(desc id).id]?).isSome = true := by
    rw [hdesc]; exact (h.tagged id).2 hid
  refine ⟨v, hle, ?_⟩
  refine (bind_of_ok (okOr_eq_ok.2 hclass)).trans
    ((bind_of_ok (if_pos ⟨h.classValid hpos _, hactive⟩)).trans ((bind_of_ok hadvance).trans
      ((bind_of_ok (if_pos htag)).trans ?_)))
  let counted : WfqSchedulerState :=
    { q.state with
      virtualTime := v
      packetFinishTimes := q.state.packetFinishTimes.erase id
      activePackets := q.state.activePackets.set (wfqClass desc weights.length id)
        (q.state.activePackets.getD (wfqClass desc weights.length id) 0 - 1) }
  have hidle : counted.idle = true ↔ q.waiting = [] :=
    idle_iff_of_counts hne (length_set.trans h.activeLength) (h.leave_counts hne hserving)
  rw [hdesc id]
  show Except.ok { (if counted.idle then
      { counted with
        virtualTime := 0
        finishTimes := counted.finishTimes.set (wfqClass desc weights.length id) 0 }
      else counted) with lastUpdatedNs := timeNs } = _
  by_cases hlast : q.waiting = []
  · rw [if_pos (hidle.2 hlast), decide_eq_true hlast]
    rfl
  · rw [if_neg (fun hi => hlast (hidle.1 hi)), decide_eq_false hlast]
    rfl

theorem WfqQueue.Fair.leave (timeNs : Nat) (v : Rat) (hne : weights ≠ [])
    (hserving : q.inService = some id) :
    ({ q with
        state := q.state.leave (wfqClass desc weights.length id) id timeNs v (decide (q.waiting = []))
        inService := none
        now := timeNs } : WfqQueue).Fair desc weights := by
  have hold : q.present = q.waiting ++ [id] := by
    unfold WfqQueue.present
    rw [hserving]
    rfl
  have hgone : id ∉ q.waiting := by
    have hnodup := h.nodup
    rw [hold] at hnodup
    exact fun hin => (nodup_append.1 hnodup).2.2 id hin id (mem_singleton_self id) rfl
  have hpresent : ({ q with
        state := q.state.leave (wfqClass desc weights.length id) id timeNs v (decide (q.waiting = []))
        inService := none
        now := timeNs } : WfqQueue).present = q.waiting := append_nil _
  have hwas {a : PayloadId} (ha : a ∈ q.waiting) : a ∈ q.present := by
    rw [hold]; exact mem_append_left _ ha
  have htags (a : PayloadId) : (q.state.packetFinishTimes.erase id)[a]? =
      if a = id then none else q.state.packetFinishTimes[a]? := by
    rw [Std.ExtTreeMap.getElem?_erase]
    by_cases heq : a = id
    · rw [if_pos heq, heq, if_pos Std.ReflCmp.compare_self]
    · rw [if_neg heq, if_neg fun hcmp => heq (compare_eq_iff_eq.1 hcmp).symm]
  have htag {a : PayloadId} (ha : a ∈ q.waiting) :
      (q.state.leave (wfqClass desc weights.length id) id timeNs v (decide (q.waiting = []))).tagOf a =
        q.state.tagOf a := by
    have hne : a ≠ id := fun heq => hgone (heq ▸ ha)
    show ((q.state.packetFinishTimes.erase id)[a]?).getD 0 = _
    rw [htags, if_neg hne]
    rfl
  have hbusy {a : PayloadId} (ha : a ∈ q.waiting) :
      (q.state.leave (wfqClass desc weights.length id) id timeNs v (decide (q.waiting = []))).finishTimes =
        q.state.finishTimes := by
    have hmore : q.waiting ≠ [] := ne_nil_of_mem ha
    unfold WfqSchedulerState.leave
    rw [decide_eq_false hmore]
    rfl
  refine {
    sameWeights := h.sameWeights
    finishLength := ?_
    activeLength := length_set.trans h.activeLength
    clock := le_rfl
    nodup := by rw [hpresent]; exact (h.nodup.sublist (by rw [hold]; exact sublist_append_left _ _))
    tagged := ?_
    sorted := h.sorted.imp_of_mem fun ha hb hle => by rwa [htag ha, htag hb]
    arrivals := h.arrivals
    counts := fun c hc => by rw [hpresent]; exact h.leave_counts hne hserving c hc
    latest := ?_
    bounded := ?_
    idle := ?_ }
  · show (if _ then _ else _ : List Rat).length = _
    split
    · exact length_set.trans h.finishLength
    · exact h.finishLength
  · intro a
    show ((q.state.packetFinishTimes.erase id)[a]?).isSome = true ↔ _
    rw [hpresent, htags]
    by_cases heq : a = id
    · simp [heq, hgone]
    · rw [if_neg heq, h.tagged, hold]
      simp [heq]
  · intro a ha
    rw [hpresent] at ha
    obtain ⟨last, hfind, hlast⟩ := h.latest a (hwas ha)
    rw [hpresent]
    refine ⟨last, ?_, fun hin => ?_⟩
    · show q.admitted.find? _ = some (last, (finishTimes _).getD _ 0)
      rw [hbusy ha]
      exact hfind
    · show tagOf _ last = (finishTimes _).getD _ 0
      rw [hbusy ha, htag hin]
      exact hlast (hwas hin)
  · intro a ha
    rw [hpresent] at ha
    rw [hbusy ha, htag ha]
    exact h.bounded a (hwas ha)
  · intro hempty
    rw [hpresent] at hempty
    show (if decide (q.waiting = []) = true then (0 : Rat) else v) = 0
    rw [if_pos (decide_eq_true hempty)]

/-! ## §5. Whole runs. -/

/-- What an enabled event does to a fair queue: only a full counter stops it. -/
theorem WfqQueue.Fair.step (rateBps : Nat) (node : NodeId)
    (hne : weights ≠ []) (hpos : 0 ∉ weights) (hdesc : ∀ id, (desc id).id = id) {event : WfqEvent}
    (henabled : q.Enabled event) :
    (∃ next, q.step desc rateBps node event = .ok next ∧ next.Fair desc weights ∧
      (q.present ≠ [] → next.present ≠ [] → q.state.virtualTime ≤ next.state.virtualTime)) ∨
    (q.step desc rateBps node event = .error (.counterOverflow node) ∧ ∃ c,
      width 64 ≤ (q.present.countP fun id => wfqClass desc weights.length id == c) + 1) := by
  cases event with
  | arrive id timeNs =>
    obtain ⟨htime, hnew⟩ := henabled
    obtain ⟨v, finish, finishes, front, back, ha⟩ :=
      h.admits rateBps node hne hpos hdesc htime hnew
    have hclass : wfqClass desc weights.length id < weights.length := wfqClass_lt hne id
    have hcount := h.counts _ hclass
    by_cases hroom : q.state.activePackets.getD (wfqClass desc weights.length id) 0 + 1 < width 64
    · refine .inl ⟨q.enter desc weights id timeNs v finish finishes front back, ?_,
        h.enter hne hnew ha, fun hbusy _ => (ha.busy hbusy).2⟩
      have htag : ((q.enter desc weights id timeNs v finish finishes front back).state).tagOf id =
          finish := by
        rw [tagOf, tagOf_insert rfl, if_pos rfl]; rfl
      have henqueue := ha.enqueue.trans (bind_of_ok (okOr_eq_ok.2 (checkedAdd_of_lt hroom)))
      refine (bind_of_ok henqueue).trans ?_
      show Except.ok { q with
        state := (q.enter desc weights id timeNs v finish finishes front back).state
        waiting := front ++ id :: back
        now := timeNs
        admitted := (id, ((q.enter desc weights id timeNs v finish finishes front back).state).tagOf id)
          :: q.admitted } = _
      rw [htag]
      rfl
    · refine .inr ⟨?_, wfqClass desc weights.length id, by omega⟩
      have hfull : countUp node (q.state.activePackets.getD (wfqClass desc weights.length id) 0) =
          .error (.counterOverflow node) := by
        unfold countUp checkedAdd
        rw [if_neg hroom]
        rfl
      have henqueue := ha.enqueue
      rw [hfull] at henqueue
      show (q.state.enqueue q.waiting (desc id) timeNs rateBps node >>= _) = _
      rw [henqueue]
      rfl
  | start position timeNs =>
    obtain ⟨htime, hidle, hposition⟩ := henabled
    have hid := getElem?_eq_getElem hposition
    obtain ⟨tag, htag⟩ := Option.isSome_iff_exists.1
      ((h.tagged _).2 (mem_append_left _ (getElem_mem hposition)))
    exact .inl ⟨_, bind_eq_ok.2 ⟨_, okOr_eq_ok.2 hid, bind_eq_ok.2 ⟨_, okOr_eq_ok.2 htag, rfl⟩⟩,
      h.start htime hidle hid, fun _ _ => le_rfl⟩
  | complete timeNs =>
    obtain ⟨htime, hserving⟩ := henabled
    obtain ⟨id, hid⟩ := Option.isSome_iff_exists.1 hserving
    obtain ⟨v, hle, hcomplete⟩ := h.complete_ok rateBps node hne hpos hdesc htime hid
    refine .inl ⟨_, ?_, h.leave timeNs v hne hid, fun _ hbusy => ?_⟩
    · unfold WfqQueue.step
      rw [hid]
      exact bind_eq_ok.2 ⟨_, hcomplete, rfl⟩
    · have hmore : q.waiting ≠ [] := fun hempty => hbusy (by
        rw [hempty]; rfl)
      rw [decide_eq_false hmore]
      exact hle

end

variable (hne : weights ≠ []) (hpos : 0 ∉ weights) (hdesc : ∀ id, (desc id).id = id)

include hne hpos hdesc

theorem WfqQueue.Fair.of_step (h : q.Fair desc weights) {event : WfqEvent} {next : WfqQueue} (henabled : q.Enabled event)
    (hstep : q.step desc rateBps node event = .ok next) :
    next.Fair desc weights ∧
      (q.present ≠ [] → next.present ≠ [] → q.state.virtualTime ≤ next.state.virtualTime) := by
  rcases h.step rateBps node hne hpos hdesc henabled with
    ⟨reached, hreached, hfair, hmono⟩ | ⟨hfail, -⟩
  · rw [hstep] at hreached
    obtain rfl := Except.ok.inj hreached
    exact ⟨hfair, hmono⟩
  · rw [hstep] at hfail
    cases hfail

theorem WfqQueue.Run.fair {meets : WfqQueue → WfqEvent → Prop}
    (hrun : WfqQueue.Run desc rateBps node meets (WfqQueue.new weights) q) : q.Fair desc weights := by
  induction hrun with
  | start => exact WfqQueue.new_fair
  | step event _ henabled _ hstep ih => exact (ih.of_step hne hpos hdesc henabled hstep).1

/-- Within a busy period the virtual clock never goes back. -/
theorem WfqQueue.Fair.busy_mono (h : q.Fair desc weights) {later : WfqQueue}
    (hbusy : Relation.ReflTransGen (WfqQueue.BusyStep desc rateBps node) q later) :
    later.Fair desc weights ∧ q.state.virtualTime ≤ later.state.virtualTime := by
  induction hbusy with
  | refl => exact ⟨h, le_rfl⟩
  | tail _ hstep ih =>
    obtain ⟨hfrom, hto, event, henabled, hok⟩ := hstep
    obtain ⟨hfair, hmono⟩ := ih.1.of_step hne hpos hdesc henabled hok
    exact ⟨hfair, ih.2.trans (hmono hfrom hto)⟩

/-! ## §6. Service in the order of each class. -/

omit hne hpos hdesc

/-- The packets of a class that are present, the one in service first, are its latest admissions. -/
def WfqQueue.InOrder (desc : PayloadId → PacketDescriptor) (n : Nat) (q : WfqQueue) : Prop :=
  ∀ c, ((q.inService.toList ++ q.waiting).filter fun id => wfqClass desc n id == c) <:+
    (q.admitted.map Prod.fst).reverse.filter fun id => wfqClass desc n id == c

/-- A packet moved ahead of packets of other classes only leaves every class as it was. -/
theorem filter_cons_eraseIdx {p : PayloadId → Bool} {ids : List PayloadId} {position : Nat}
    (hid : ids[position]? = some id)
    (hfirst : p id = true → ∀ earlier ∈ ids.take position, p earlier = false) :
    (id :: ids.eraseIdx position).filter p = ids.filter p := by
  obtain ⟨hlt, rfl⟩ := List.getElem?_eq_some_iff.1 hid
  have hsplit : ids = ids.take position ++ ids[position] :: ids.drop (position + 1) := by
    rw [← drop_eq_getElem_cons hlt, take_append_drop]
  conv_rhs => rw [hsplit]
  rw [eraseIdx_eq_take_drop_succ, filter_append, filter_cons, filter_append, filter_cons]
  by_cases hp : p ids[position] = true
  · have hnone : (ids.take position).filter p = [] :=
      filter_eq_nil_iff.2 fun earlier hearlier => by simp [hfirst hp earlier hearlier]
    simp [hnone, hp]
  · simp [hp]

/-- Nothing of its class stands behind an admitted packet. -/
theorem WfqQueue.Fair.enter_last (h : q.Fair desc weights) {v finish : Rat} {finishes : List Rat}
    {front back : List PayloadId}
    (ha : q.Admits desc rateBps node weights id timeNs v finish finishes front back) :
    back.filter (fun a => wfqClass desc weights.length a == wfqClass desc weights.length id) = [] := by
  refine filter_eq_nil_iff.2 fun a hab hsame => ?_
  have hin : a ∈ q.present := mem_append_left _ (ha.split ▸ mem_append_right _ hab)
  have hle : q.state.tagOf a ≤ finish := by
    refine (h.bounded a hin).trans ?_
    rw [beq_iff_eq.1 hsame, ← (ha.busy (ne_nil_of_mem hin)).1]
    exact ha.finish_ge
  exact absurd (ha.after a hab) (not_lt.2 hle)

include hne hpos hdesc

/-- Events that serve each class in order keep its packets the latest admissions. -/
theorem WfqQueue.InOrder.of_step (hinOrder : q.InOrder desc weights.length) (h : q.Fair desc weights)
    {event : WfqEvent} {next : WfqQueue} (henabled : q.Enabled event)
    (hmeets : q.ServesInOrder desc weights.length event)
    (hstep : q.step desc rateBps node event = .ok next) : next.InOrder desc weights.length := by
  intro c
  cases event with
  | arrive id timeNs =>
    obtain ⟨v, finish, finishes, front, back, ha⟩ :=
      h.admits rateBps node hne hpos hdesc henabled.1 henabled.2
    obtain ⟨⟨state, waiting⟩, henqueue, ⟨⟩⟩ := bind_pure_ok hstep
    obtain ⟨active, -, hadmitted⟩ := bind_ok (ha.enqueue.symm.trans henqueue)
    cases hadmitted
    show ((q.inService.toList ++ (front ++ id :: back)).filter _) <:+
      (((id, _) :: q.admitted).map Prod.fst).reverse.filter _
    have hold := hinOrder c
    rw [ha.split, filter_append, filter_append] at hold
    rw [filter_append, filter_append, filter_cons, map_cons, reverse_cons, filter_append]
    by_cases hc : wfqClass desc weights.length id = c
    · have hlast := h.enter_last ha
      rw [hc] at hlast
      rw [hlast, append_nil] at hold
      simp only [hc, beq_self_eq_true, if_true, filter_cons_of_pos, filter_nil, hlast,
        ← append_assoc] at hold ⊢
      exact (suffix_append_inj_of_length_eq rfl).2 ⟨hold, rfl⟩
    · simpa [hc] using hold
  | start position timeNs =>
    obtain ⟨id, hid, hstep⟩ := bind_ok hstep
    obtain ⟨tag, -, ⟨⟩⟩ := bind_pure_ok hstep
    rw [okOr_eq_ok] at hid
    have hold := hinOrder c
    rw [henabled.2.1] at hold
    show ((id :: q.waiting.eraseIdx position).filter _) <:+ _
    rw [filter_cons_eraseIdx hid fun hp earlier hearlier => ?_]
    · exact hold
    · have hother := hmeets id hid earlier hearlier
      rw [beq_iff_eq.1 hp] at hother
      simpa using hother
  | complete timeNs =>
    obtain ⟨id, hserving⟩ := Option.isSome_iff_exists.1 henabled.2
    unfold WfqQueue.step at hstep
    rw [hserving] at hstep
    obtain ⟨state, -, ⟨⟩⟩ := bind_pure_ok hstep
    have hold := hinOrder c
    rw [hserving, filter_append] at hold
    exact (suffix_append _ _).trans hold

theorem WfqQueue.Run.inOrder {meets : WfqQueue → WfqEvent → Prop}
    (hrun : WfqQueue.Run desc rateBps node meets (WfqQueue.new weights) q)
    (hmeets : ∀ q event, meets q event → q.ServesInOrder desc weights.length event) :
    q.InOrder desc weights.length := by
  induction hrun with
  | start => exact fun _ => suffix_rfl
  | step event hrun henabled hmet hstep ih =>
    exact ih.of_step hne hpos hdesc (hrun.fair hne hpos hdesc) henabled (hmeets _ _ hmet) hstep

omit hne hpos hdesc in
/-- The latest packet of a class with packets present is the class's latest admission. -/
theorem WfqQueue.InOrder.last (h : q.InOrder desc weights.length) (hid : id ∈ q.present)
    {last : PayloadId} {tag : Rat}
    (hfind : q.admitted.find? (fun entry => wfqClass desc weights.length entry.1 ==
      wfqClass desc weights.length id) = some (last, tag)) :
    ((q.inService.toList ++ q.waiting).filter fun other =>
      wfqClass desc weights.length other == wfqClass desc weights.length id).getLast? = some last := by
  have hmem : id ∈ (q.inService.toList ++ q.waiting).filter fun other =>
      wfqClass desc weights.length other == wfqClass desc weights.length id := by
    refine mem_filter.2 ⟨?_, beq_self_eq_true _⟩
    rw [mem_append, or_comm]
    exact mem_append.1 hid
  obtain ⟨before, hbefore⟩ := h (wfqClass desc weights.length id)
  have hlast := congrArg getLast? hbefore
  rw [getLast?_append_of_ne_nil _ (ne_nil_of_mem hmem), filter_reverse, getLast?_reverse, head?_filter,
    find?_map] at hlast
  rw [hlast]
  exact congrArg (Option.map Prod.fst) hfind

end Invariant

/-! ## §7. The invariant of a weighted fair queue. -/

/-- In every queue reached by admissions, service starts and completions at nondecreasing times: the
waiting packets stand in tag order, those of one class in arrival order; the tags name the packets
present and the counters count them; the finish time of a class with packets is the tag its latest
admission was given, and bounds the tags of the class; the clock is zero when idle and does not go
back in a busy period; and every further event succeeds unless it would overflow a counter.  If no
service start passed over an earlier waiting packet of its class, that admission is present still,
as the latest packet of the class. -/
theorem wfq_queue_invariant (desc : PayloadId → PacketDescriptor) (hdesc : ∀ id, (desc id).id = id)
    (rateBps : Nat) (node : NodeId) (weights : List Nat) (hne : weights ≠ []) (hpos : 0 ∉ weights)
    (meets : WfqQueue → WfqEvent → Prop) (q : WfqQueue)
    (hrun : WfqQueue.Run desc rateBps node meets (.new weights) q) :
    (q.waiting.Pairwise fun a b => q.state.tagOf a ≤ q.state.tagOf b) ∧
    (∀ c, (q.waiting.filter fun id => wfqClass desc weights.length id == c).Sublist
      (q.admitted.map Prod.fst).reverse) ∧
    (∀ id, (q.state.packetFinishTimes[id]?).isSome ↔ id ∈ q.present) ∧
    (∀ c < weights.length, q.state.activePackets.getD c 0 =
      q.present.countP fun id => wfqClass desc weights.length id == c) ∧
    (∀ id ∈ q.present, ∃ last tag,
      q.admitted.find? (fun entry => wfqClass desc weights.length entry.1 ==
        wfqClass desc weights.length id) = some (last, tag) ∧
      q.state.finishTimes.getD (wfqClass desc weights.length id) 0 = tag ∧
      q.state.tagOf id ≤ tag ∧ (last ∈ q.present → q.state.tagOf last = tag) ∧
      ((∀ q event, meets q event → q.ServesInOrder desc weights.length event) → last ∈ q.present ∧
        ((q.inService.toList ++ q.waiting).filter fun other =>
          wfqClass desc weights.length other == wfqClass desc weights.length id).getLast? = some last)) ∧
    (q.present = [] → q.state.virtualTime = 0) ∧
    (∀ later, Relation.ReflTransGen (WfqQueue.BusyStep desc rateBps node) q later →
      q.state.virtualTime ≤ later.state.virtualTime) ∧
    ∀ event, q.Enabled event → (∃ next, q.step desc rateBps node event = .ok next) ∨
      (q.step desc rateBps node event = .error (.counterOverflow node) ∧ ∃ c,
        width 64 ≤ (q.present.countP fun id => wfqClass desc weights.length id == c) + 1) := by
  have h := hrun.fair hne hpos hdesc
  refine ⟨h.sorted, h.arrivals, h.tagged, h.counts, fun id hid => ?_, h.idle,
    fun later hbusy => (h.busy_mono hne hpos hdesc hbusy).2, fun event henabled => ?_⟩
  · obtain ⟨last, hfind, htag⟩ := h.latest id hid
    refine ⟨last, _, hfind, rfl, h.bounded id hid, htag, ?_⟩
    intro hmeets
    have hlast := (hrun.inOrder hne hpos hdesc hmeets).last hid hfind
    have hmem := (mem_filter.1 (mem_of_getLast? hlast)).1
    rw [mem_append, or_comm] at hmem
    exact ⟨mem_append.2 hmem, hlast⟩
  · rcases h.step rateBps node hne hpos hdesc henabled with
      ⟨next, hnext, -⟩ | hfull
    · exact .inl ⟨next, hnext⟩
    · exact .inr hfull

/-- Two packets of one class arrive and the first is taken into service. -/
def servedInOrder : Except PlainError (WfqQueue × WfqQueue × WfqQueue) := do
  let one ← WfqQueue.step sampleFrame 8000000000 1 (.new [1]) (.arrive 0 0)
  let two ← one.step sampleFrame 8000000000 1 (.arrive 1 0)
  let served ← two.step sampleFrame 8000000000 1 (.start 0 100)
  return (one, two, served)

/-- The finish time of the class is then the tag of the packet that waits. -/
theorem wfq_queue_invariant_two :
    ∃ q, WfqQueue.Run sampleFrame 8000000000 1 (WfqQueue.ServesInOrder sampleFrame 1) (.new [1]) q ∧
      q.present = [1, 0] ∧ q.state.tagOf 1 = 16000 ∧
      ∃ last, last ∈ q.present ∧ q.state.tagOf last = q.state.finishTimes.getD 0 0 := by
  obtain ⟨⟨one, two, q⟩, hrun, hchecks⟩ := exists_ok servedInOrder (fun run =>
    decide (run.1.now ≤ 0 ∧ (1 : PayloadId) ∉ run.1.present ∧ run.2.1.now ≤ 100 ∧
      run.2.1.inService = none ∧ 0 < run.2.1.waiting.length ∧
      run.2.2.present = [1, 0] ∧ run.2.2.state.tagOf 1 = 16000)) (by decide +kernel)
  obtain ⟨hnow, hfresh, hlater, hidle, hwaits, hpresent, htag⟩ := of_decide_eq_true hchecks
  obtain ⟨_, hone, hrun⟩ := bind_ok hrun
  obtain ⟨_, htwo, hrun⟩ := bind_ok hrun
  obtain ⟨_, hserved, ⟨⟩⟩ := bind_pure_ok hrun
  have hreached : WfqQueue.Run sampleFrame 8000000000 1 (WfqQueue.ServesInOrder sampleFrame 1)
      (.new [1]) q := by
    refine .step (.start 0 100) (.step (.arrive 1 0) (.step (.arrive 0 0) .start
      ⟨le_rfl, not_mem_nil⟩ trivial hone) ⟨hnow, hfresh⟩ trivial htwo) ⟨hlater, hidle, hwaits⟩ ?_ hserved
    exact fun _ _ earlier hearlier => by simp at hearlier
  obtain ⟨last, tag, -, hfinish, -, hlast, hinOrder⟩ := (wfq_queue_invariant sampleFrame (fun _ => rfl)
    8000000000 1 [1] (by decide) (by decide) _ q hreached).2.2.2.2.1 1 (by rw [hpresent]; simp)
  have hin := (hinOrder fun _ _ hmet => hmet).1
  exact ⟨q, hreached, hpresent, htag, last, hin, (hlast hin).trans hfinish.symm⟩

/-- Two packets of one class, in separate PFC classes; the second is served and gone. -/
def passedOver : Except PlainError WfqQueue := do
  let q ← WfqQueue.step sampleFrame 8000000000 1 (.new [1]) (.arrive 0 0)
  let q ← q.step sampleFrame 8000000000 1 (.arrive 1 0)
  let q ← q.step sampleFrame 8000000000 1 (.start 1 100)
  q.step sampleFrame 8000000000 1 (.complete 1100)

/-- While the class of its head is paused, the queue serves the packet behind it. The finish time of
their class is then the tag of a packet that has left, not that of the one still waiting. -/
theorem wfq_finish_outlives_packet :
    Prog.run sampleCtx (pfcFirstEligibleBySearch sampleCtx (pausedClass 3) 0 [0, 1]) sampleState =
      .ok (some (1, 1), sampleState) ∧
    passedOver.toOption.map (fun q => (q.present, q.state.tagOf 0, q.state.finishTimes.getD 0 0)) =
      some ([0], 8000, 16000) :=
  ⟨rfl, by decide +kernel⟩

end Days
