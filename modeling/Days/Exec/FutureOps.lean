/-
  Days.Exec.FutureOps — the future-event list as its callers use it (`fel.rs`):
  every operation with its answer and the list it leaves behind, also where it
  is refused.
-/
import Days.Exec.Future
import Days.Lib.Refinement

namespace Days

inductive FelOp where
  | insert (event : Event)
  | peek
  | pop
  | removeTimer (timer : SupersededTimer)
  | countBelow (exclusiveHorizonNs : Nat)

inductive FelAnswer where
  | inserted
  | key (key : Option EventKey)
  | popped (event : Option Event)
  | removed (event : Event)
  | count (n : Nat)
  deriving DecidableEq

namespace FutureEvents

/-- `remove_superseded_timer`: the event with the least key that carries the timer. -/
def removeSupersededTimer (f : FutureEvents) (timer : SupersededTimer) :
    Except ExecutionError (Event × FutureEvents) :=
  match f.timers.find? timer.carriedBy with
  | none => .error (.supersededTimerMissing timer.target timer.payload timer.deadlineNs)
  | some event => .ok (event, { f with timers := f.timers.eraseP timer.carriedBy })

def below (exclusiveHorizonNs : Nat) (event : Event) : Bool :=
  decide (event.key.timeNs < exclusiveHorizonNs)

/-- `count_below`. -/
def countBelow (f : FutureEvents) (exclusiveHorizonNs : Nat) : Nat :=
  f.heap.countP (below exclusiveHorizonNs) + (f.timers.takeWhile (below exclusiveHorizonNs)).length

/-- A refused timer has already taken the place of the one with its key. -/
def replaceTimer (f : FutureEvents) (event : Event) : FutureEvents :=
  { f with timers := f.timers.map fun timer => if timer.key = event.key then event else timer }

/-- One operation. -/
def step (f : FutureEvents) : FelOp → Except ExecutionError FelAnswer × FutureEvents
  | .insert event =>
    match f.insert event with
    | .ok f' => (.ok .inserted, f')
    | .error e => (.error e, f.replaceTimer event)
  | .peek => (.ok (.key f.peekKey), f)
  | .pop =>
    match f.pop, f.takeMin with
    | .ok none, _ => (.ok (.popped none), f)
    | .ok (some (event, f')), _ => (.ok (.popped (some event)), f')
    -- The minimum has left the list when its copy is found.
    | .error e, some (_, f') => (.error e, f')
    | .error e, none => (.error e, f)
  | .removeTimer timer =>
    match f.removeSupersededTimer timer with
    | .ok (event, f') => (.ok (.removed event), f')
    | .error e => (.error e, f)
  | .countBelow horizon => (.ok (.count (f.countBelow horizon)), f)

end FutureEvents

/-! ## The ordered map. -/

instance : Std.LawfulEqCmp (compare : EventKey → EventKey → Ordering) where
  eq_of_compare := compare_eq_iff_eq.1

instance EventKey.transCmp : Std.TransCmp (compare : EventKey → EventKey → Ordering) :=
  inferInstance

/-- What the list stands for: the pending events by key. -/
abbrev EventMap := Std.ExtTreeMap EventKey Event

namespace EventMap

/-- The entry with the least key. -/
def first (m : EventMap) : Option (EventKey × Event) := m.toList.head?

/-- The first entry in key order whose event carries the timer. -/
def carrier (m : EventMap) (timer : SupersededTimer) : Option (EventKey × Event) :=
  m.toList.find? fun entry => timer.carriedBy entry.2

def drain (m : EventMap) : List Event := m.toList.map (·.2)

def step (m : EventMap) : FelOp → Except ExecutionError FelAnswer × EventMap
  | .insert event =>
    if event.key ∈ m then (.error (.duplicateEventKey event.key), m)
    else (.ok .inserted, m.insert event.key event)
  | .peek => (.ok (.key (m.first.map (·.1))), m)
  | .pop =>
    match m.first with
    | none => (.ok (.popped none), m)
    | some (key, event) => (.ok (.popped (some event)), m.erase key)
  | .removeTimer timer =>
    match m.carrier timer with
    | none => (.error (.supersededTimerMissing timer.target timer.payload timer.deadlineNs), m)
    | some (key, event) => (.ok (.removed event), m.erase key)
  | .countBelow horizon =>
    (.ok (.count (m.toList.countP fun entry => decide (entry.1.timeNs < horizon))), m)

end EventMap

end Days
