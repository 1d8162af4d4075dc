/-
  Days.Exec.Future — the future-event list (`fel.rs`).

  Retransmission timeouts live in an ordered map, because a superseded one is
  taken out of the middle; every other event lives in a heap.  Both are kept
  here as lists in key order.
-/
import Days.Exec.State

namespace Days

/-! ## §1. Superseded timers. -/

namespace SupersededTimer

/-- `matches` within `key_bounds`. -/
def carriedBy (timer : SupersededTimer) (event : Event) : Bool :=
  event.kind == .retransmissionTimeout && event.target == timer.target &&
    event.payload == timer.payload && event.key.timeNs == timer.deadlineNs &&
    event.key.phase == eventPhase .retransmissionTimeout && event.key.originNode == timer.target

end SupersededTimer

/-- `remove_superseded_timer`: take out the first event that carries the timer. -/
def removeSupersededTimer (events : List Event) (timer : SupersededTimer) :
    Except ExecutionError (List Event) :=
  if events.any timer.carriedBy then .ok (events.eraseP timer.carriedBy)
  else .error (.supersededTimerMissing timer.target timer.payload timer.deadlineNs)

def removeSupersededTimers (events : List Event) :
    List SupersededTimer → Except ExecutionError (List Event)
  | [] => .ok events
  | timer :: rest => do
    let events ← removeSupersededTimer events timer
    removeSupersededTimers events rest

/-! ## §2. The list. -/

/-- Insert an event in front of the first one that is not earlier. -/
def insertEvent (event : Event) (events : List Event) : List Event :=
  events.orderedInsert (fun a b => a.key ≤ b.key) event

structure FutureEvents where
  heap : List Event
  timers : List Event

namespace FutureEvents

def new : FutureEvents := ⟨[], []⟩

def insert (f : FutureEvents) (event : Event) : Except ExecutionError FutureEvents :=
  if event.kind = .retransmissionTimeout then
    if f.timers.any (·.key == event.key) then .error (.duplicateEventKey event.key)
    else .ok { f with timers := insertEvent event f.timers }
  else .ok { f with heap := insertEvent event f.heap }

def insertAll (f : FutureEvents) : List Event → Except ExecutionError FutureEvents
  | [] => .ok f
  | event :: rest => do
    let f ← f.insert event
    f.insertAll rest

def peekKey (f : FutureEvents) : Option EventKey :=
  match f.heap, f.timers with
  | [], [] => none
  | event :: _, [] => some event.key
  | [], timer :: _ => some timer.key
  | event :: _, timer :: _ => some (min event.key timer.key)

/-- The smaller head and the list without it. -/
def takeMin (f : FutureEvents) : Option (Event × FutureEvents) :=
  match f.heap, f.timers with
  | [], [] => none
  | event :: heap, [] => some (event, { f with heap })
  | [], timer :: timers => some (timer, { f with timers })
  | event :: heap, timer :: timers =>
    if timer.key < event.key then some (timer, { f with timers }) else some (event, { f with heap })

/-- `pop`: two equal keys are refused when the first of them is taken. -/
def pop (f : FutureEvents) : Except ExecutionError (Option (Event × FutureEvents)) :=
  match f.takeMin with
  | none => .ok none
  | some (event, rest) =>
    if rest.peekKey = some event.key then .error (.duplicateEventKey event.key)
    else .ok (some (event, rest))

def removeSuperseded (f : FutureEvents) (timers : List SupersededTimer) :
    Except ExecutionError FutureEvents := do
  let timers ← removeSupersededTimers f.timers timers
  return { f with timers }

/-- The first key that two neighbours share. -/
def duplicateKey : List Event → Option EventKey
  | a :: b :: rest => if a.key = b.key then some b.key else duplicateKey (b :: rest)
  | _ => none

/-- `into_sorted_vec`. -/
def intoSortedVec (f : FutureEvents) : Except ExecutionError (List Event) :=
  let events := (f.heap ++ f.timers).insertionSort fun a b => a.key ≤ b.key
  match duplicateKey events with
  | some key => .error (.duplicateEventKey key)
  | none => .ok events

end FutureEvents

/-- `initial_event_queue`: the events of the image, whose keys must differ. -/
def initialEventQueue : List EventKey → FutureEvents → List Event →
    Except ExecutionError FutureEvents
  | _, f, [] => .ok f
  | keys, f, event :: rest =>
    if event.key ∈ keys then .error (.duplicateEventKey event.key)
    else do
      let f ← f.insert event
      initialEventQueue (event.key :: keys) f rest

end Days
