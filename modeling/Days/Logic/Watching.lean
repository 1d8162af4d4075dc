/-
  Days.Logic.Watching — programs that look at switches and packets and add rows.

  They write the rows of a scheduler.  They belong to every class of programs
  that contains the operations they use and is closed under sequencing.
-/
import Days.Exec.Scalar

namespace Days

/-- Operations that look up a switch or a packet, or add a row. -/
def Op.Watches : Op → Prop
  | .getSwitch | .packet _ | .pushDeparture _ | .pushArrival _ _ | .pushTcp _ | .pushAqm _
  | .pushMechanism _ => True
  | _ => False

/-- A class of programs with the watching operations, closed under sequencing. -/
structure WatchClass (P : ∀ {α : Type}, Prog α → Prop) : Prop where
  pure : ∀ {α : Type} (a : α), P (Pure.pure a : Prog α)
  bind : ∀ {α β : Type} {x : Prog α} {f : α → Prog β}, P x → (∀ a, P (f a)) → P (x >>= f)
  lift : ∀ {α : Type} (x : Except PlainError α), P (liftM x : Prog α)
  op : ∀ {o : Op}, o.Watches → P (Prog.op o)

namespace WatchClass

variable {P : ∀ {α : Type}, Prog α → Prop} {c : Ctx} (h : WatchClass @P)

include h

theorem lift_bind {α β : Type} {x : Except PlainError α} {f : α → Prog β} (hf : ∀ a, P (f a)) :
    P (liftM x >>= f) :=
  h.bind (h.lift x) hf

theorem packets (ids : List PayloadId) : P (packets ids) := by
  induction ids with
  | nil => exact h.pure _
  | cons id rest ih => exact h.bind (h.op trivial) fun _ => h.bind ih fun _ => h.pure _

theorem schedulerQueueOf (p : PacketDescriptor) : P (schedulerQueueOf c p) := by
  unfold Days.schedulerQueueOf
  split
  · exact h.pure _
  · refine h.lift_bind fun egress => ?_
    split
    · exact h.pure _
    · exact h.bind (h.op trivial) fun entry => h.lift_bind fun _ => h.pure _

theorem observeSchedulerEnqueue (p : PacketDescriptor) : P (observeSchedulerEnqueue c p) := by
  refine h.bind (h.schedulerQueueOf p) fun queue => ?_
  split
  · exact h.pure _
  · split
    · exact h.lift_bind fun _ => h.op trivial
    · refine h.lift_bind fun finish => h.lift_bind fun classId => ?_
      refine h.lift_bind fun egress => h.lift_bind fun priority => ?_
      exact h.lift_bind fun _ => h.op trivial
    · exact h.pure _

theorem observeSchedulerCompletion (p : PacketDescriptor) : P (observeSchedulerCompletion c p) := by
  refine h.bind (h.schedulerQueueOf p) fun queue => ?_
  split
  · exact h.pure _
  · split
    · exact h.lift_bind fun _ => h.op trivial
    · exact h.lift_bind fun _ => h.op trivial
    · exact h.pure _

theorem observeServiceStart (slot : Nat) : P (observeServiceStart c slot) := by
  refine h.bind (h.op trivial) fun entry => h.lift_bind fun queue => ?_
  split
  · refine h.lift_bind fun served => h.lift_bind fun egress => ?_
    refine h.bind (h.op trivial) fun served => h.lift_bind fun link => ?_
    refine h.lift_bind fun arrival => h.lift_bind fun departure => ?_
    exact h.lift_bind fun _ => h.op trivial
  · refine h.lift_bind fun served => h.lift_bind fun egress => ?_
    refine h.bind (h.op trivial) fun served => h.lift_bind fun link => ?_
    refine h.lift_bind fun arrival => h.lift_bind fun departure => ?_
    refine h.bind (h.packets _) fun waiting => h.lift_bind fun queued => ?_
    exact h.lift_bind fun _ => h.op trivial
  · exact h.pure _

end WatchClass

end Days
