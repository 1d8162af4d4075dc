/-
  Days.Model.Time — exact link arithmetic (`time.rs`).
-/
import Days.Base.Checked

namespace Days

inductive TimeError where
  | zeroRate
  | serializationOverflow
  | arrivalOverflow
  deriving DecidableEq, Repr

/-- `bytes * 8 * 10^9 / rateBps` rounded up; exact in 128 bits. -/
def serNs (bytes rateBps : Nat) : Nat :=
  bytes * 8 * 1000000000 / rateBps + (if bytes * 8 * 1000000000 % rateBps = 0 then 0 else 1)

/-- Serialization time of `bytes` at `rateBps`, rounded up to a nanosecond. -/
def serializationTimeNs (bytes rateBps : Nat) : Except TimeError Nat :=
  if rateBps = 0 then .error .zeroRate
  else if serNs bytes rateBps < width 64 then .ok (serNs bytes rateBps)
  else .error .serializationOverflow

/-- Arrival time of a frame that starts serializing at `startTimeNs`. -/
def linkArrivalTimeNs (startTimeNs bytes rateBps propagationNs : Nat) : Except TimeError Nat :=
  match serializationTimeNs bytes rateBps with
  | .error e => .error e
  | .ok serializationNs =>
      match (checkedAdd 64 startTimeNs serializationNs).bind (checkedAdd 64 · propagationNs) with
      | some t => .ok t
      | none => .error .arrivalOverflow

end Days
