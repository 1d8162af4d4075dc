/-
  Days.Logic.Ledger — what the operations of the segment ledger leave in it.
-/
import Days.Exec.Prog

namespace Days

/-! ## §1. Computations that succeed. -/

theorem Prog.liftPlain_eq_ok {α : Type} {x : Except PlainError α} {a : α} :
    Prog.liftPlain x = .ok a ↔ x = .ok a := by
  cases x <;> simp [Prog.liftPlain]

theorem Prog.liftConflict_eq_ok {α : Type} {x : Except TcpSegmentConflict α} {a : α} :
    Prog.liftConflict x = .ok a ↔ x = .ok a := by
  cases x <;> simp [Prog.liftConflict]

namespace TcpSegmentLedger

/-! ## §2. Looking up segments. -/

theorem segment_insert (ledger : TcpSegmentLedger) (flow other : FlowId)
    (segments : Std.ExtTreeMap Nat PacketDescriptor) (sequence : Nat) :
    TcpSegmentLedger.segment (ledger.insert flow segments) other sequence =
      if flow = other then segments[sequence]? else ledger.segment other sequence := by
  unfold segment
  rw [Std.ExtTreeMap.getElem?_insert]
  by_cases h : flow = other
  · simp [h]
  · simp [h]

theorem segment_erase (ledger : TcpSegmentLedger) (flow other : FlowId) (sequence : Nat) :
    TcpSegmentLedger.segment (ledger.erase flow) other sequence =
      if flow = other then none else ledger.segment other sequence := by
  unfold segment
  rw [Std.ExtTreeMap.getElem?_erase]
  by_cases h : flow = other
  · simp [h]
  · simp [h]

theorem segment_getD (ledger : TcpSegmentLedger) (flow : FlowId) (sequence : Nat) :
    ((ledger[flow]?).getD ∅)[sequence]? = ledger.segment flow sequence := by
  unfold segment
  cases ledger[flow]? <;> simp

end TcpSegmentLedger

end Days
