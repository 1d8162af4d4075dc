/-
  Days.Base.Checked — fixed-width unsigned arithmetic on `Nat`, and what a
  computation that may fail has done.

  A machine integer is a `Nat` together with the width of the operation
  that produced it: `checkedAdd w`, `checkedSub`, `checkedMul w` answer
  `none` exactly where the hardware operation of that width leaves its
  range, and the saturating forms clamp there.
-/
import Mathlib.Tactic.Common
import Mathlib.Algebra.Order.Group.Nat
import Mathlib.Algebra.Ring.Nat

namespace Days

/-! ## §1. Widths. -/

/-- The number of values of a `w`-bit unsigned integer. -/
def width (w : Nat) : Nat := 2 ^ w

/-- The largest 64-bit value. -/
def u64Max : Nat := width 64 - 1

theorem u64Max_lt : u64Max < width 64 := by decide

/-! ## §2. Checked operations. -/

/-- Addition that answers `none` on overflow. -/
def checkedAdd (w a b : Nat) : Option Nat :=
  if a + b < width w then some (a + b) else none

/-- Subtraction that answers `none` below zero. -/
def checkedSub (a b : Nat) : Option Nat :=
  if b ≤ a then some (a - b) else none

/-- Multiplication that answers `none` on overflow. -/
def checkedMul (w a b : Nat) : Option Nat :=
  if a * b < width w then some (a * b) else none

/-- Addition clamped to the largest value. -/
def saturatingAdd (w a b : Nat) : Nat := min (a + b) (width w - 1)

/-- Multiplication clamped to the largest value. -/
def saturatingMul (w a b : Nat) : Nat := min (a * b) (width w - 1)

theorem checkedAdd_eq_some {w a b c : Nat} (h : checkedAdd w a b = some c) :
    c = a + b ∧ c < width w := by
  unfold checkedAdd at h
  split at h
  · rename_i hlt
    have hc : a + b = c := Option.some.inj h
    exact ⟨hc.symm, hc ▸ hlt⟩
  · cases h

theorem checkedAdd_of_lt {w a b : Nat} (h : a + b < width w) :
    checkedAdd w a b = some (a + b) := if_pos h

theorem checkedSub_eq_some {a b c : Nat} (h : checkedSub a b = some c) : b ≤ a ∧ c = a - b := by
  unfold checkedSub at h
  split at h
  · rename_i hle
    exact ⟨hle, (Option.some.inj h).symm⟩
  · cases h

theorem checkedMul_eq_some {w a b c : Nat} (h : checkedMul w a b = some c) :
    c = a * b ∧ c < width w := by
  unfold checkedMul at h
  split at h
  · rename_i hlt
    have hc : a * b = c := Option.some.inj h
    exact ⟨hc.symm, hc ▸ hlt⟩
  · cases h

theorem saturatingAdd_le (a b : Nat) : saturatingAdd 64 a b ≤ u64Max := min_le_right _ _

/-! ## §3. Computations that succeed. -/

section

variable {ε α β : Type} {x : Except ε α} {f : α → Except ε β} {b : β}

theorem bind_eq_ok : (x >>= f) = .ok b ↔ ∃ a, x = .ok a ∧ f a = .ok b := by
  cases x <;> simp [bind, Except.bind]

/-- The computation in front of a successful one succeeds. -/
theorem bind_ok (h : (x >>= f) = .ok b) : ∃ a, x = .ok a ∧ f a = .ok b := bind_eq_ok.1 h

theorem bind_eq_error {e : ε} :
    (x >>= f) = .error e ↔ x = .error e ∨ ∃ a, x = .ok a ∧ f a = .error e := by
  cases x <;> simp [bind, Except.bind]

theorem pure_eq_ok {a b : α} : (pure a : Except ε α) = .ok b ↔ a = b := by
  simp [pure, Except.pure]

theorem bind_pure_ok {f : α → β} (h : (x >>= fun a => pure (f a)) = .ok b) :
    ∃ a, x = .ok a ∧ f a = b := by
  simpa only [bind_eq_ok, pure_eq_ok] using h

/-- A computation that is seen to succeed. -/
theorem exists_ok (x : Except ε α) (p : α → Bool) (h : x.toOption.any p = true) :
    ∃ a, x = .ok a ∧ p a = true := by
  cases x with
  | error => cases h
  | ok a => exact ⟨a, rfl, h⟩

end

end Days
