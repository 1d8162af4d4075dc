/-
  Days.Lib.Pacing — a greedy pacer: every tick earns credit and pays for at most
  one item.

  `total j` is what the first `j` items cost together.  Item `j + 1` is paid at
  the first tick after item `j` by which the credit earned covers `total (j + 1)`;
  for items of one price this unfolds to a maximum of two terms.
-/
import Mathlib.Tactic.Ring

namespace Lib.Pacing

variable {credit tick t j n k : Nat} {total : Nat → Nat}

/-- The ticks after which a starting credit covers a cost. -/
def coverTicks (credit tick cost : Nat) : Nat := (cost - credit + tick - 1) / tick

theorem coverTicks_le_iff {cost : Nat} (htick : 0 < tick) :
    coverTicks credit tick cost ≤ t ↔ cost ≤ credit + t * tick := by
  unfold coverTicks
  rw [← Nat.lt_succ_iff, Nat.div_lt_iff_lt_mul htick, Nat.succ_mul]
  omega

/-- The tick that pays for item `j`. -/
def payTick (credit tick : Nat) (total : Nat → Nat) : Nat → Nat
  | 0 => 0
  | j + 1 => max (payTick credit tick total j + 1) (coverTicks credit tick (total (j + 1)))

section PayTick

variable {credit tick : Nat} {total : Nat → Nat}

theorem payTick_lt_succ (j : Nat) : payTick credit tick total j < payTick credit tick total (j + 1) :=
  Nat.lt_of_succ_le (le_max_left _ _)

theorem payTick_strictMono : StrictMono (payTick credit tick total) :=
  strictMono_nat_of_lt_succ payTick_lt_succ

/-- By the tick that pays for an item the credit covers it. -/
theorem total_le_of_payTick_le (htick : 0 < tick) (hzero : total 0 = 0)
    (h : payTick credit tick total j ≤ t) : total j ≤ credit + t * tick := by
  cases j with
  | zero => rw [hzero]; exact Nat.zero_le _
  | succ j => exact (coverTicks_le_iff htick).1 ((le_max_right _ _).trans h)

/-- Between two payments the next item is paid exactly when the credit covers it. -/
theorem payTick_succ_eq_iff (htick : 0 < tick) (hpaid : payTick credit tick total j ≤ t)
    (hnext : t < payTick credit tick total (j + 1)) :
    payTick credit tick total (j + 1) = t + 1 ↔ total (j + 1) ≤ credit + (t + 1) * tick := by
  rw [← coverTicks_le_iff htick]
  unfold payTick at hnext ⊢
  omega

/-- Items of one price. -/
theorem payTick_uniform (htick : 0 < tick) {cost : Nat} (h : ∀ i ≤ j, total i = i * cost) :
    payTick credit tick total j = max j (coverTicks credit tick (j * cost)) := by
  induction j with
  | zero =>
    have hcover : coverTicks credit tick (0 * cost) ≤ 0 := (coverTicks_le_iff htick).2 (by simp)
    unfold payTick
    omega
  | succ j ih =>
    have hprev := ih fun i hi => h i (by omega)
    -- The previous payment leaves room for one more tick before either bound of this one.
    have hroom : coverTicks credit tick (j * cost) + 1 ≤
        max (j + 1) (coverTicks credit tick ((j + 1) * cost)) := by
      by_contra hlt
      have hcount : j + 1 ≤ coverTicks credit tick (j * cost) := by omega
      have hcover : coverTicks credit tick ((j + 1) * cost) ≤ coverTicks credit tick (j * cost) := by omega
      have hpaid := (coverTicks_le_iff htick).1 hcover
      have hearly : ¬ coverTicks credit tick (j * cost) ≤ coverTicks credit tick (j * cost) - 1 := by omega
      rw [coverTicks_le_iff htick] at hearly
      obtain ⟨d, hd⟩ : ∃ d, coverTicks credit tick (j * cost) = d + 1 := ⟨_, (Nat.sub_add_cancel (by omega)).symm⟩
      rw [hd] at hpaid hearly hcount
      simp only [Nat.add_sub_cancel] at hearly
      rw [Nat.succ_mul] at hpaid
      rw [Nat.succ_mul] at hpaid
      -- A tick earns more than an item costs, yet `j` items outrun more than `j` ticks.
      have hcost : cost < tick := by omega
      have hmul : j * cost ≤ d * tick := Nat.mul_le_mul (by omega) hcost.le
      omega
    rw [payTick, hprev, h (j + 1) (le_refl _)]
    omega

end PayTick

/-! ## Items paid by a tick. -/

/-- `k` of `n` items are paid after `t` ticks. -/
structure PaidBy (credit tick : Nat) (total : Nat → Nat) (n t k : Nat) : Prop where
  le : k ≤ n
  paid : payTick credit tick total k ≤ t
  unpaid : k < n → t < payTick credit tick total (k + 1)

/-- More ticks pay for more items. -/
theorem PaidBy.mono {t' k' : Nat}
    (h : PaidBy credit tick total n t k) (h' : PaidBy credit tick total n t' k') (ht : t ≤ t') :
    k ≤ k' := by
  have hmono : StrictMono (payTick credit tick total) := payTick_strictMono
  by_contra hlt
  have hpast : payTick credit tick total (k' + 1) ≤ payTick credit tick total k :=
    hmono.monotone (by omega)
  have hbefore := h'.unpaid (by have := h.le; omega)
  have hpaid := h.paid
  omega

theorem PaidBy.unique {k' : Nat}
    (h : PaidBy credit tick total n t k) (h' : PaidBy credit tick total n t k') : k = k' :=
  le_antisymm (h.mono h' le_rfl) (h'.mono h le_rfl)

/-! ## Ticks that earn varying credit. -/

/-- A pacer that paid for `j` items in `t` ticks, each of which earned between `low` and `high`:
    no sooner than at the high rate, no later than at the low one. -/
structure Between (credit low high : Nat) (total : Nat → Nat) (t j earned : Nat) : Prop where
  least : t * low ≤ earned
  most : earned ≤ t * high
  fast : payTick credit high total j ≤ t
  slow : t < payTick credit low total (j + 1)

section Between

variable {credit low high : Nat} {total : Nat → Nat} {t j earned gain : Nat}

theorem Between.start : Between credit low high total 0 0 0 :=
  ⟨by simp, by simp, Nat.le_refl 0, payTick_lt_succ 0⟩

section

variable (h : Between credit low high total t j earned)

include h

theorem Between.earn (hlow : low ≤ gain) (hhigh : gain ≤ high) :
    (t + 1) * low ≤ earned + gain ∧ earned + gain ≤ (t + 1) * high := by
  rw [Nat.succ_mul, Nat.succ_mul]
  exact ⟨Nat.add_le_add h.least hlow, Nat.add_le_add h.most hhigh⟩

/-- A tick that covers the next item pays for it. -/
theorem Between.pay (hlow : low ≤ gain)
    (hhigh : gain ≤ high) (hpos : 0 < high) (hpays : total (j + 1) ≤ credit + (earned + gain)) :
    Between credit low high total (t + 1) (j + 1) (earned + gain) := by
  obtain ⟨hleast, hmost⟩ := h.earn hlow hhigh
  have hcover : coverTicks credit high (total (j + 1)) ≤ t + 1 :=
    (coverTicks_le_iff hpos).2 (hpays.trans (Nat.add_le_add_left hmost credit))
  have hlater : payTick credit low total (j + 1) < payTick credit low total (j + 1 + 1) :=
    payTick_lt_succ (j + 1)
  refine ⟨hleast, hmost, max_le (Nat.succ_le_succ h.fast) hcover, ?_⟩
  have hslow := h.slow
  omega

/-- A tick that does not cover the next item leaves it to a later one. -/
theorem Between.wait (hlow : low ≤ gain)
    (hhigh : gain ≤ high) (hpos : 0 < low) (hwaits : credit + (earned + gain) < total (j + 1)) :
    Between credit low high total (t + 1) j (earned + gain) := by
  obtain ⟨hleast, hmost⟩ := h.earn hlow hhigh
  refine ⟨hleast, hmost, Nat.le_succ_of_le h.fast, ?_⟩
  have huncovered : ¬ coverTicks credit low (total (j + 1)) ≤ t + 1 := by
    rw [coverTicks_le_iff hpos]
    omega
  exact lt_of_lt_of_le (Nat.lt_of_not_le huncovered) (le_max_right _ _)

end

end Between

/-- What is paid by a tick is among what is paid by then. -/
theorem PaidBy.le_of_payTick
    (h : PaidBy credit tick total n t k) (hj : j ≤ n) (hpaid : payTick credit tick total j ≤ t) :
    j ≤ k := by
  by_contra hlt
  have hnext : payTick credit tick total (k + 1) ≤ payTick credit tick total j :=
    payTick_strictMono.monotone (by omega)
  have hunpaid := h.unpaid (by omega)
  omega

end Lib.Pacing
