/-
  Days.Lib.Digits — numbers of two digits.

  `x * n + y` with `y < n` is known by its digits, so that lists built digit by
  digit hold distinct numbers.
-/
import Mathlib.Data.List.Nodup
import Mathlib.Tactic.Common

namespace Lib

open List

variable {n a x x' y y' : Nat}

theorem digits_div (hy : y < n) : (x * n + y) / n = x := by
  rw [Nat.mul_comm, Nat.mul_add_div (by omega), Nat.div_eq_of_lt hy, Nat.add_zero]

theorem digits_mod (hy : y < n) : (x * n + y) % n = y := by
  rw [Nat.mul_add_mod_self_right, Nat.mod_eq_of_lt hy]

theorem digits_inj (hy : y < n) (hy' : y' < n) (h : x * n + y = x' * n + y') : x = x' ∧ y = y' := by
  have hdiv := congrArg (· / n) h
  have hmod := congrArg (· % n) h
  simp only [digits_div hy, digits_div hy'] at hdiv
  simp only [digits_mod hy, digits_mod hy'] at hmod
  exact ⟨hdiv, hmod⟩

theorem digits_lt (hx : x < a) (hy : y < n) : x * n + y < a * n := by
  have hle : (x + 1) * n ≤ a * n := Nat.mul_le_mul_right n hx
  rw [Nat.succ_mul] at hle
  omega

/-- Distinct numbers below a bound. -/
structure Codes (l : List Nat) (n : Nat) : Prop where
  nodup : l.Nodup
  lt : ∀ r ∈ l, r < n

namespace Codes

variable {xs ys : List Nat}

protected theorem range (n : Nat) : Codes (range n) n := ⟨nodup_range, fun _ => mem_range.1⟩

theorem mono (h : Codes xs a) (hle : a ≤ n) : Codes xs n :=
  ⟨h.nodup, fun r hr => Nat.lt_of_lt_of_le (h.lt r hr) hle⟩

/-- The outer list gives the high digit. -/
theorem high (hx : Codes xs a) (hy : Codes ys n) :
    Codes (xs.flatMap fun x => ys.map (x * n + ·)) (a * n) := by
  refine ⟨nodup_flatMap.2 ⟨fun x _ => hy.nodup.map fun _ _ h => Nat.add_left_cancel h,
    hx.nodup.imp fun {x x'} hne r hr hr' => hne ?_⟩, fun r hr => ?_⟩
  · obtain ⟨x, hxs, hr⟩ := mem_flatMap.1 hr
    obtain ⟨y, hys, rfl⟩ := mem_map.1 hr
    exact digits_lt (hx.lt x hxs) (hy.lt y hys)
  · obtain ⟨y, hys, rfl⟩ := mem_map.1 hr
    obtain ⟨z, hzs, heq⟩ := mem_map.1 hr'
    exact (digits_inj (hy.lt z hzs) (hy.lt y hys) heq).1.symm

/-- The outer list gives the low digit. -/
theorem low (hx : Codes xs a) (hy : Codes ys n) :
    Codes (ys.flatMap fun y => xs.map (· * n + y)) (a * n) := by
  refine ⟨nodup_flatMap.2 ⟨fun y hys => hx.nodup.map fun x x' h =>
      (digits_inj (hy.lt y hys) (hy.lt y hys) h).1,
    hy.nodup.imp_of_mem fun {y y'} hys hys' hne r hr hr' => hne ?_⟩, fun r hr => ?_⟩
  · obtain ⟨y, hys, hr⟩ := mem_flatMap.1 hr
    obtain ⟨x, hxs, rfl⟩ := mem_map.1 hr
    exact digits_lt (hx.lt x hxs) (hy.lt y hys)
  · obtain ⟨x, -, rfl⟩ := mem_map.1 hr
    obtain ⟨x', -, heq⟩ := mem_map.1 hr'
    exact (digits_inj (hy.lt y' hys') (hy.lt y hys) heq).2.symm

end Codes

end Lib
