/-
  Days.Lib.Tiling — blocks that tile an interval of naturals.

  `block s = some n` says that a block of `n` numbers starts at `s`.  Blocks that
  tile `[lo, hi)` can be extended at the end and cut anywhere from the front.
-/
import Mathlib.Order.Nat

namespace Tiling

variable {s hi : Nat} {block : Nat → Option Nat}

/-- The blocks cover `[lo, hi)` without gap or overlap. -/
structure Tiles (block : Nat → Option Nat) (lo hi : Nat) : Prop where
  le : lo ≤ hi
  inside : ∀ s n, block s = some n → lo ≤ s ∧ 0 < n ∧ s + n ≤ hi
  first : lo < hi → ∃ n, block lo = some n
  next : ∀ s n, block s = some n → s + n < hi → ∃ m, block (s + n) = some m
  apart : ∀ s n s' m, block s = some n → block s' = some m → s < s' → s + n ≤ s'

namespace Tiles

variable {block block' : Nat → Option Nat} {lo hi a n : Nat}

theorem empty (lo : Nat) : Tiles (fun _ => none) lo lo where
  le := Nat.le_refl _
  inside := by
    intro s n h
    cases h
  first := fun h => absurd h (Nat.lt_irrefl _)
  next := by
    intro s n h
    cases h
  apart := by
    intro s n s' m h
    cases h

theorem congr (h : Tiles block lo hi) (heq : ∀ s, block' s = block s) : Tiles block' lo hi := by
  have : block' = block := funext heq
  rw [this]
  exact h

/-- A new block in front. -/
theorem cons (h : Tiles block' (lo + n) hi) (hn : 0 < n) (hfirst : block lo = some n)
    (hrest : ∀ s, s ≠ lo → block s = block' s) : Tiles block lo hi where
  le := Nat.le_trans (Nat.le_add_right _ _) h.le
  inside := by
    intro s m hs
    by_cases heq : s = lo
    · subst heq
      rw [hfirst] at hs
      cases hs
      exact ⟨Nat.le_refl _, hn, h.le⟩
    · rw [hrest s heq] at hs
      have := h.inside s m hs
      omega
  first := fun _ => ⟨n, hfirst⟩
  next := by
    intro s m hs hlt
    by_cases heq : s = lo
    · subst heq
      rw [hfirst] at hs
      cases hs
      obtain ⟨m, hm⟩ := h.first hlt
      exact ⟨m, by rw [hrest _ (by omega)]; exact hm⟩
    · rw [hrest s heq] at hs
      have := h.inside s m hs
      obtain ⟨k, hk⟩ := h.next s m hs hlt
      exact ⟨k, by rw [hrest _ (by omega)]; exact hk⟩
  apart := by
    intro s m s' m' hs hs' hlt
    by_cases heq : s = lo
    · subst heq
      rw [hfirst] at hs
      cases hs
      rw [hrest s' (by omega)] at hs'
      exact (h.inside s' m' hs').1
    · rw [hrest s heq] at hs
      have := h.inside s m hs
      rw [hrest s' (by omega)] at hs'
      exact h.apart s m s' m' hs hs' hlt

/-- A new block at the end. -/
theorem snoc (h : Tiles block lo hi) (hn : 0 < n) :
    Tiles (Function.update block hi (some n)) lo (hi + n) where
  le := Nat.le_trans h.le (Nat.le_add_right _ _)
  inside := by
    intro s m hs
    by_cases heq : s = hi
    · subst heq
      rw [Function.update_self] at hs
      cases hs
      exact ⟨h.le, hn, Nat.le_refl _⟩
    · rw [Function.update_of_ne heq] at hs
      have := h.inside s m hs
      omega
  first := by
    intro _
    rcases Nat.lt_or_ge lo hi with hlt | hge
    · obtain ⟨m, hm⟩ := h.first hlt
      exact ⟨m, by rw [Function.update_of_ne (Nat.ne_of_lt hlt)]; exact hm⟩
    · have heq : lo = hi := Nat.le_antisymm h.le hge
      exact ⟨n, by rw [heq, Function.update_self]⟩
  next := by
    intro s m hs hlt
    by_cases heq : s = hi
    · subst heq
      rw [Function.update_self] at hs
      cases hs
      omega
    · rw [Function.update_of_ne heq] at hs
      have hin := h.inside s m hs
      by_cases hend : s + m = hi
      · exact ⟨n, by rw [hend, Function.update_self]⟩
      · obtain ⟨k, hk⟩ := h.next s m hs (by omega)
        exact ⟨k, by rw [Function.update_of_ne hend]; exact hk⟩
  apart := by
    intro s m s' m' hs hs' hlt
    by_cases heq : s = hi
    · -- Nothing starts behind the new block.
      have hne : s' ≠ hi := by omega
      rw [Function.update_of_ne hne] at hs'
      have := h.inside s' m' hs'
      omega
    · rw [Function.update_of_ne heq] at hs
      by_cases heq' : s' = hi
      · subst heq'
        exact (h.inside s m hs).2.2
      · rw [Function.update_of_ne heq'] at hs'
        exact h.apart s m s' m' hs hs' hlt

/-- Every number of the interval lies in a block. -/
theorem covers (h : Tiles block lo hi) (hlo : lo ≤ a) (hhi : a < hi) :
    ∃ s m, block s = some m ∧ s ≤ a ∧ a < s + m := by
  induction a, hlo using Nat.le_induction with
  | base =>
    obtain ⟨m, hm⟩ := h.first hhi
    have := h.inside lo m hm
    exact ⟨lo, m, hm, Nat.le_refl _, by omega⟩
  | succ a _ ih =>
    obtain ⟨s, m, hs, hle, hlt⟩ := ih (by omega)
    by_cases hin : a + 1 < s + m
    · exact ⟨s, m, hs, by omega, hin⟩
    · -- The block ends here, so the next one starts here.
      obtain ⟨k, hk⟩ := h.next s m hs (by omega)
      have := h.inside (s + m) k hk
      exact ⟨s + m, k, hk, by omega, by omega⟩

/-- The block that holds a number is unique. -/
theorem unique (h : Tiles block lo hi) {m s' m' : Nat} (hs : block s = some m)
    (hs' : block s' = some m') (hle : s ≤ a) (hlt : a < s + m) (hle' : s' ≤ a)
    (hlt' : a < s' + m') : s = s' := by
  rcases Nat.lt_trichotomy s s' with hss | hss | hss
  · have := h.apart s m s' m' hs hs' hss
    omega
  · exact hss
  · have := h.apart s' m' s m hs' hs hss
    omega

/-- Cut the blocks at `a`: what is left of the block at `a` starts there. -/
theorem cut (h : Tiles block lo hi) (hlo : lo ≤ a) (hhi : a ≤ hi)
    (hbelow : ∀ s, s < a → block' s = none)
    (hat : ∀ n, block' a = some n ↔ 0 < n ∧ ∃ s m, block s = some m ∧ s ≤ a ∧ s + m = a + n)
    (habove : ∀ s, a < s → block' s = block s) : Tiles block' a hi where
  le := hhi
  inside := by
    intro s n hs
    rcases Nat.lt_trichotomy s a with hsa | rfl | hsa
    · rw [hbelow s hsa] at hs
      cases hs
    · obtain ⟨hn, s', m, hs', -, hend⟩ := (hat n).1 hs
      have := h.inside s' m hs'
      omega
    · rw [habove s hsa] at hs
      have := h.inside s n hs
      omega
  first := by
    intro hlt
    obtain ⟨s, m, hs, hle, hm⟩ := h.covers hlo hlt
    exact ⟨s + m - a, (hat _).2 ⟨by omega, s, m, hs, hle, by omega⟩⟩
  next := by
    intro s n hs hlt
    rcases Nat.lt_trichotomy s a with hsa | rfl | hsa
    · rw [hbelow s hsa] at hs
      cases hs
    · obtain ⟨hn, s', m, hs', -, hend⟩ := (hat n).1 hs
      obtain ⟨k, hk⟩ := h.next s' m hs' (by omega)
      exact ⟨k, by rw [habove _ (by omega), ← hend]; exact hk⟩
    · rw [habove s hsa] at hs
      obtain ⟨k, hk⟩ := h.next s n hs hlt
      exact ⟨k, by rw [habove _ (by omega)]; exact hk⟩
  apart := by
    intro s n s' m hs hs' hlt
    rcases Nat.lt_trichotomy s a with hsa | rfl | hsa
    · rw [hbelow s hsa] at hs
      cases hs
    · obtain ⟨hn, s₀, m₀, hs₀, hle, hend⟩ := (hat n).1 hs
      rw [habove s' hlt] at hs'
      have := h.apart s₀ m₀ s' m hs₀ hs' (by omega)
      omega
    · rw [habove s hsa] at hs
      rw [habove s' (by omega)] at hs'
      exact h.apart s n s' m hs hs' hlt

end Tiles

/-! What lies below a bound. -/

/-- The blocks that start below `hi`. -/
def below (hi : Nat) (block : Nat → Option Nat) (s : Nat) : Option Nat :=
  if s < hi then block s else none

theorem below_of_lt (h : s < hi) : below hi block s = block s := if_pos h

theorem below_of_le (h : hi ≤ s) : below hi block s = none := if_neg (Nat.not_lt.2 h)

/-- No block starts at `hi` or later. -/
def Clear (block : Nat → Option Nat) (hi : Nat) : Prop := ∀ s, hi ≤ s → block s = none

theorem Clear.below_eq (h : Clear block hi) : below hi block = block := by
  funext s
  rcases Nat.lt_or_ge s hi with hlt | hge
  · exact below_of_lt hlt
  · rw [below_of_le hge, h s hge]

theorem Tiles.clear {lo : Nat} (h : Tiles block lo hi) : Clear block hi := by
  intro s hs
  cases heq : block s with
  | none => rfl
  | some n =>
    have := h.inside s n heq
    omega

end Tiling
