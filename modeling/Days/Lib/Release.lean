/-
  Days.Lib.Release — work items that wait for others.

  If every item ranks above the items it waits for, the waiting relation has no
  cycle, and whatever has been completed, some other item can be: nothing is ever
  stuck.
-/
import Mathlib.Order.WellFounded

namespace Lib

universe u v

variable {κ : Type u} {ρ : Type v} [Preorder ρ] [WellFoundedLT ρ] {waits : κ → κ → Prop}
  {rank : κ → ρ}

omit [WellFoundedLT ρ] in
/-- Ranks rise along every chain. -/
theorem rank_lt_of_transGen (h : ∀ a b, waits a b → rank a < rank b) {a b : κ}
    (hab : Relation.TransGen waits a b) : rank a < rank b := by
  induction hab with
  | single hstep => exact h _ _ hstep
  | tail _ hstep ih => exact ih.trans (h _ _ hstep)

omit [WellFoundedLT ρ] in
theorem acyclic_of_rank (h : ∀ a b, waits a b → rank a < rank b) (a : κ) :
    ¬ Relation.TransGen waits a a :=
  fun haa => lt_irrefl _ (rank_lt_of_transGen h haa)

/-- Of the items that are not done, one waits only for items that are. -/
theorem exists_released (h : ∀ a b, waits a b → rank a < rank b) (done items : Set κ)
    (hitems : ∀ a b, b ∈ items → waits a b → a ∈ items) (hleft : ∃ a ∈ items, a ∉ done) :
    ∃ b ∈ items, b ∉ done ∧ ∀ a, waits a b → a ∈ done := by
  obtain ⟨b, ⟨hb, hnot⟩, hmin⟩ := (InvImage.wf rank (@wellFounded_lt ρ _ _)).has_min
    { a | a ∈ items ∧ a ∉ done } hleft
  refine ⟨b, hb, hnot, fun a ha => ?_⟩
  by_contra hadone
  exact hmin a ⟨hitems a b hb ha, hadone⟩ (h a b ha)

end Lib
