/-
  Days.Lib.Refinement — sequences of operations on two levels of one design.

  A component is a state with a step for each operation; a step answers and
  moves on.  If related states answer alike and stay related, whole sequences of
  operations answer alike.
-/
import Mathlib.Tactic.Common

namespace Lib

universe u v w x

variable {Op : Type u} {Ans : Type v} {σ : Type w} {τ : Type x}

/-- The answers to a sequence of operations, and the state it leads to. -/
def perform (step : σ → Op → Ans × σ) : List Op → σ → List Ans × σ
  | [], s => ([], s)
  | o :: rest, s =>
    let after := perform step rest (step s o).2
    ((step s o).1 :: after.1, after.2)

/-- Every operation is allowed in the state it meets. -/
def Allowed (step : τ → Op → Ans × τ) (allowed : τ → Op → Prop) : List Op → τ → Prop
  | [], _ => True
  | o :: rest, t => allowed t o ∧ Allowed step allowed rest (step t o).2

theorem allowed_of_forall {step : τ → Op → Ans × τ} {allowed : τ → Op → Prop}
    (h : ∀ t o, allowed t o) (ops : List Op) (t : τ) : Allowed step allowed ops t := by
  induction ops generalizing t with
  | nil => trivial
  | cons o rest ih => exact ⟨h t o, ih _⟩

section Perform

variable {step : σ → Op → Ans × σ}

@[simp] theorem perform_nil (s : σ) : perform step [] s = ([], s) := rfl

@[simp] theorem perform_cons (o : Op) (rest : List Op) (s : σ) :
    perform step (o :: rest) s =
      ((step s o).1 :: (perform step rest (step s o).2).1, (perform step rest (step s o).2).2) := rfl

theorem perform_append (ops later : List Op) (s : σ) :
    perform step (ops ++ later) s =
      ((perform step ops s).1 ++ (perform step later (perform step ops s).2).1,
        (perform step later (perform step ops s).2).2) := by
  induction ops generalizing s with
  | nil => rfl
  | cons o rest ih => rw [List.cons_append, perform_cons, ih, perform_cons, List.cons_append]

/-- What every step keeps, a sequence keeps. -/
theorem perform_invariant {I : σ → Prop} (hstep : ∀ s o, I s → I (step s o).2) (ops : List Op)
    {s : σ} (hs : I s) : I (perform step ops s).2 := by
  induction ops generalizing s with
  | nil => exact hs
  | cons o rest ih => exact ih (hstep s o hs)

end Perform

/-- Related states give the same answers to allowed operations, step after step. -/
theorem perform_refines {step : σ → Op → Ans × σ} {spec : τ → Op → Ans × τ} {R : σ → τ → Prop}
    {allowed : τ → Op → Prop} (hstep : ∀ s t o, R s t → allowed t o →
      (step s o).1 = (spec t o).1 ∧ R (step s o).2 (spec t o).2)
    (ops : List Op) {s : σ} {t : τ} (hR : R s t) (hallowed : Allowed spec allowed ops t) :
    (perform step ops s).1 = (perform spec ops t).1 ∧
      R (perform step ops s).2 (perform spec ops t).2 := by
  induction ops generalizing s t with
  | nil => exact ⟨rfl, hR⟩
  | cons o rest ih =>
    obtain ⟨hanswer, hnext⟩ := hstep s t o hR hallowed.1
    obtain ⟨hanswers, hlast⟩ := ih hnext hallowed.2
    exact ⟨by rw [perform_cons, perform_cons, hanswer, hanswers], hlast⟩

end Lib
