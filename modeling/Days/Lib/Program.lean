/-
  Days.Lib.Program — programs over a signature of operations, and a logic for
  them.

  A program performs operations and continues with their answers.  What an
  operation does is given by a meaning `exec` on some state; what a proof may
  rely on is given by an `OpSpec` on an abstract view: when the operation may be
  used, what it may answer, and how the view changes.  `wp` runs a program on
  views; `run_of_wp` transfers what it shows to every meaning that respects the
  specification, and `visits_of_wp` does so for the states passed on the way.
-/
import Mathlib.Logic.Basic

namespace Lib

/-! ## §1. Programs. -/

/-- Return, fail, or perform an operation and go on with its answer. -/
inductive Program (Op : Type) (Resp : Op → Type) (ε : Type) (α : Type) where
  | pure (a : α)
  | fail (e : ε)
  | step (o : Op) (k : Resp o → Program Op Resp ε α)

namespace Program

variable {Op : Type} {Resp : Op → Type} {ε : Type} {α β : Type}

protected def bind : Program Op Resp ε α → (α → Program Op Resp ε β) → Program Op Resp ε β
  | pure a, f => f a
  | fail e, _ => fail e
  | step o k, f => step o fun r => (k r).bind f

instance : Monad (Program Op Resp ε) where
  pure := Program.pure
  bind := Program.bind

/-- One operation. -/
def op (o : Op) : Program Op Resp ε (Resp o) := step o pure

/-! ## §2. Meaning. -/

variable {σ : Type}

/-- Run a program with a meaning for its operations. -/
def run (exec : (o : Op) → σ → Except ε (Resp o × σ)) :
    Program Op Resp ε α → σ → Except ε (α × σ)
  | pure a, s => .ok (a, s)
  | fail e, _ => .error e
  | step o k, s =>
    match exec o s with
    | .ok (r, s) => (k r).run exec s
    | .error e => .error e

variable {exec : (o : Op) → σ → Except ε (Resp o × σ)} {x : Program Op Resp ε α} {o : Op} {s : σ}

theorem run_step {k : Resp o → Program Op Resp ε α} :
    (step o k).run exec s = exec o s >>= fun p => (k p.1).run exec p.2 := by
  simp only [run]
  cases exec o s <;> rfl

theorem run_op : (op o : Program Op Resp ε (Resp o)).run exec s = exec o s := by
  unfold op
  rw [run_step]
  cases exec o s <;> rfl

theorem run_bind {f : α → Program Op Resp ε β} :
    (x >>= f).run exec s = x.run exec s >>= fun p => (f p.1).run exec p.2 := by
  show (x.bind f).run exec s = _
  induction x generalizing s with
  | pure a => rfl
  | fail e => rfl
  | step o k ih =>
    rw [Program.bind, run_step, run_step]
    cases exec o s with
    | error e => rfl
    | ok p => exact ih p.1

/-! ## §3. Weakest preconditions. -/

end Program

/-- What may be assumed of operations, in terms of a view of the state. -/
structure OpSpec (Op : Type) (Resp : Op → Type) (V : Type) where
  pre : Op → V → Prop
  resp : (o : Op) → V → Resp o → Prop
  next : (o : Op) → Resp o → V → V

namespace Program

variable {Op : Type} {Resp : Op → Type} {ε : Type} {α β : Type} {σ V : Type}
variable (S : OpSpec Op Resp V) (allowed : ε → Prop)

/-- Every operation is used within its specification, every failure is an
allowed one, and every return satisfies `Q`. -/
def wp : Program Op Resp ε α → (α → V → Prop) → V → Prop
  | pure a, Q, v => Q a v
  | fail e, _, _ => allowed e
  | step o k, Q, v => S.pre o v ∧ ∀ r, S.resp o v r → (k r).wp Q (S.next o r v)

variable {S allowed} {x : Program Op Resp ε α} {v : V}

theorem wp_bind {f : α → Program Op Resp ε β} {Q : β → V → Prop}
    (h : x.wp S allowed (fun a v => (f a).wp S allowed Q v) v) : (x >>= f).wp S allowed Q v := by
  induction x generalizing v with
  | pure a => exact h
  | fail e => exact h
  | step o k ih =>
    obtain ⟨hpre, hk⟩ := h
    exact ⟨hpre, fun r hr => ih r (hk r hr)⟩

theorem wp_mono {Q Q' : α → V → Prop}
    (h : x.wp S allowed Q v) (hQ : ∀ a v, Q a v → Q' a v) : x.wp S allowed Q' v := by
  induction x generalizing v with
  | pure a => exact hQ a v h
  | fail e => exact h
  | step o k ih => exact ⟨h.1, fun r hr => ih r (h.2 r hr)⟩

/-! ## §4. Soundness. -/

/-- A meaning respects the specification along `J`: operations within it answer
as promised, keep `J`, and fail only in allowed ways. -/
def Respects (S : OpSpec Op Resp V) (allowed : ε → Prop)
    (exec : (o : Op) → σ → Except ε (Resp o × σ)) (J : σ → V → Prop) : Prop :=
  ∀ o s v, J s v → S.pre o v →
    match exec o s with
    | .ok (r, s') => S.resp o v r ∧ J s' (S.next o r v)
    | .error e => allowed e

variable {exec : (o : Op) → σ → Except ε (Resp o × σ)} {J : σ → V → Prop} {Q : α → V → Prop}
  {s t : σ}

theorem run_of_wp (hJ : Respects S allowed exec J) (h : x.wp S allowed Q v) (hs : J s v) :
    match x.run exec s with
    | .ok (a, s') => ∃ v', Q a v' ∧ J s' v'
    | .error e => allowed e := by
  induction x generalizing s v with
  | pure a => exact ⟨v, h, hs⟩
  | fail e => exact h
  | step o k ih =>
    obtain ⟨hpre, hk⟩ := h
    have hop := hJ o s v hs hpre
    simp only [run]
    cases hexec : exec o s with
    | error e =>
      rw [hexec] at hop
      exact hop
    | ok p =>
      obtain ⟨r, s'⟩ := p
      rw [hexec] at hop
      exact ih r (hk r hop.1) hop.2

/-- The states a run goes through, also one that fails later. -/
inductive Visits (exec : (o : Op) → σ → Except ε (Resp o × σ)) :
    Program Op Resp ε α → σ → σ → Prop
  | here (x : Program Op Resp ε α) (s : σ) : Visits exec x s s
  | later {o : Op} {k : Resp o → Program Op Resp ε α} {s s' t : σ} {r : Resp o}
      (hop : exec o s = .ok (r, s')) (hrest : Visits exec (k r) s' t) : Visits exec (step o k) s t

theorem visits_of_wp (hJ : Respects S allowed exec J)
    (h : x.wp S allowed Q v) (hs : J s v) (ht : x.Visits exec s t) : ∃ v', J t v' := by
  induction ht generalizing v with
  | here x s => exact ⟨v, hs⟩
  | @later o k s s' t r hop hrest ih =>
    obtain ⟨hpre, hk⟩ := h
    have hstep := hJ o s v hs hpre
    rw [hop] at hstep
    exact ih (hk r hstep.1) hstep.2

theorem visits_of_run {a : α} (h : x.run exec s = .ok (a, t)) : x.Visits exec s t := by
  induction x generalizing s with
  | pure b =>
    cases h
    exact .here _ _
  | fail e => cases h
  | step o k ih =>
    simp only [run] at h
    cases hexec : exec o s with
    | error e =>
      rw [hexec] at h
      cases h
    | ok p =>
      rw [hexec] at h
      exact .later hexec (ih p.1 h)

end Program

end Lib
