/-
  Days.Lib.Probing — linear probing in a cyclic table, and deletion by shifting
  back.

  A table has `n` cells in a ring.  An entry has a home cell and is found by
  walking from there to the first empty cell, so every cell between an entry's
  home and the entry must be occupied (`Reachable`).  Deleting an entry leaves a
  hole that later entries may have been pushed over; `Gap` is what holds while
  the hole travels, and it ends in a reachable table.
-/
import Mathlib.Data.Nat.ModEq

namespace Lib

universe u

/-! ## §1. Walking around the ring. -/

/-- The first cell from `index` on that stops the walk, within the given number of cells. -/
def probe (next : ℕ → ℕ) (stop : ℕ → Bool) : ℕ → ℕ → Option ℕ
  | 0, _ => none
  | fuel + 1, index => if stop index then some index else probe next stop fuel (next index)

variable {n : ℕ}

/-- Two steps from one cell to one cell, both shorter than the ring, are the same. -/
theorem eq_of_add_mod_eq {a j k : ℕ} (hj : j < n) (hk : k < n) (h : (a + j) % n = (a + k) % n) :
    j = k := by
  have hmod : j ≡ k [MOD n] := Nat.ModEq.add_left_cancel' a h
  rwa [Nat.ModEq, Nat.mod_eq_of_lt hj, Nat.mod_eq_of_lt hk] at hmod

/-- Every cell is some steps ahead. -/
theorem exists_add_mod_eq {a b : ℕ} (ha : a < n) (hb : b < n) : ∃ d < n, (a + d) % n = b := by
  by_cases hle : a ≤ b
  · exact ⟨b - a, by omega, by rw [Nat.add_sub_cancel' hle, Nat.mod_eq_of_lt hb]⟩
  · refine ⟨b + n - a, by omega, ?_⟩
    rw [show a + (b + n - a) = b + n by omega, Nat.add_mod_right, Nat.mod_eq_of_lt hb]

/-- The walk ends at the first cell that stops it. -/
theorem probe_eq_some {next : ℕ → ℕ} (hnext : ∀ i < n, next i = (i + 1) % n) {stop : ℕ → Bool}
    {fuel index : ℕ} (hindex : index < n) (h : ∃ d < fuel, stop ((index + d) % n) = true) :
    ∃ d < fuel, probe next stop fuel index = some ((index + d) % n) ∧
      stop ((index + d) % n) = true ∧ ∀ j < d, stop ((index + j) % n) = false := by
  induction fuel generalizing index with
  | zero =>
    obtain ⟨d, hd, -⟩ := h
    exact absurd hd (by omega)
  | succ fuel ih =>
    by_cases hstop : stop index = true
    · refine ⟨0, by omega, ?_, ?_, by omega⟩
      · rw [probe, if_pos hstop, Nat.add_zero, Nat.mod_eq_of_lt hindex]
      · rwa [Nat.add_zero, Nat.mod_eq_of_lt hindex]
    · have hshift (d : ℕ) : ((index + 1) % n + d) % n = (index + (d + 1)) % n := by
        rw [Nat.mod_add_mod]
        congr 1
        omega
      have hlater : ∃ d < fuel, stop (((index + 1) % n + d) % n) = true := by
        obtain ⟨d, hd, hat⟩ := h
        cases d with
        | zero => exact absurd (by rwa [Nat.add_zero, Nat.mod_eq_of_lt hindex] at hat) hstop
        | succ d => exact ⟨d, by omega, by rwa [hshift]⟩
      obtain ⟨d, hd, hprobe, hat, hbefore⟩ := ih (Nat.mod_lt _ (by omega)) hlater
      rw [hshift] at hprobe hat
      refine ⟨d + 1, by omega, ?_, hat, fun j hj => ?_⟩
      · rw [probe, if_neg hstop, hnext index hindex, hprobe]
      · cases j with
        | zero =>
          rw [Nat.add_zero, Nat.mod_eq_of_lt hindex]
          exact Bool.eq_false_iff.2 hstop
        | succ j =>
          rw [← hshift]
          exact hbefore j (by omega)

/-! ## §2. Reachable entries. -/

variable {ε : Type u}

/-- Every entry is reached from its home over occupied cells. -/
def Reachable (n : ℕ) (home : ε → ℕ) (cells : ℕ → Option ε) : Prop :=
  ∀ i < n, ∀ e, cells i = some e →
    ∃ k < n, (home e + k) % n = i ∧ ∀ j < k, cells ((home e + j) % n) ≠ none

variable {home : ε → ℕ} {cells : ℕ → Option ε}

theorem reachable_empty : Reachable n home fun _ => (none : Option ε) := by
  intro i _ e he
  cases he

/-- An entry is placed in the first empty cell from its home on. -/
theorem Reachable.place (h : Reachable n home cells) {e : ε} {d : ℕ} (hd : d < n)
    (hbefore : ∀ j < d, cells ((home e + j) % n) ≠ none) :
    Reachable n home (Function.update cells ((home e + d) % n) (some e)) := by
  intro i hi e' he'
  have hkeeps {x : ℕ} (hx : cells x ≠ none) :
      Function.update cells ((home e + d) % n) (some e) x ≠ none := by
    by_cases heq : x = (home e + d) % n
    · simp [heq]
    · rwa [Function.update_of_ne heq]
  by_cases heq : i = (home e + d) % n
  · subst heq
    rw [Function.update_self] at he'
    cases he'
    exact ⟨d, hd, rfl, fun j hj => hkeeps (hbefore j hj)⟩
  · rw [Function.update_of_ne heq] at he'
    obtain ⟨k, hk, hat, hpath⟩ := h i hi e' he'
    exact ⟨k, hk, hat, fun j hj => hkeeps (hpath j hj)⟩

/-! ## §3. Shifting back. -/

/-- A hole at `hole` has been carried along, and the cell `d` steps ahead of it is looked at next:
    paths that lead over the hole end no earlier than there. -/
structure Gap (n : ℕ) (home : ε → ℕ) (cells : ℕ → Option ε) (hole d : ℕ) : Prop where
  lt : hole < n
  pos : 0 < d
  reach : ∀ i < n, i ≠ hole → ∀ e, cells i = some e →
    ∃ k < n, (home e + k) % n = i ∧
      ∀ j < k, ((home e + j) % n ≠ hole ∧ cells ((home e + j) % n) ≠ none) ∨
        ((home e + j) % n = hole ∧ d ≤ k - j)

namespace Gap

variable {hole d : ℕ}

/-- An entry is taken out. -/
theorem start (h : Reachable n home cells) (hlt : hole < n) : Gap n home cells hole 1 := by
  refine ⟨hlt, Nat.one_pos, fun i hi _ e he => ?_⟩
  obtain ⟨k, hk, hat, hpath⟩ := h i hi e he
  refine ⟨k, hk, hat, fun j hj => ?_⟩
  by_cases heq : (home e + j) % n = hole
  · exact .inr ⟨heq, by omega⟩
  · exact .inl ⟨heq, hpath j hj⟩

theorem ahead_ne (h : Gap n home cells hole d) (hd : d < n) : (hole + d) % n ≠ hole := by
  intro heq
  have hpos := h.pos
  have hzero : d = 0 := by
    refine eq_of_add_mod_eq (n := n) hd (by omega) ?_ (a := hole)
    rw [Nat.add_zero, heq, Nat.mod_eq_of_lt h.lt]
  omega

/-- A path over the hole that ends some cells behind it. -/
theorem add_mod_of_over {a j k : ℕ} (hjk : j ≤ k) (hover : (a + j) % n = hole) :
    (hole + (k - j)) % n = (a + k) % n := by
  rw [← hover, Nat.mod_add_mod]
  congr 1
  omega

/-- The entry ahead has its home behind the hole: it stays. -/
theorem stay (h : Gap n home cells hole d) (hd : d < n) {e : ε} {t : ℕ} (ht : 0 < t) (htd : t ≤ d)
    (he : cells ((hole + d) % n) = some e) (hhome : home e = (hole + t) % n) :
    Gap n home cells hole (d + 1) := by
  refine ⟨h.lt, by omega, fun i hi hne e' he' => ?_⟩
  obtain ⟨k, hk, hat, hpath⟩ := h.reach i hi hne e' he'
  refine ⟨k, hk, hat, fun j hj => ?_⟩
  rcases hpath j hj with hoccupied | ⟨hover, hfar⟩
  · exact .inl hoccupied
  · refine .inr ⟨hover, ?_⟩
    by_contra hnear
    -- The path would end at the entry ahead, whose own path starts behind the hole.
    have hend : k - j = d := by omega
    have hi' : i = (hole + d) % n := by
      rw [← hat, ← add_mod_of_over hj.le hover, hend]
    rw [hi', he] at he'
    cases he'
    have hstep (x : ℕ) : (home e + x) % n = (hole + (t + x)) % n := by
      rw [hhome, Nat.mod_add_mod]
      congr 1
      omega
    have hshort : k = d - t := by
      refine eq_of_add_mod_eq hk (by omega) (a := home e) ?_
      rw [hat, hi', hstep]
      congr 2
      omega
    omega

/-- The entry ahead has its home at the hole or before: it moves into the hole. -/
theorem move (h : Gap n home cells hole d) (hd : d < n) {e : ε}
    (he : cells ((hole + d) % n) = some e)
    (hhome : ∀ t, 0 < t → t ≤ d → (hole + t) % n ≠ home e) (hhomelt : home e < n) :
    Gap n home (Function.update cells hole (some e)) ((hole + d) % n) 1 := by
  have hn : 0 < n := by have := h.lt; omega
  have hahead := h.ahead_ne hd
  refine ⟨Nat.mod_lt _ hn, Nat.one_pos, fun i hi hne e' he' => ?_⟩
  by_cases hi' : i = hole
  · subst hi'
    rw [Function.update_self] at he'
    cases he'
    obtain ⟨k, hk, hat, hpath⟩ := h.reach _ (Nat.mod_lt _ hn) hahead e he
    -- The path to the cell ahead leads over the hole.
    have hfar : d ≤ k := by
      by_contra hlt
      have hstart : (i + (d - k)) % n = home e := by
        have hsum : (i + (d - k) + k) % n = (home e + k) % n := by
          rw [hat]
          congr 1
          omega
        have hmod : i + (d - k) ≡ home e [MOD n] := Nat.ModEq.add_right_cancel' k hsum
        rwa [Nat.ModEq, Nat.mod_eq_of_lt hhomelt] at hmod
      exact hhome (d - k) (by omega) (by omega) hstart
    have hover : (home e + (k - d)) % n = i := by
      have hsum : (home e + (k - d) + d) % n = (i + d) % n := by
        rw [← hat]
        congr 1
        omega
      have hmod : home e + (k - d) ≡ i [MOD n] := Nat.ModEq.add_right_cancel' d hsum
      rwa [Nat.ModEq, Nat.mod_eq_of_lt h.lt] at hmod
    refine ⟨k - d, by omega, hover, fun j hj => .inl ⟨fun heq => ?_, ?_⟩⟩
    · have := eq_of_add_mod_eq (n := n) (a := home e) (j := j) (k := k) (by omega) hk
        (by rw [heq, hat])
      omega
    · have hj' : (home e + j) % n ≠ i := by
        intro heq
        have := eq_of_add_mod_eq (n := n) (a := home e) (j := j) (k := k - d) (by omega) (by omega)
          (by rw [heq, hover])
        omega
      rw [Function.update_of_ne hj']
      rcases hpath j (by omega) with hoccupied | ⟨heq, -⟩
      · exact hoccupied.2
      · exact absurd heq hj'
  · rw [Function.update_of_ne hi'] at he'
    obtain ⟨k, hk, hat, hpath⟩ := h.reach i hi hi' e' he'
    refine ⟨k, hk, hat, fun j hj => ?_⟩
    by_cases hnext : (home e' + j) % n = (hole + d) % n
    · exact .inr ⟨hnext, by omega⟩
    · refine .inl ⟨hnext, ?_⟩
      rcases hpath j hj with hoccupied | ⟨heq, -⟩
      · rw [Function.update_of_ne hoccupied.1]
        exact hoccupied.2
      · simp [heq]

/-- The cell ahead is empty: nothing lies behind the hole that needs it. -/
theorem finish (h : Gap n home cells hole d) (hd : d < n) (hempty : cells ((hole + d) % n) = none) :
    Reachable n home (Function.update cells hole none) := by
  have hahead := h.ahead_ne hd
  intro i hi e he
  have hne : i ≠ hole := by
    rintro rfl
    simp at he
  rw [Function.update_of_ne hne] at he
  obtain ⟨k, hk, hat, hpath⟩ := h.reach i hi hne e he
  refine ⟨k, hk, hat, fun j hj => ?_⟩
  rcases hpath j hj with hoccupied | ⟨hover, hfar⟩
  · rw [Function.update_of_ne hoccupied.1]
    exact hoccupied.2
  · exfalso
    -- A path over the hole also leads over the empty cell, or ends there.
    have hat' : (home e + (j + d)) % n = (hole + d) % n := by
      rw [← hover, Nat.mod_add_mod]
      congr 1
      omega
    by_cases hlast : j + d = k
    · rw [← hat, ← hlast, hat', hempty] at he
      cases he
    · rcases hpath (j + d) (by omega) with hoccupied | ⟨heq, -⟩
      · exact hoccupied.2 (by rw [hat', hempty])
      · exact hahead (hat'.symm.trans heq)

end Gap

end Lib
