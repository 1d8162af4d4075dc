/-
  Days.Lib.GoBackN — the sliding window of a Go-back-N sender and its receiver.

  A stream of `total` bytes is cut at multiples of `mtu`.  The sender knows the
  oldest unacknowledged byte, the next byte to send and the high-water mark of
  what it has ever sent; the receiver knows the next byte it expects.
-/
import Mathlib.Data.Nat.Init

namespace GoBackN

/-! ## §1. Boundaries. -/

structure Stream where
  mtu : Nat
  total : Nat
  mtu_pos : 0 < mtu

namespace Stream

variable (st : Stream)

/-- A position at which a packet of the stream starts, or its end. -/
def Boundary (psn : Nat) : Prop := psn = st.total ∨ psn % st.mtu = 0 ∧ psn < st.total

/-- The size of the packet at a position. -/
def size (psn : Nat) : Nat := min st.mtu (st.total - psn)

variable {st} {a b : Nat}

theorem boundary_zero : st.Boundary 0 := by
  rcases Nat.eq_zero_or_pos st.total with h | h
  · exact Or.inl h.symm
  · exact Or.inr ⟨Nat.zero_mod _, h⟩

theorem Boundary.le (h : st.Boundary a) : a ≤ st.total := by
  rcases h with rfl | h
  · exact Nat.le_refl _
  · exact Nat.le_of_lt h.2

theorem size_pos (h : a < st.total) : 0 < st.size a := by
  have := st.mtu_pos
  unfold size
  omega

/-- A packet ends on a boundary. -/
theorem Boundary.next (h : st.Boundary a) (hlt : a < st.total) : st.Boundary (a + st.size a) := by
  rcases h with rfl | ⟨hmod, -⟩
  · exact absurd hlt (Nat.lt_irrefl _)
  · unfold Boundary size
    by_cases hfit : a + st.mtu < st.total
    · right
      rw [Nat.min_eq_left (by omega)]
      exact ⟨by rw [Nat.add_mod_right]; exact hmod, hfit⟩
    · left
      omega

/-- There is no boundary inside a packet. -/
theorem Boundary.next_le (ha : st.Boundary a) (hb : st.Boundary b) (hlt : a < b) :
    a + st.size a ≤ b := by
  have hble := hb.le
  rcases ha with rfl | ⟨hamod, halt⟩
  · omega
  · rcases hb with rfl | ⟨hbmod, -⟩
    · unfold size
      omega
    · -- Both are multiples of the packet size, so they differ by at least one packet.
      obtain ⟨i, rfl⟩ := Nat.dvd_of_mod_eq_zero hamod
      obtain ⟨j, rfl⟩ := Nat.dvd_of_mod_eq_zero hbmod
      have hij : i + 1 ≤ j := Nat.lt_of_mul_lt_mul_left hlt
      have hstep : st.mtu * (i + 1) ≤ st.mtu * j := Nat.mul_le_mul_left _ hij
      rw [Nat.mul_succ] at hstep
      unfold size
      omega

theorem Boundary.max (ha : st.Boundary a) (hb : st.Boundary b) : st.Boundary (max a b) := by
  rcases Nat.le_total a b with h | h
  · rwa [Nat.max_eq_right h]
  · rwa [Nat.max_eq_left h]

end Stream

/-! ## §2. The window. -/

/-- What the sender remembers. -/
@[ext] structure Window where
  una : Nat
  next : Nat
  high : Nat

namespace Window

/-- Send the packet at `next`; a packet sent again does not move the high-water mark. -/
def send (st : Stream) (w : Window) : Window where
  una := w.una
  next := w.next + st.size w.next
  high := if w.next < w.high then w.high else w.next + st.size w.next

/-- A cumulative acknowledgment. -/
def acknowledge (w : Window) (psn : Nat) : Window where
  una := max w.una psn
  next := max w.next (max w.una psn)
  high := w.high

/-- Go back to an acknowledged position. -/
def goBack (w : Window) (psn : Nat) : Window where
  una := max w.una psn
  next := max w.una psn
  high := w.high

end Window

/-- The window and the receiver agree on what has been sent and received. -/
structure Ordered (st : Stream) (w : Window) (expected : Nat) : Prop where
  una_le : w.una ≤ expected
  expected_le : expected ≤ w.high
  una_next : w.una ≤ w.next
  next_le : w.next ≤ w.high
  una_boundary : st.Boundary w.una
  expected_boundary : st.Boundary expected
  next_boundary : st.Boundary w.next
  high_boundary : st.Boundary w.high

namespace Ordered

variable {st : Stream} {w : Window} {expected psn : Nat}

theorem fresh : Ordered st ⟨0, 0, 0⟩ 0 where
  una_le := Nat.le_refl _
  expected_le := Nat.le_refl _
  una_next := Nat.le_refl _
  next_le := Nat.le_refl _
  una_boundary := Stream.boundary_zero
  expected_boundary := Stream.boundary_zero
  next_boundary := Stream.boundary_zero
  high_boundary := Stream.boundary_zero

section

variable (h : Ordered st w expected)

include h

/-- The packet at `next` lies below the high-water mark once it is sent. -/
theorem send_le : w.next + st.size w.next ≤ (w.send st).high := by
  unfold Window.send
  split
  · next hlt => exact h.next_boundary.next_le h.high_boundary hlt
  · exact Nat.le_refl _

theorem high_le_send : w.high ≤ (w.send st).high := by
  have := h.next_le
  unfold Window.send
  dsimp only
  split <;> omega

theorem send (hlt : w.next < st.total) :
    Ordered st (w.send st) expected where
  una_le := h.una_le
  expected_le := Nat.le_trans h.expected_le h.high_le_send
  una_next := Nat.le_trans h.una_next (Nat.le_add_right _ _)
  next_le := h.send_le
  una_boundary := h.una_boundary
  expected_boundary := h.expected_boundary
  next_boundary := h.next_boundary.next hlt
  high_boundary := by
    unfold Window.send
    split
    · exact h.high_boundary
    · exact h.next_boundary.next hlt

theorem acknowledge (hle : psn ≤ expected) (hpsn : st.Boundary psn) :
    Ordered st (w.acknowledge psn) expected where
  una_le := Nat.max_le.2 ⟨h.una_le, hle⟩
  expected_le := h.expected_le
  una_next := Nat.le_max_right _ _
  next_le := by
    have hhigh := Nat.max_le.2 ⟨h.una_le, hle⟩
    exact Nat.max_le.2 ⟨h.next_le, Nat.le_trans hhigh h.expected_le⟩
  una_boundary := h.una_boundary.max hpsn
  expected_boundary := h.expected_boundary
  next_boundary := h.next_boundary.max (h.una_boundary.max hpsn)
  high_boundary := h.high_boundary

theorem goBack (hle : psn ≤ expected) (hpsn : st.Boundary psn) :
    Ordered st (w.goBack psn) expected where
  una_le := Nat.max_le.2 ⟨h.una_le, hle⟩
  expected_le := h.expected_le
  una_next := Nat.le_refl _
  next_le := Nat.le_trans (Nat.max_le.2 ⟨h.una_le, hle⟩) h.expected_le
  una_boundary := h.una_boundary.max hpsn
  expected_boundary := h.expected_boundary
  next_boundary := h.una_boundary.max hpsn
  high_boundary := h.high_boundary

/-- The receiver takes the packet it expects. -/
theorem accept (hlt : expected < st.total) (hsent : expected + st.size expected ≤ w.high) :
    Ordered st w (expected + st.size expected) where
  una_le := Nat.le_trans h.una_le (Nat.le_add_right _ _)
  expected_le := hsent
  una_next := h.una_next
  next_le := h.next_le
  una_boundary := h.una_boundary
  expected_boundary := h.expected_boundary.next hlt
  next_boundary := h.next_boundary
  high_boundary := h.high_boundary

end

end Ordered

end GoBackN
