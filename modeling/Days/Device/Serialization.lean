/-
  Days.Device.Serialization — the serialization time of the kernels.
  (`serialization_ns` of `cuda_kernels.cu`)

  The kernel divides a 128-bit product by a 64-bit rate, one bit of the low
  word at a time.  The remainder is below the rate, so that twice the remainder
  needs 65 bits: the 65th is the carry.
-/
import Mathlib.Algebra.Order.Floor.Div
import Mathlib.Tactic.Ring
import Days.Device.Dcqcn
import Days.Model.Time

namespace Days.Device

/-! ## §1. The kernel. -/

/-- One turn of the loop, over the quotient and the remainder. -/
def divisionTurn (low rate bit : Nat) : Nat × Nat → Nat × Nat
  | (quotient, remainder) =>
    let carry := remainder >>> 63 ≠ 0
    let shifted := remainder <<< 1 % 2 ^ 64 ||| low >>> bit &&& 1
    if carry ∨ shifted ≥ rate then
      (quotient ||| 1 <<< bit, (shifted + 2 ^ 64 - rate) % 2 ^ 64)
    else (quotient, shifted)

/-- The turns for the bits below `bits`, from the highest down. -/
def divisionLoop (low rate : Nat) : Nat → Nat × Nat → Nat × Nat
  | 0, state => state
  | bit + 1, state => divisionLoop low rate bit (divisionTurn low rate bit state)

/-- The product of `high` and `low` over `rate`, unless the quotient is above 64 bits. -/
def divideWords (high low rate : Nat) : Option (Nat × Nat) :=
  if high = 0 then some (low / rate, low % rate)
  else if high ≥ rate then none
  else some (divisionLoop low rate 64 (0, high))

/-- One more if there is a remainder, unless the quotient is the last word. -/
def roundUp : Nat × Nat → Option Nat
  | (quotient, remainder) =>
    if remainder ≠ 0 then
      if quotient = u64Max then none else some ((quotient + 1) % 2 ^ 64)
    else some quotient

/-- Nanoseconds times the rate, for one byte. -/
def serializationScale : Nat := 8000000000

def serializationNs (bytes rate : Nat) : Option Nat :=
  if rate = 0 then none
  else (divideWords (mulHigh bytes serializationScale) (mulLow bytes serializationScale) rate).bind
    roundUp

/-! ## §2. The division. -/

section Division

variable {low rate bit r : Nat}

/-- A turn takes the next bit into the remainder, with no bit lost. -/
theorem divisionTurn_eq (hrate : rate < 2 ^ 64) (hr : r < rate) (p : Nat) :
    divisionTurn low rate bit (2 ^ (bit + 1) * p, r) =
      if rate ≤ 2 * r + low / 2 ^ bit % 2 then
        (2 ^ bit * (2 * p + 1), 2 * r + low / 2 ^ bit % 2 - rate)
      else (2 ^ bit * (2 * p), 2 * r + low / 2 ^ bit % 2) := by
  have hbit : low / 2 ^ bit % 2 < 2 := Nat.mod_lt _ (by decide)
  have hshifted : r <<< 1 % 2 ^ 64 ||| low >>> bit &&& 1 =
      (2 * r + low / 2 ^ bit % 2) % 2 ^ 64 := by
    have hdouble : r <<< 1 % 2 ^ 64 = 2 ^ 1 * (r % 2 ^ 63) := by
      rw [Nat.shiftLeft_eq]
      omega
    rw [Nat.and_one_is_mod, Nat.shiftRight_eq_div_pow, hdouble,
      ← Nat.two_pow_add_eq_or_of_lt hbit]
    omega
  have hquotient : 2 ^ (bit + 1) * p ||| 1 <<< bit = 2 ^ bit * (2 * p + 1) := by
    rw [Nat.shiftLeft_eq, Nat.one_mul,
      ← Nat.two_pow_add_eq_or_of_lt (Nat.pow_lt_pow_right (by decide) (lt_add_one bit))]
    ring
  unfold divisionTurn
  dsimp only
  rw [hshifted, hquotient, Nat.shiftRight_eq_div_pow]
  generalize low / 2 ^ bit % 2 = b at hbit
  split
  · rw [if_pos (by omega)]
    refine congrArg _ ?_
    omega
  · rw [if_neg (by omega), pow_succ, Nat.mul_assoc]
    refine congrArg _ ?_
    omega

/-- The turns divide: the bits that are left stand below the remainder. -/
theorem divisionLoop_spec (hrate : rate < 2 ^ 64) (bits p : Nat) (hr : r < rate) :
    ∃ q r', divisionLoop low rate bits (2 ^ bits * p, r) = (q, r') ∧ r' < rate ∧
      rate * q + r' = 2 ^ bits * (rate * p + r) + low % 2 ^ bits := by
  induction bits generalizing p r with
  | zero => exact ⟨p, r, by simp [divisionLoop], hr, by simp [Nat.mod_one]⟩
  | succ bit ih =>
    have hbit : low / 2 ^ bit % 2 < 2 := Nat.mod_lt _ (by decide)
    have hsplit : low % 2 ^ (bit + 1) = low % 2 ^ bit + 2 ^ bit * (low / 2 ^ bit % 2) :=
      Nat.mod_pow_succ
    unfold divisionLoop
    rw [divisionTurn_eq hrate hr, hsplit]
    generalize low / 2 ^ bit % 2 = b at hbit
    split
    · next hle =>
      obtain ⟨q, r', hloop, hlt, heq⟩ := ih (2 * p + 1) (show 2 * r + b - rate < rate by omega)
      refine ⟨q, r', hloop, hlt, heq.trans ?_⟩
      have hsum : rate * (2 * p + 1) + (2 * r + b - rate) = 2 * (rate * p + r) + b := by
        rw [Nat.mul_add, Nat.mul_left_comm]
        omega
      rw [hsum]
      ring
    · next hlt =>
      obtain ⟨q, r', hloop, hlt, heq⟩ := ih (2 * p) (Nat.lt_of_not_le hlt)
      refine ⟨q, r', hloop, hlt, heq.trans ?_⟩
      ring

end Division

/-! ## §3. The time. -/

/-- A product is divided exactly if its quotient fits one word. -/
theorem divideWords_eq {rate : Nat} (n : Nat) (hrate : rate < 2 ^ 64) (hpos : 0 < rate) :
    divideWords (n / 2 ^ 64) (n % 2 ^ 64) rate =
      if n / rate < 2 ^ 64 then some (n / rate, n % rate) else none := by
  have hfits : n / rate < 2 ^ 64 ↔ n / 2 ^ 64 < rate := by
    rw [Nat.div_lt_iff_lt_mul hpos]
    omega
  simp only [hfits]
  unfold divideWords
  split
  · next hzero => rw [hzero, if_pos hpos, Nat.mod_eq_of_lt (by omega)]
  split
  · next hle => rw [if_neg (by omega)]
  · next hlt =>
    obtain ⟨q, r, hloop, hr, heq⟩ := divisionLoop_spec hrate 64 0 (Nat.lt_of_not_le hlt)
    rw [Nat.mul_zero, Nat.zero_add, Nat.mod_mod, Nat.div_add_mod] at heq
    rw [if_pos (by omega), ← heq, Nat.mul_add_div hpos, Nat.div_eq_of_lt hr, Nat.mul_add_mod,
      Nat.mod_eq_of_lt hr, heq]
    exact congrArg some hloop

theorem serNs_eq_ceilDiv {rate : Nat} (bytes : Nat) (hpos : 0 < rate) :
    serNs bytes rate = bytes * 8 * 10 ^ 9 ⌈/⌉ rate := by
  unfold serNs
  norm_num only
  generalize bytes * 8 * 1000000000 = n
  have hn := Nat.div_add_mod n rate
  have hmod := Nat.mod_lt n hpos
  rw [Nat.ceilDiv_eq_add_pred_div]
  symm
  rw [Nat.div_eq_iff hpos]
  split
  · constructor <;> grind
  · constructor <;> grind

theorem roundUp_eq {q : Nat} (hq : q < width 64) (r : Nat) :
    roundUp (q, r) = if q + (if r = 0 then 0 else 1) < width 64 then some (q + if r = 0 then 0 else 1)
      else none := by
  unfold roundUp u64Max
  unfold width at *
  dsimp only
  by_cases hr : r = 0
  · rw [if_neg (not_not.2 hr), if_pos hr, Nat.add_zero, if_pos hq]
  rw [if_pos hr, if_neg hr]
  split
  · rw [if_neg (by omega)]
  · rw [if_pos (by omega), Nat.mod_eq_of_lt (by omega)]

/-- The kernel's time is the exact quotient rounded up if that fits 64 bits, and there is none
otherwise; the host answers the same. -/
theorem serializationNs_exact (bytes rate : Nat) (hrate : rate < width 64) (hpos : 0 < rate) :
    serializationNs bytes rate =
        (if bytes * 8 * 10 ^ 9 ⌈/⌉ rate < width 64 then some (bytes * 8 * 10 ^ 9 ⌈/⌉ rate)
        else none) ∧
      serializationNs bytes rate = (serializationTimeNs bytes rate).toOption := by
  have hhost : (serializationTimeNs bytes rate).toOption =
      if serNs bytes rate < width 64 then some (serNs bytes rate) else none := by
    unfold serializationTimeNs
    rw [if_neg hpos.ne']
    split
    · rfl
    · rfl
  have hkernel : serializationNs bytes rate =
      if serNs bytes rate < width 64 then some (serNs bytes rate) else none := by
    have hscale : bytes * serializationScale = bytes * 8 * 1000000000 := by
      unfold serializationScale
      omega
    unfold serializationNs serNs mulHigh mulLow
    rw [if_neg hpos.ne', divideWords_eq _ hrate hpos, hscale]
    generalize bytes * 8 * 1000000000 = n
    split
    · next hq => exact (Option.bind_some _ _).trans (roundUp_eq hq _)
    · next hq =>
      symm
      exact if_neg fun h => hq (Nat.lt_of_add_right_lt h)
  rw [← serNs_eq_ceilDiv bytes hpos]
  exact ⟨hkernel, hkernel.trans hhost.symm⟩

theorem serializationNs_exact_last :
    serializationNs u64Max serializationScale = some u64Max ∧
      serializationNs u64Max (serializationScale - 1) = none := by
  have hlast := serializationNs_exact u64Max serializationScale (by decide) (by decide)
  have hover := serializationNs_exact u64Max (serializationScale - 1) (by decide) (by decide)
  exact ⟨hlast.2.trans (by decide), hover.2.trans (by decide)⟩

end Days.Device
