import Mathlib.Data.BitVec
import Mathlib.Tactic.Ring

/-!
# Restoring division, one bit a step

Long division in base two of an `n` of `w` bits: after `k` steps the quotient and the
remainder of the upper `k` bits are known. Both sit in one shift register of `2 w` bits
with the bits of `n` still to come between them, and since the upper `k` bits are a
number below `2 ^ k`, no step ever needs more than `w` bits for the remainder.
-/

/-- `r` and `q` are remainder and quotient of the upper `k` of the `w` bits of `n`. -/
structure Restoring (w n d k r q : ℕ) : Prop where
  upper : n / 2 ^ (w - k) = d * q + r
  rem_lt : r < d

namespace Restoring

variable {w n d k r q : ℕ}

/-- The shift register after `k` steps, as a number: remainder, bits to come, quotient. -/
def register (w n k r q : ℕ) : ℕ := r * 2 ^ w + (n % 2 ^ (w - k) * 2 ^ k + q)

/-- What is below the remainder has `w` bits. -/
theorem low_lt (hq : q < 2 ^ k) (hk : k ≤ w) : n % 2 ^ (w - k) * 2 ^ k + q < 2 ^ w := by
  have below : n % 2 ^ (w - k) + 1 ≤ 2 ^ (w - k) := Nat.mod_lt _ (Nat.two_pow_pos _)
  calc n % 2 ^ (w - k) * 2 ^ k + q < n % 2 ^ (w - k) * 2 ^ k + 2 ^ k := by omega
    _ = (n % 2 ^ (w - k) + 1) * 2 ^ k := by ring
    _ ≤ 2 ^ (w - k) * 2 ^ k := Nat.mul_le_mul_right _ below
    _ = 2 ^ w := by rw [← Nat.pow_add, Nat.sub_add_cancel hk]

theorem register_div (hq : q < 2 ^ k) (hk : k ≤ w) : register w n k r q / 2 ^ w = r := by
  rw [register, Nat.mul_comm, Nat.mul_add_div (Nat.two_pow_pos w), Nat.div_eq_of_lt (low_lt hq hk), Nat.add_zero]

theorem register_lt (hq : q < 2 ^ k) (hk : k ≤ w) (hr : r < 2 ^ w) : register w n k r q < 2 ^ w * 2 ^ w := by
  have low := low_lt (n := n) hq hk
  calc register w n k r q < r * 2 ^ w + 2 ^ w := by rw [register]; omega
    _ = (r + 1) * 2 ^ w := by ring
    _ ≤ 2 ^ w * 2 ^ w := Nat.mul_le_mul_right _ hr

/-- The remainder with the next bit shifted in. -/
def shifted (w n k r : ℕ) : ℕ := 2 * r + n / 2 ^ (w - k - 1) % 2

theorem start (hn : n < 2 ^ w) (hd : 0 < d) : Restoring w n d 0 0 0 := by
  refine ⟨?_, hd⟩
  rw [Nat.sub_zero, Nat.div_eq_of_lt hn]
  rfl

theorem register_start (hn : n < 2 ^ w) : register w n 0 0 0 = n := by
  simp [register, Nat.mod_eq_of_lt hn]

theorem upper_lt (hn : n < 2 ^ w) (hk : k ≤ w) : n / 2 ^ (w - k) < 2 ^ k := by
  rw [Nat.div_lt_iff_lt_mul (Nat.two_pow_pos _), ← Nat.pow_add]
  rwa [show k + (w - k) = w by omega]

/-- The bound that lets the remainder do with `w` bits: it comes from the dividend. -/
theorem rem_lt_two_pow (h : Restoring w n d k r q) (hn : n < 2 ^ w) (hk : k ≤ w) : r < 2 ^ k := by
  have bound := upper_lt hn hk
  rw [h.upper] at bound
  omega

theorem quot_lt_two_pow (h : Restoring w n d k r q) (hn : n < 2 ^ w) (hk : k ≤ w) : q < 2 ^ k := by
  have bound := upper_lt hn hk
  rw [h.upper] at bound
  have : q ≤ d * q := Nat.le_mul_of_pos_left q (by have := h.rem_lt; omega)
  omega

theorem shifted_lt (h : Restoring w n d k r q) (hn : n < 2 ^ w) (hk : k < w) : shifted w n k r < 2 ^ (k + 1) := by
  have bound := h.rem_lt_two_pow hn hk.le
  have bit : n / 2 ^ (w - k - 1) % 2 < 2 := Nat.mod_lt _ (by decide)
  rw [shifted, Nat.pow_succ]
  omega

/-- Half of what one more bit up gives is what there was. -/
theorem upper_succ (hk : k < w) : n / 2 ^ (w - k) = n / 2 ^ (w - k - 1) / 2 := by
  rw [Nat.div_div_eq_div_mul, ← Nat.pow_succ]
  congr 2
  omega

theorem shifted_value (h : Restoring w n d k r q) (hk : k < w) :
    n / 2 ^ (w - (k + 1)) = d * (2 * q) + shifted w n k r := by
  have split := Nat.div_add_mod (n / 2 ^ (w - k - 1)) 2
  rw [← upper_succ hk, h.upper] at split
  rw [show w - (k + 1) = w - k - 1 by omega, ← split, shifted]
  ring

/-- The shift alone moves the next bit over, and leaves room for a bit of the quotient. -/
theorem register_shift (hk : k < w) :
    2 * register w n k r q = register w n (k + 1) (shifted w n k r) (2 * q) := by
  have split : n % 2 ^ (w - k) = 2 ^ (w - k - 1) * (n / 2 ^ (w - k - 1) % 2) + n % 2 ^ (w - k - 1) := by
    rw [show w - k = w - k - 1 + 1 by omega, Nat.pow_succ, Nat.mod_mul]
    simp only [Nat.add_sub_cancel]
    ring
  have size : 2 ^ w = 2 ^ (w - k - 1) * 2 ^ (k + 1) := by rw [← Nat.pow_add]; congr 1; omega
  rw [register, register, split, size, shifted, show w - (k + 1) = w - k - 1 by omega, Nat.pow_succ]
  ring

/-- The divisor goes into the shifted remainder. -/
theorem subtract (h : Restoring w n d k r q) (hk : k < w) (fits : d ≤ shifted w n k r) :
    Restoring w n d (k + 1) (shifted w n k r - d) (2 * q + 1) := by
  have bit : n / 2 ^ (w - k - 1) % 2 < 2 := Nat.mod_lt _ (by decide)
  constructor
  · rw [h.shifted_value hk, Nat.mul_add, Nat.mul_one]
    omega
  · have := h.rem_lt
    rw [shifted] at fits ⊢
    omega

/-- The divisor does not go into it. -/
theorem keep (h : Restoring w n d k r q) (hk : k < w) (below : shifted w n k r < d) :
    Restoring w n d (k + 1) (shifted w n k r) (2 * q) :=
  ⟨h.shifted_value hk, below⟩

theorem done (h : Restoring w n d w r q) : q = n / d ∧ r = n % d := by
  have upper := h.upper
  rw [Nat.sub_self, Nat.pow_zero, Nat.div_one] at upper
  subst upper
  have hd : 0 < d := by have := h.rem_lt; omega
  constructor
  · rw [Nat.mul_add_div hd, Nat.div_eq_of_lt h.rem_lt, Nat.add_zero]
  · rw [Nat.mul_add_mod, Nat.mod_eq_of_lt h.rem_lt]

end Restoring
