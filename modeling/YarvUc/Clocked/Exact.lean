import Mathlib.Tactic.Ring

/-!
# Words of exact results

A circuit computes with integers cut to their low bits. A word that is wide enough for the
exact result has every part of it: `extractLsb'_ofInt` takes a part of the integer's bits, and
`guard` widens a word by the bit that makes it signed or unsigned. The comparisons are those of a
subtraction, which carries out when nothing is borrowed.
-/

namespace Clocked

variable {w n : ℕ}

/-! ## Products -/

/-- The bits of an integer from `lo` on. -/
theorem extractLsb'_ofInt (z : ℤ) {lo len : ℕ} (inside : lo + len ≤ n) :
    (BitVec.ofInt n z).extractLsb' lo len = BitVec.ofInt len (z / 2 ^ lo) := by
  have split : (2 : ℤ) ^ n = 2 ^ lo * (2 ^ len * 2 ^ (n - lo - len)) := by
    rw [← pow_add, ← pow_add]
    congr 1
    omega
  have pos : ∀ k : ℕ, (0 : ℤ) < 2 ^ k := fun k => Int.pow_pos (by decide)
  have low : 0 ≤ z % 2 ^ n := Int.emod_nonneg _ (Int.ne_of_gt (pos n))
  -- what is cut off above the word is a multiple of the part's range
  have whole : z / 2 ^ lo = z % 2 ^ n / 2 ^ lo + 2 ^ len * (2 ^ (n - lo - len) * (z / 2 ^ n)) := by
    have back : z = z % 2 ^ n + 2 ^ lo * (2 ^ len * (2 ^ (n - lo - len) * (z / 2 ^ n))) := by
      have := Int.emod_add_mul_ediv z (2 ^ n)
      rw [split, mul_assoc, mul_assoc] at this
      rw [split]
      exact this.symm
    conv_lhs => rw [back]
    rw [Int.add_mul_ediv_left _ _ (Int.ne_of_gt (pos lo))]
  have cast : ∀ k : ℕ, ((2 ^ k : ℕ) : ℤ) = 2 ^ k := fun k => by push_cast; rfl
  apply BitVec.eq_of_toNat_eq
  rw [BitVec.extractLsb'_toNat, BitVec.toNat_ofInt, BitVec.toNat_ofInt, cast, cast, whole, Int.add_mul_emod_self_left,
    Nat.shiftRight_eq_div_pow]
  have high : 0 ≤ z % 2 ^ n / 2 ^ lo % 2 ^ len := Int.emod_nonneg _ (Int.ne_of_gt (pos len))
  apply Int.ofNat_inj.mp
  rw [Int.toNat_of_nonneg high]
  push_cast
  rw [Int.toNat_of_nonneg low]

/-- A word read as signed or as unsigned. -/
def valueOf (signed : Bool) (a : BitVec w) : ℤ := if signed then a.toInt else a.toNat

/-- A word under the bit that keeps its value: its sign, or zero. -/
def guard (signed : Bool) (a : BitVec w) : BitVec (1 + w) := BitVec.ofBool (signed && a.msb) ++ a

theorem toInt_guard (signed : Bool) (a : BitVec w) : (guard signed a).toInt = valueOf signed a := by
  have small := a.isLt
  have double : 2 ^ (1 + w) = 2 * 2 ^ w := by rw [Nat.add_comm, Nat.pow_succ, Nat.mul_comm]
  have top : (guard signed a).msb = (signed && a.msb) := by
    rw [guard, BitVec.msb_append]
    simp
  have value : (guard signed a).toNat = 2 ^ w * (signed && a.msb).toNat + a.toNat := by
    rw [guard, BitVec.toNat_append, Nat.shiftLeft_eq, Nat.mul_comm, ← Nat.two_pow_add_eq_or_of_lt small]
    cases signed && a.msb <;> rfl
  rw [BitVec.toInt_eq_msb_cond, top, value, double, valueOf, BitVec.toInt_eq_msb_cond]
  cases signed <;> cases a.msb <;> simp
  ring

/-- An `n`-bit product of words widened with their signs is the integers' product. -/
theorem signExtend_mul {v : ℕ} (a : BitVec w) (b : BitVec v) :
    a.signExtend n * b.signExtend n = BitVec.ofInt n (a.toInt * b.toInt) := (BitVec.ofInt_mul _ _).symm

theorem setWidth_mul {v : ℕ} (a : BitVec w) (b : BitVec v) :
    a.setWidth n * b.setWidth n = BitVec.ofInt n (a.toNat * b.toNat) := by
  rw [BitVec.ofInt_mul, BitVec.ofInt_natCast, BitVec.ofInt_natCast, BitVec.ofNat_toNat, BitVec.ofNat_toNat]

/-! ## Comparisons -/

/-- `a + ~b + 1` carries out of `w` bits exactly when nothing is borrowed. -/
theorem getLsbD_sub_carry (a b : BitVec w) :
    (a.setWidth (w + 1) + (~~~b).setWidth (w + 1) + 1).getLsbD w = decide (b.toNat ≤ a.toNat) := by
  have ha := a.isLt
  have hb := b.isLt
  have double : 2 ^ (w + 1) = 2 * 2 ^ w := by rw [Nat.pow_succ, Nat.mul_comm]
  have value : (a.setWidth (w + 1) + (~~~b).setWidth (w + 1) + 1).toNat = a.toNat + (2 ^ w - 1 - b.toNat) + 1 := by
    simp only [BitVec.toNat_add, BitVec.toNat_setWidth, BitVec.toNat_not, double]
    rw [Nat.mod_eq_of_lt (by omega : a.toNat < _), Nat.mod_eq_of_lt (by omega : 2 ^ w - 1 - b.toNat < _)]
    have one : (1 : BitVec (w + 1)).toNat = 1 := by simp
    rw [one, Nat.mod_eq_of_lt (by omega : a.toNat + (2 ^ w - 1 - b.toNat) < _), Nat.mod_eq_of_lt (by omega)]
  rw [BitVec.getLsbD, value, Nat.testBit_eq_decide_div_mod_eq]
  rcases Nat.lt_or_ge a.toNat b.toNat with below | above
  · rw [Nat.div_eq_of_lt (by omega)]
    simp [Nat.not_le.mpr below]
  · have one : (a.toNat + (2 ^ w - 1 - b.toNat) + 1) / 2 ^ w = 1 := by
      apply Nat.div_eq_of_lt_le <;> omega
    rw [one]
    simp [above]

/-- The sign decides a signed comparison: of the operands where they differ, else of the
difference, which then fits. -/
theorem slt_of_signs (a b : BitVec w) :
    (if a.msb ^^ b.msb then a.msb else (a - b).msb) = decide (a.toInt < b.toInt) := by
  have sa : a.msb = decide (a.toInt < 0) := BitVec.msb_eq_toInt
  have sb : b.msb = decide (b.toInt < 0) := BitVec.msb_eq_toInt
  have sd : (a - b).msb = decide ((a - b).toInt < 0) := BitVec.msb_eq_toInt
  have la := BitVec.le_two_mul_toInt (x := a)
  have lb := BitVec.le_two_mul_toInt (x := b)
  have ua := BitVec.two_mul_toInt_lt (x := a)
  have ub := BitVec.two_mul_toInt_lt (x := b)
  rw [sa, sb, sd, BitVec.toInt_sub]
  rcases Int.lt_or_le a.toInt 0 with ha | ha <;> rcases Int.lt_or_le b.toInt 0 with hb | hb
  case inl.inr => simp [ha, Int.not_lt.mpr hb]; omega
  case inr.inl => simp [hb, Int.not_lt.mpr ha]; omega
  all_goals
    rw [Int.bmod_eq_of_le_mul_two (by push_cast; omega) (by push_cast; omega)]
    simp [ha, hb, Int.not_lt.mpr]

end Clocked
