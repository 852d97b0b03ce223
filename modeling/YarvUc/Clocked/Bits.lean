import Mathlib.Data.BitVec
import Mathlib.Tactic.Ring

/-!
# Bit-vector facts: clearing low bits, aligned addresses, single bits as arithmetic, strobed bytes
-/

namespace BitVec

/-- Masking the low `k` bits off is a shift down and up again. -/
theorem and_not_lowMask {w : ℕ} (a : BitVec w) (k : ℕ) :
    a &&& ~~~(BitVec.ofNat w (2 ^ k - 1)) = (a >>> k) <<< k := by
  apply BitVec.eq_of_getLsbD_eq
  intro i hi
  simp only [BitVec.getLsbD_and, BitVec.getLsbD_not, BitVec.getLsbD_ofNat, Nat.testBit_two_pow_sub_one,
    BitVec.getLsbD_shiftLeft, BitVec.getLsbD_ushiftRight, hi, decide_true, Bool.true_and]
  by_cases h : i < k
  · simp [h]
  · simp [h, show k + (i - k) = i by omega]

theorem toNat_and_not_lowMask {w : ℕ} (a : BitVec w) (k : ℕ) :
    (a &&& ~~~(BitVec.ofNat w (2 ^ k - 1))).toNat = a.toNat / 2 ^ k * 2 ^ k := by
  rw [and_not_lowMask, BitVec.toNat_shiftLeft, BitVec.toNat_ushiftRight, Nat.shiftRight_eq_div_pow,
    Nat.shiftLeft_eq]
  exact Nat.mod_eq_of_lt (lt_of_le_of_lt (Nat.div_mul_le_self _ _) a.isLt)

/-- A right shift is zero exactly below the power of two. -/
theorem ushiftRight_eq_zero_iff {w : ℕ} (a : BitVec w) (k : ℕ) : a >>> k = 0#w ↔ a.toNat < 2 ^ k := by
  rw [← BitVec.toNat_inj]
  simp [BitVec.toNat_ushiftRight, Nat.shiftRight_eq_div_pow, Nat.div_eq_zero_iff]

theorem getLsbD_eq_div {w : ℕ} (a : BitVec w) (k : ℕ) : a.getLsbD k = decide (a.toNat / 2 ^ k % 2 = 1) := by
  rw [BitVec.getLsbD, Nat.testBit_eq_decide_div_mod_eq]

/-- Concatenation as a sum. -/
theorem toNat_append_eq {m n : ℕ} (a : BitVec m) (b : BitVec n) : (a ++ b).toNat = a.toNat * 2 ^ n + b.toNat := by
  rw [BitVec.toNat_append, Nat.shiftLeft_eq, Nat.mul_comm, Nat.two_pow_add_eq_or_of_lt b.isLt]

/-- A word of `n` bytes with the strobed ones from `new` and the others from `old`. -/
def strobed {n : ℕ} (old new : BitVec (8 * n)) (strb : BitVec n) : BitVec (8 * n) :=
  (ofBoolListLE (List.ofFn fun k : Fin (8 * n) =>
    if strb.getLsbD (k / 8) then new.getLsbD k else old.getLsbD k)).cast List.length_ofFn

theorem getLsbD_strobed {n : ℕ} (old new : BitVec (8 * n)) (strb : BitVec n) {k : ℕ} (hk : k < 8 * n) :
    (strobed old new strb).getLsbD k = if strb.getLsbD (k / 8) then new.getLsbD k else old.getLsbD k := by
  rw [strobed, getLsbD_cast, getLsbD_ofBoolListLE, List.getD_eq_getElem?_getD, List.getElem?_ofFn, dif_pos hk,
    Option.getD_some]

end BitVec
