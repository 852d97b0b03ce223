import YarvUc.Decode.Legal
import YarvUc.Clocked.Bits

/-!
# Immediates of built words

`c_expand` packs an offset into a 32-bit encoding and the uniform decoder unpacks it.
For an offset that fits its format the two cancel, and the register fields a builder
puts in are the ones the decoder reads.
-/

namespace YarvUc

/-! ## Offsets that fit -/

/-- A word is the sign extension of its low `n` bits. -/
def Fits (n : ℕ) (off : Word) : Prop := (off.setWidth n).signExtend 32 = off

theorem fits_signExtend {k n : ℕ} (x : BitVec k) (hkn : k ≤ n) (hn : n ≤ 32) : Fits n (x.signExtend 32) := by
  have narrow : (x.signExtend 32).setWidth n = x.signExtend n := by
    apply BitVec.eq_of_getLsbD_eq
    intro i hi
    rw [BitVec.getLsbD_setWidth, BitVec.getLsbD_signExtend, BitVec.getLsbD_signExtend]
    simp [hi, show i < 32 by omega]
  rw [Fits, narrow]
  apply BitVec.eq_of_toInt_eq
  rw [BitVec.toInt_signExtend_of_le hn, BitVec.toInt_signExtend_of_le hkn, BitVec.toInt_signExtend_of_le (by omega)]

theorem fits_setWidth {k n : ℕ} (x : BitVec k) (hkn : k < n) (hn : n ≤ 32) : Fits n (x.setWidth 32) := by
  have zero : x.setWidth 32 = (x.setWidth (k + 1)).signExtend 32 := by
    have msb : (x.setWidth (k + 1)).msb = false := by
      rw [BitVec.msb_eq_getLsbD_last, BitVec.getLsbD_setWidth]
      simp
    rw [BitVec.signExtend_eq_setWidth_of_msb_false msb]
    apply BitVec.eq_of_getLsbD_eq
    intro i hi
    rw [BitVec.getLsbD_setWidth, BitVec.getLsbD_setWidth, BitVec.getLsbD_setWidth]
    by_cases h : i < k + 1
    · simp [h]
    · simp [h, BitVec.getLsbD_of_ge x i (by omega)]
  rw [zero]
  exact fits_signExtend _ (by omega) hn

theorem getLsbD_zero_signExtend {k : ℕ} (x : BitVec k) (pos : 0 < k) : (x.signExtend 32).getLsbD 0 = x.getLsbD 0 := by
  rw [BitVec.getLsbD_signExtend, if_pos pos]
  rfl

/-! ## The formats -/

section Formats

variable (op : BitVec 7) (rd rs1 rs2 : BitVec 5) (f3 : BitVec 3) (f7 : BitVec 7) {off : Word}

theorem immI_mkI (fits : Fits 12 off) : immI (mkI op rd rs1 f3 off) = off := by
  have field : (mkI op rd rs1 f3 off).extractLsb 31 20 = off.setWidth 12 := by
    apply BitVec.eq_of_toNat_eq
    simp only [mkI, BitVec.extractLsb_toNat, BitVec.toNat_append_eq, Nat.shiftRight_eq_div_pow, BitVec.toNat_setWidth]
    omega
  rw [immI, field]
  exact fits

theorem parts_mkS (off : Word) :
    (mkS op rs1 rs2 f3 off).extractLsb 31 25 = off.extractLsb 11 5 ∧
      (mkS op rs1 rs2 f3 off).extractLsb 11 7 = off.extractLsb 4 0 := by
  unfold mkS
  generalize off.extractLsb 11 5 = a, off.extractLsb 4 0 = b
  have ha := a.isLt
  have hb := b.isLt
  simp only [← BitVec.toNat_inj, BitVec.extractLsb_toNat, BitVec.toNat_append_eq, Nat.shiftRight_eq_div_pow]
  omega

theorem immS_mkS (fits : Fits 12 off) : immS (mkS op rs1 rs2 f3 off) = off := by
  have field : (mkS op rs1 rs2 f3 off).extractLsb 31 25 ++ (mkS op rs1 rs2 f3 off).extractLsb 11 7 =
      off.setWidth 12 := by
    obtain ⟨high, low⟩ := parts_mkS op rs1 rs2 f3 off
    rw [high, low]
    apply BitVec.eq_of_toNat_eq
    simp only [BitVec.extractLsb_toNat, BitVec.toNat_append_eq, Nat.shiftRight_eq_div_pow, BitVec.toNat_setWidth]
    omega
  rw [immS, field]
  exact fits

theorem parts_mkB (off : Word) :
    (mkB op rs1 rs2 f3 off).extractLsb 31 31 = off.extractLsb 12 12 ∧
      (mkB op rs1 rs2 f3 off).extractLsb 7 7 = off.extractLsb 11 11 ∧
      (mkB op rs1 rs2 f3 off).extractLsb 30 25 = off.extractLsb 10 5 ∧
      (mkB op rs1 rs2 f3 off).extractLsb 11 8 = off.extractLsb 4 1 := by
  unfold mkB
  generalize off.extractLsb 12 12 = a, off.extractLsb 10 5 = b, off.extractLsb 4 1 = c, off.extractLsb 11 11 = d
  have ha := a.isLt
  have hb := b.isLt
  have hc := c.isLt
  have hd := d.isLt
  simp only [← BitVec.toNat_inj, BitVec.extractLsb_toNat, BitVec.toNat_append_eq, Nat.shiftRight_eq_div_pow]
  omega

theorem immB_mkB (fits : Fits 13 off) (even : off.getLsbD 0 = false) : immB (mkB op rs1 rs2 f3 off) = off := by
  obtain ⟨b12, b11, b10, b4⟩ := parts_mkB op rs1 rs2 f3 off
  have join : off.extractLsb 12 12 ++ off.extractLsb 11 11 ++ off.extractLsb 10 5 ++ off.extractLsb 4 1 ++ 0b0#1 =
      off.setWidth 13 := by
    rw [BitVec.getLsbD_eq_div] at even
    apply BitVec.eq_of_toNat_eq
    simp only [BitVec.extractLsb_toNat, BitVec.toNat_append_eq, Nat.shiftRight_eq_div_pow, BitVec.toNat_setWidth,
      decide_eq_false_iff_not, show (0b0#1).toNat = 0 from rfl] at *
    omega
  rw [immB, b12, b11, b10, b4, join]
  exact fits

theorem parts_mkJ (off : Word) :
    (mkJ op rd off).extractLsb 31 31 = off.extractLsb 20 20 ∧ (mkJ op rd off).extractLsb 19 12 = off.extractLsb 19 12 ∧
      (mkJ op rd off).extractLsb 20 20 = off.extractLsb 11 11 ∧
      (mkJ op rd off).extractLsb 30 21 = off.extractLsb 10 1 := by
  unfold mkJ
  generalize off.extractLsb 20 20 = a, off.extractLsb 10 1 = b, off.extractLsb 11 11 = c, off.extractLsb 19 12 = d
  have ha := a.isLt
  have hb := b.isLt
  have hc := c.isLt
  have hd := d.isLt
  simp only [← BitVec.toNat_inj, BitVec.extractLsb_toNat, BitVec.toNat_append_eq, Nat.shiftRight_eq_div_pow]
  omega

theorem immJ_mkJ (fits : Fits 21 off) (even : off.getLsbD 0 = false) : immJ (mkJ op rd off) = off := by
  obtain ⟨b20, b19, b11, b10⟩ := parts_mkJ op rd off
  have join : off.extractLsb 20 20 ++ off.extractLsb 19 12 ++ off.extractLsb 11 11 ++ off.extractLsb 10 1 ++ 0b0#1 =
      off.setWidth 21 := by
    rw [BitVec.getLsbD_eq_div] at even
    apply BitVec.eq_of_toNat_eq
    simp only [BitVec.extractLsb_toNat, BitVec.toNat_append_eq, Nat.shiftRight_eq_div_pow, BitVec.toNat_setWidth,
      decide_eq_false_iff_not, show (0b0#1).toNat = 0 from rfl] at *
    omega
  rw [immJ, b20, b19, b11, b10, join]
  exact fits

theorem immU_mkU (low : off.extractLsb 11 0 = 0#12) : immU (mkU op rd off) = off := by
  have field : (mkU op rd off).extractLsb 31 12 = off.extractLsb 31 12 := by
    apply BitVec.eq_of_toNat_eq
    simp only [mkU, BitVec.extractLsb_toNat, BitVec.toNat_append_eq, Nat.shiftRight_eq_div_pow]
    omega
  rw [immU, field, ← low]
  apply BitVec.eq_of_toNat_eq
  simp only [BitVec.extractLsb_toNat, BitVec.toNat_append_eq, Nat.shiftRight_eq_div_pow]
  omega

/-! ## Register fields -/

theorem regs_mkI (off : Word) : rdField (mkI op rd rs1 f3 off) = rd ∧ rs1Field (mkI op rd rs1 f3 off) = rs1 := by
  simp only [← BitVec.toNat_inj, mkI, BitVec.extractLsb_toNat, BitVec.toNat_append_eq, Nat.shiftRight_eq_div_pow]
  omega

theorem regs_mkR : rdField (mkR op rd rs1 rs2 f3 f7) = rd ∧ rs1Field (mkR op rd rs1 rs2 f3 f7) = rs1 ∧
    rs2Field (mkR op rd rs1 rs2 f3 f7) = rs2 := by
  simp only [← BitVec.toNat_inj, mkR, BitVec.extractLsb_toNat, BitVec.toNat_append_eq, Nat.shiftRight_eq_div_pow]
  omega

theorem regs_mkS (off : Word) : rs1Field (mkS op rs1 rs2 f3 off) = rs1 ∧ rs2Field (mkS op rs1 rs2 f3 off) = rs2 := by
  unfold mkS
  generalize off.extractLsb 11 5 = a, off.extractLsb 4 0 = b
  have hb := b.isLt
  simp only [← BitVec.toNat_inj, BitVec.extractLsb_toNat, BitVec.toNat_append_eq, Nat.shiftRight_eq_div_pow]
  omega

theorem regs_mkB (off : Word) : rs1Field (mkB op rs1 rs2 f3 off) = rs1 ∧ rs2Field (mkB op rs1 rs2 f3 off) = rs2 := by
  unfold mkB
  generalize off.extractLsb 12 12 = a, off.extractLsb 10 5 = b, off.extractLsb 4 1 = c, off.extractLsb 11 11 = d
  have hc := c.isLt
  have hd := d.isLt
  simp only [← BitVec.toNat_inj, BitVec.extractLsb_toNat, BitVec.toNat_append_eq, Nat.shiftRight_eq_div_pow]
  omega

theorem rd_mkU (off : Word) : rdField (mkU op rd off) = rd := by
  simp only [← BitVec.toNat_inj, mkU, BitVec.extractLsb_toNat, BitVec.toNat_append_eq, Nat.shiftRight_eq_div_pow]
  omega

theorem rd_mkJ (off : Word) : rdField (mkJ op rd off) = rd := by
  simp only [← BitVec.toNat_inj, mkJ, BitVec.extractLsb_toNat, BitVec.toNat_append_eq, Nat.shiftRight_eq_div_pow]
  omega

end Formats

end YarvUc
