import YarvUc.Execute.Word
import YarvUc.Rtl.NativeRam

/-!
# The byte memory

The little-endian byte array a load and store unit stands for, and how a memory of
words with byte strobes carries it: a strobed write of an aligned store is the store
of its bytes, and the extraction of an aligned load reads its bytes.
-/

namespace YarvUc

/-- Bytes by address. -/
abbrev ByteMem := ℕ → BitVec 8

namespace ByteMem

/-- Byte `j` of an access at `a`, in an array of `2 ^ w` bytes. -/
def index (w : ℕ) (a : Word) (j : ℕ) : ℕ := (a.toNat + j) % 2 ^ w

/-- The bytes `a, .., a + n - 1` get the low bytes of `v`. -/
def store (m : ByteMem) (w : ℕ) (a v : Word) : ℕ → ByteMem
  | 0 => m
  | n + 1 => Function.update (m.store w a v n) (index w a n) (byteOf v n)

/-- The bytes from `a`. -/
def load (m : ByteMem) (w : ℕ) (a : Word) (j : ℕ) : BitVec 8 := m (index w a j)

end ByteMem

/-- The value of a load: its bytes in little-endian order, extended by sign or zeros. -/
def loadValue (size : MemSize) (uns : Bool) (b : ℕ → BitVec 8) : Word :=
  match size with
  | .B => if uns then (b 0).setWidth 32 else (b 0).signExtend 32
  | .H => if uns then (b 1 ++ b 0).setWidth 32 else (b 1 ++ b 0).signExtend 32
  | .W => b 3 ++ b 2 ++ b 1 ++ b 0

/-- The byte array of a word array. -/
def bytesOf (mem : ℕ → Word) : ByteMem := fun b => byteOf (mem (b / 4)) (b % 4)

/-! ## Bytes of words -/

theorem getLsbD_byteOf (w : Word) (k : ℕ) {i : ℕ} (hi : i < 8) : (byteOf w k).getLsbD i = w.getLsbD (8 * k + i) := by
  simp [byteOf, hi]

theorem byteOf_shiftRight (w : Word) (n j : ℕ) : byteOf (w >>> (8 * n)) j = byteOf w (n + j) := by
  apply BitVec.eq_of_getLsbD_eq
  intro i hi
  rw [getLsbD_byteOf _ _ hi, getLsbD_byteOf _ _ hi, BitVec.getLsbD_ushiftRight]
  congr 1
  omega

theorem byteOf_zero (w : Word) : w.extractLsb 7 0 = byteOf w 0 := by
  apply BitVec.eq_of_getLsbD_eq
  intro i hi
  rw [getLsbD_byteOf _ _ hi]
  simp [hi]

theorem byteOf_half (w : Word) : w.extractLsb 15 0 = byteOf w 1 ++ byteOf w 0 := by
  apply BitVec.eq_of_getLsbD_eq
  intro i hi
  simp only [BitVec.getLsbD_append, BitVec.getLsbD_extract]
  by_cases h : i < 8
  · rw [if_pos h, getLsbD_byteOf _ _ h]
    simp
    omega
  · rw [if_neg h, getLsbD_byteOf _ _ (by omega)]
    simp [show 8 + (i - 8) = i by omega]
    omega

theorem byteOf_word (w : Word) : w = byteOf w 3 ++ byteOf w 2 ++ byteOf w 1 ++ byteOf w 0 := by
  apply BitVec.eq_of_getLsbD_eq
  intro i hi
  simp only [BitVec.getLsbD_append]
  by_cases h0 : i < 8
  · rw [if_pos h0, getLsbD_byteOf _ _ h0]
    simp
  rw [if_neg h0]
  by_cases h1 : i - 8 < 8
  · rw [if_pos h1, getLsbD_byteOf _ _ h1]
    congr 1
    omega
  rw [if_neg h1]
  by_cases h2 : i - 8 - 8 < 8
  · rw [if_pos h2, getLsbD_byteOf _ _ h2]
    congr 1
    omega
  rw [if_neg h2, getLsbD_byteOf _ _ (by omega)]
  congr 1
  omega

/-! ## Aligned accesses -/

section Aligned

variable {w : ℕ} {a : Word} {n : ℕ}

theorem four_dvd (hw : 2 ≤ w) : 4 ∣ 2 ^ w := by
  obtain ⟨k, rfl⟩ := Nat.exists_eq_add_of_le hw
  exact ⟨2 ^ k, by rw [Nat.pow_add]⟩

/-- An aligned access does not wrap: its bytes lie in one word of the array. -/
theorem index_eq (hw : 2 ≤ w) {j : ℕ} (fits : DeT.offsetOf a + j < 4) :
    ByteMem.index w a j = 4 * (a.toNat % 2 ^ w / 4) + (DeT.offsetOf a + j) := by
  have hoff : a.toNat % 2 ^ w % 4 = DeT.offsetOf a := Nat.mod_mod_of_dvd _ (four_dvd hw)
  have hsplit := Nat.div_add_mod (a.toNat % 2 ^ w) 4
  have hlt : 4 * (a.toNat % 2 ^ w / 4) + 4 ≤ 2 ^ w := by
    have := Nat.mod_lt a.toNat (Nat.two_pow_pos w)
    obtain ⟨m, hm⟩ := four_dvd hw
    omega
  rw [ByteMem.index, Nat.add_mod]
  have hj : j % 2 ^ w = j := Nat.mod_eq_of_lt (by omega)
  rw [hj, Nat.mod_eq_of_lt (by omega)]
  omega

theorem store_apply (m : ByteMem) (v : Word) (hw : 2 ≤ w) (fits : DeT.offsetOf a + n ≤ 4) (b : ℕ) :
    m.store w a v n b =
      if b / 4 = a.toNat % 2 ^ w / 4 ∧ DeT.offsetOf a ≤ b % 4 ∧ b % 4 < DeT.offsetOf a + n
      then byteOf v (b % 4 - DeT.offsetOf a) else m b := by
  induction n with
  | zero =>
    rw [ByteMem.store, if_neg]
    omega
  | succ n ih =>
    rw [ByteMem.store, Function.update_apply, index_eq hw (by omega), ih (by omega)]
    by_cases hb : b = 4 * (a.toNat % 2 ^ w / 4) + (DeT.offsetOf a + n)
    · rw [if_pos hb, if_pos (by omega)]
      congr 1
      omega
    · rw [if_neg hb]
      by_cases hin : b / 4 = a.toNat % 2 ^ w / 4 ∧ DeT.offsetOf a ≤ b % 4 ∧ b % 4 < DeT.offsetOf a + n
      · rw [if_pos hin, if_pos (by omega)]
      · rw [if_neg hin, if_neg (by omega)]

theorem byteOf_strobeWrite (old new : Word) (strb : BitVec 4) {k : ℕ} (hk : k < 4) :
    byteOf (@strobeWrite 4 old new strb) k = if strb.getLsbD k then byteOf new k else byteOf old k := by
  apply BitVec.eq_of_getLsbD_eq
  intro i hi
  rw [getLsbD_byteOf _ _ hi]
  have h := @getLsbD_strobeWrite 4 old new strb (8 * k + i) (by omega)
  rw [h, show (8 * k + i) / 8 = k by omega]
  split <;> rw [getLsbD_byteOf _ _ hi]

/-- A strobed write of an aligned store stores its bytes. -/
theorem bytesOf_write (mem : ℕ → Word) (v wdata : Word) (wstrb : BitVec 4) (hw : 2 ≤ w)
    (fits : DeT.offsetOf a + n ≤ 4)
    (strb : ∀ k, wstrb.getLsbD k = decide (DeT.offsetOf a ≤ k ∧ k < DeT.offsetOf a + n))
    (data : ∀ j < n, byteOf wdata (DeT.offsetOf a + j) = byteOf v j) :
    bytesOf (Function.update mem (wordAddr w 4 a) (@strobeWrite 4 (mem (wordAddr w 4 a)) wdata wstrb)) =
      (bytesOf mem).store w a v n := by
  funext b
  have hb : b % 4 < 4 := Nat.mod_lt _ (by decide)
  rw [store_apply _ _ hw fits, bytesOf, Function.update_apply, wordAddr]
  by_cases word : b / 4 = a.toNat % 2 ^ w / 4
  · rw [if_pos word, byteOf_strobeWrite _ _ _ hb, strb]
    by_cases lane : DeT.offsetOf a ≤ b % 4 ∧ b % 4 < DeT.offsetOf a + n
    · rw [if_pos (by simpa using lane), if_pos ⟨word, lane⟩, ← data _ (by omega)]
      congr 1
      omega
    · rw [if_neg (by simpa using lane), if_neg (by tauto), bytesOf, word]
  · rw [if_neg word, if_neg (by tauto), bytesOf]

/-- The extraction of an aligned load reads its bytes. -/
theorem loadData_eq {de : DeT} (mem : ℕ → Word) (hw : 2 ≤ w) (aligned : misalignedOf de.memSize a = false) :
    de.loadData (mem (wordAddr w 4 a)) a = loadValue de.memSize de.memUnsigned ((bytesOf mem).load w a) := by
  have fits := DeT.offset_add_bytes aligned
  have byte : ∀ j, DeT.offsetOf a + j < 4 →
      (bytesOf mem).load w a j = byteOf (mem (wordAddr w 4 a)) (DeT.offsetOf a + j) := by
    intro j hj
    have hlt : DeT.offsetOf a + j < 4 := hj
    rw [ByteMem.load, index_eq hw hj, bytesOf, wordAddr]
    congr 2
    · omega
    · omega
  have shift : DeT.loadShifted (mem (wordAddr w 4 a)) a = mem (wordAddr w 4 a) >>> (8 * DeT.offsetOf a) := by
    rw [DeT.loadShifted, BitVec.ushiftRight_eq', DeT.toNat_laneShift]
  unfold DeT.loadData loadValue
  cases size : de.memSize with
  | B =>
    simp only [size, MemSize.bytes] at fits
    simp only [shift, byteOf_zero, byteOf_shiftRight, byte 0 (by omega)]
  | H =>
    simp only [size, MemSize.bytes] at fits
    simp only [shift, byteOf_half, byteOf_shiftRight, byte 0 (by omega), byte 1 (by omega)]
  | W =>
    simp only [size, MemSize.bytes] at fits
    have zero : DeT.offsetOf a = 0 := by omega
    simp only [byte 0 (by omega), byte 1 (by omega), byte 2 (by omega), byte 3 (by omega), zero, Nat.zero_add]
    exact byteOf_word _

end Aligned

end YarvUc
