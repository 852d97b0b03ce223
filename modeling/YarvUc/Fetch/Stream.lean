import YarvUc.Rtl.FetchStage
import YarvUc.Rtl.NativeRam
import YarvUc.Clocked.Bits

/-!
# The instruction stream of an image

What fetch is for: from an address on, the aligned words of the image in address
order, each under its own address, the first one under the address itself; an
address outside the implemented memory gives a fault entry instead of data.
-/

namespace YarvUc

/-- What a buffer entry says, its predictions aside. -/
structure Entry where
  instr : Word
  pc : Word
  fault : Bool
deriving DecidableEq

def BufEntry.entry (b : BufEntry) : Entry := { instr := b.instr, pc := b.pc, fault := b.fault }

/-- The aligned 32-bit word of the image that contains the byte at `a`. -/
def imageWord (w : Nat) (image : Nat → BitVec 64) (a : Word) : Word :=
  let block := image (a.toNat % 2 ^ w / 8)
  if a.getLsbD 2 then block.extractLsb 63 32 else block.extractLsb 31 0

/-- The entry for `a`: the word containing it, or a fault when it is outside the memory. -/
def entryAt (w : Nat) (image : Nat → BitVec 64) (a : Word) : Entry :=
  if 2 ^ w ≤ a.toNat then { instr := 0, pc := a, fault := true }
  else { instr := imageWord w image a, pc := a, fault := false }

/-- The address of the entry behind the one at `a`: the next aligned word. Past the
end of the memory the stage reports one fault for each 8-byte block. -/
def nextAddr (w : Nat) (a : Word) : Word :=
  if 2 ^ w ≤ a.toNat then (a &&& ~~~7#32) + 8#32 else (a &&& ~~~3#32) + 4#32

/-- The address after `n` entries from `a`. -/
def addrAfter (w : Nat) (a : Word) : Nat → Word
  | 0 => a
  | n + 1 => addrAfter w (nextAddr w a) n

/-- The first `n` entries from `a`. -/
def stream (w : Nat) (image : Nat → BitVec 64) (a : Word) : Nat → List Entry
  | 0 => []
  | n + 1 => entryAt w image a :: stream w image (nextAddr w a) n

variable {w : Nat} {image : Nat → BitVec 64}

@[simp] theorem addrAfter_zero (a : Word) : addrAfter w a 0 = a := rfl

theorem addrAfter_add (a : Word) (m n : Nat) : addrAfter w a (m + n) = addrAfter w (addrAfter w a m) n := by
  induction m generalizing a with
  | zero => simp
  | succ m ih => rw [Nat.succ_add, addrAfter, ih, addrAfter]

@[simp] theorem addrAfter_one (a : Word) : addrAfter w a 1 = nextAddr w a := rfl

theorem stream_add (a : Word) (m n : Nat) :
    stream w image a (m + n) = stream w image a m ++ stream w image (addrAfter w a m) n := by
  induction m generalizing a with
  | zero => simp [stream]
  | succ m ih => rw [Nat.succ_add, stream, ih, stream, addrAfter, List.cons_append]

@[simp] theorem length_stream (a : Word) (n : Nat) : (stream w image a n).length = n := by
  induction n generalizing a with
  | zero => rfl
  | succ n ih => simp [stream, ih]

theorem drop_stream (a : Word) (m n : Nat) :
    (stream w image a n).drop m = stream w image (addrAfter w a m) (n - m) := by
  induction m generalizing a n with
  | zero => simp
  | succ m ih =>
    cases n with
    | zero => simp [stream]
    | succ n => rw [stream, List.drop_succ_cons, ih, addrAfter, Nat.add_sub_add_right]

theorem take_stream (a : Word) {m n : Nat} (le : m ≤ n) :
    (stream w image a n).take m = stream w image a m := by
  obtain ⟨k, rfl⟩ := Nat.exists_eq_add_of_le le
  rw [stream_add, List.take_left' (by simp)]

/-! ## Address arithmetic -/

theorem toNat_blockOf (a : Word) : (blockOf a).toNat = a.toNat / 8 * 8 := BitVec.toNat_and_not_lowMask a 3

theorem toNat_wordOf (a : Word) : (a &&& ~~~3#32).toNat = a.toNat / 4 * 4 := BitVec.toNat_and_not_lowMask a 2

theorem outsideImem_eq (w : Nat) (a : Word) : outsideImem w a = decide (2 ^ w ≤ a.toNat) := by
  have h := BitVec.ushiftRight_eq_zero_iff a w
  by_cases hz : a >>> w = 0#32
  · have : ¬ 2 ^ w ≤ a.toNat := by have := h.mp hz; omega
    simp [outsideImem, bne, hz, this]
  · have : 2 ^ w ≤ a.toNat := by by_contra hc; exact hz (h.mpr (by omega))
    simp [outsideImem, bne, hz, this]

theorem inside_iff {a : Word} : outsideImem w a = false ↔ ¬ 2 ^ w ≤ a.toNat := by
  rw [outsideImem_eq, decide_eq_false_iff_not]

theorem outside_iff {a : Word} : outsideImem w a = true ↔ 2 ^ w ≤ a.toNat := by
  rw [outsideImem_eq, decide_eq_true_eq]

theorem getLsbD_two_iff (a : Word) : a.getLsbD 2 = decide (a.toNat / 4 % 2 = 1) := BitVec.getLsbD_eq_div a 2

/-- In the upper word of a block the next entry is the next block. -/
theorem nextAddr_upper {a : Word} (upper : a.getLsbD 2 = true) : nextAddr w a = nextBlock a := by
  unfold nextAddr
  split
  · rfl
  · rw [getLsbD_two_iff, decide_eq_true_eq] at upper
    apply BitVec.eq_of_toNat_eq
    simp only [nextBlock, BitVec.toNat_add, toNat_blockOf, toNat_wordOf, BitVec.toNat_ofNat]
    omega

/-- In the lower word it is the upper word of the same block, and then the next block. -/
theorem nextAddr_lower {a : Word} (inside : outsideImem w a = false) (lower : a.getLsbD 2 = false) :
    nextAddr w a = blockOf a + 4#32 := by
  rw [nextAddr, if_neg (inside_iff.mp inside)]
  rw [getLsbD_two_iff, decide_eq_false_iff_not] at lower
  apply BitVec.eq_of_toNat_eq
  simp only [BitVec.toNat_add, toNat_blockOf, toNat_wordOf, BitVec.toNat_ofNat]
  omega

theorem toNat_upperOf (a : Word) : (blockOf a + 4#32).toNat = a.toNat / 8 * 8 + 4 := by
  have := a.isLt
  rw [BitVec.toNat_add, toNat_blockOf]
  simp only [BitVec.toNat_ofNat]
  omega

theorem upperOf_getLsbD (a : Word) : (blockOf a + 4#32).getLsbD 2 = true := by
  rw [getLsbD_two_iff, toNat_upperOf, decide_eq_true_eq]
  omega

theorem nextBlock_upperOf (a : Word) : nextBlock (blockOf a + 4#32) = nextBlock a := by
  apply BitVec.eq_of_toNat_eq
  simp only [nextBlock, BitVec.toNat_add, toNat_blockOf, BitVec.toNat_ofNat]
  have := a.isLt
  omega

theorem blockOf_nextBlock (a : Word) : blockOf (nextBlock a) = nextBlock a := by
  apply BitVec.eq_of_toNat_eq
  simp only [nextBlock, BitVec.toNat_add, toNat_blockOf, BitVec.toNat_ofNat]
  have := a.isLt
  omega

theorem two_pow_eq_eight_mul (lower : 3 < w) : 2 ^ w = 8 * 2 ^ (w - 3) := by
  rw [show (8 : Nat) = 2 ^ 3 from rfl, ← pow_add, Nat.add_sub_cancel' (by omega)]

/-- A block lies inside the memory or outside it as a whole. -/
theorem outsideImem_upperOf (lower : 3 < w) (a : Word) : outsideImem w (blockOf a + 4#32) = outsideImem w a := by
  simp only [outsideImem_eq, toNat_upperOf, two_pow_eq_eight_mul lower]
  congr 1
  apply propext
  omega

theorem wordAddr_block (lower : 3 < w) (a : Word) : wordAddr w 8 a = a.toNat / 8 % 2 ^ (w - 3) := by
  rw [wordAddr, two_pow_eq_eight_mul lower, Nat.mod_mul_right_div_self]

theorem wordAddr_upperOf (lower : 3 < w) (a : Word) : wordAddr w 8 (blockOf a + 4#32) = wordAddr w 8 a := by
  rw [wordAddr_block lower, wordAddr_block lower, toNat_upperOf]
  congr 1
  omega

/-- The two entries of an in-range block, from its lower word. -/
theorem stream_lower (lower : 3 < w) {a : Word} (inside : outsideImem w a = false) (low : a.getLsbD 2 = false) :
    stream w image a 2 =
      [{ instr := (image (wordAddr w 8 a)).extractLsb 31 0, pc := a, fault := false },
       { instr := (image (wordAddr w 8 a)).extractLsb 63 32, pc := blockOf a + 4#32, fault := false }] := by
  rw [stream, stream, stream, nextAddr_lower inside low]
  have inside' : outsideImem w (blockOf a + 4#32) = false := (outsideImem_upperOf lower a).trans inside
  have block : image (wordAddr w 8 (blockOf a + 4#32)) = image (wordAddr w 8 a) := by rw [wordAddr_upperOf lower]
  rw [wordAddr] at block
  simp only [entryAt, if_neg (inside_iff.mp inside), if_neg (inside_iff.mp inside'), imageWord, low, upperOf_getLsbD,
    block]
  rfl

theorem addrAfter_lower {a : Word} (inside : outsideImem w a = false) (low : a.getLsbD 2 = false) :
    addrAfter w a 2 = nextBlock a := by
  rw [addrAfter, addrAfter_one, nextAddr_lower inside low, nextAddr_upper (upperOf_getLsbD a), nextBlock_upperOf]

/-- The one entry of an in-range block, from its upper word. -/
theorem entryAt_upper {a : Word} (inside : outsideImem w a = false) (up : a.getLsbD 2 = true) :
    entryAt w image a = { instr := (image (wordAddr w 8 a)).extractLsb 63 32, pc := a, fault := false } := by
  rw [entryAt, if_neg (inside_iff.mp inside), imageWord, up]
  rfl

theorem entryAt_outside {a : Word} (outside : outsideImem w a = true) :
    entryAt w image a = { instr := 0, pc := a, fault := true } := by
  rw [entryAt, if_pos (outside_iff.mp outside)]

theorem nextAddr_outside {a : Word} (outside : outsideImem w a = true) : nextAddr w a = nextBlock a := by
  rw [nextAddr, if_pos (outside_iff.mp outside)]

end YarvUc
