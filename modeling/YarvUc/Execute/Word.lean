import YarvUc.Clocked.Bits
import YarvUc.Decode.Class
import YarvUc.Execute.Arithmetic
import YarvUc.Rtl.ExecuteStage

/-!
# D/E words

What execute assumes of a valid word, as decode builds it: its enables are those of
one class, an illegal one asks for its exception, and a memory word forms its address
in one of two ways. The second half says what the address, the store lanes and the
load extraction come to in bytes.
-/

namespace YarvUc

/-- The two ways of an effective address: base + offset and Zilx indexed. -/
def Ctrl.Addressed (c : Ctrl) : Prop :=
  c.memRead || c.memWrite →
    c.aluOp = .ADD ∧ c.aluSrcA = .RS1 ∧ c.aluSrcB = .IMM ∨
      c.aluOp = .LX ∧ c.aluSrcA = .RS2 ∧ c.aluSrcB = .RS1 ∧ c.memWrite = false

theorem Ctrl.Addressed.ite {p : Prop} [Decidable p] {a b : Ctrl} (ha : a.Addressed) (hb : b.Addressed) :
    (if p then a else b).Addressed := by
  split
  · exact ha
  · exact hb

theorem addressed_uniform (w : Word) : (decodeUniform w).Addressed := by
  have none : ∀ {c : Ctrl}, (c.memRead || c.memWrite) = false → c.Addressed := fun h => by simp [Ctrl.Addressed, h]
  unfold decodeUniform
  refine .ite (none rfl) (.ite (none rfl) (.ite (none rfl) (.ite (.ite (none rfl) (none rfl)) ?_)))
  refine .ite ?branch (.ite ?load (.ite ?store (.ite ?opImm (.ite ?op (.ite ?amo (.ite ?system (.ite ?miscMem
    (none rfl))))))))
  case branch =>
    unfold decBranch
    repeat' split
    all_goals exact none rfl
  case load =>
    unfold decLoad
    repeat' split
    all_goals exact fun _ => .inl ⟨rfl, rfl, rfl⟩
  case store =>
    unfold decStore
    repeat' split
    all_goals exact fun _ => .inl ⟨rfl, rfl, rfl⟩
  case opImm =>
    unfold decOpImm
    repeat' split
    all_goals exact none rfl
  case op =>
    unfold decOp
    repeat' split
    all_goals exact none rfl
  case amo =>
    unfold decAmo
    split
    · exact fun _ => .inr ⟨rfl, rfl, rfl, rfl⟩
    · exact none rfl
  case system =>
    unfold decSystem
    repeat' split
    all_goals exact none rfl
  case miscMem =>
    unfold decMiscMem
    repeat' split
    all_goals exact none rfl

namespace DeT

/-- A word as decode builds it, of class `k`. -/
structure Is (de : DeT) (k : OpKind) : Prop where
  flags : de.flags = k.flags
  legal : de.illegal = true → de.exception = true
  addressed : de.isMemOp = true →
    de.aluOp = .ADD ∧ de.aluSrcA = .RS1 ∧ de.aluSrcB = .IMM ∨
      de.aluOp = .LX ∧ de.aluSrcA = .RS2 ∧ de.aluSrcB = .RS1 ∧ de.memWrite = false

/-- What a valid word of the D/E register is. -/
def Formed (de : DeT) : Prop := ∃ k, de.Is k

namespace Is

variable {de : DeT} {k : OpKind} (h : de.Is k)
include h

theorem exception : de.exception = k.flags.exc := congrArg OpFlags.exc h.flags
theorem regWrite : de.regWrite = k.flags.regWrite := congrArg OpFlags.regWrite h.flags
theorem memRead : de.memRead = k.flags.memRead := congrArg OpFlags.memRead h.flags
theorem memWrite : de.memWrite = k.flags.memWrite := congrArg OpFlags.memWrite h.flags
theorem isCsrOp : de.isCsrOp = k.flags.csrWren := congrArg OpFlags.csrWren h.flags
theorem csrOp : (de.csrOp != .NONE) = k.flags.csrOp := congrArg OpFlags.csrOp h.flags
theorem branch : (de.branchType != .NONE) = k.flags.branch := congrArg OpFlags.branch h.flags
theorem isDivOp : de.isDivOp = k.flags.div := congrArg OpFlags.div h.flags
theorem isWfiOp : de.isWfiOp = k.flags.wfi := congrArg OpFlags.wfi h.flags
theorem isMretOp : de.isMretOp = k.flags.mret := congrArg OpFlags.mret h.flags

theorem isMemOp : de.isMemOp = (k.flags.memRead || k.flags.memWrite) := by
  rw [DeT.isMemOp, h.memRead, h.memWrite]

theorem illegal : k ≠ .exc → de.illegal = false := by
  intro hk
  have := h.legal
  rw [h.exception] at this
  cases k <;> simp_all [OpKind.flags]

theorem wbSrc : k.flags.regWrite = true → de.wbSrc = k.flags.wb := by
  intro hw
  have := congrArg OpFlags.wb h.flags
  simpa [DeT.flags, h.regWrite, hw] using this

end Is

end DeT

/-- Decode builds formed words. -/
theorem DecCyc.formed_deD {d : DecCyc} (valid : d.decodedValid = true) : d.deD.Formed := by
  obtain ⟨k, hk⟩ := classified_deD valid
  refine ⟨k, hk, ?_, ?_⟩
  · simp only [DecCyc.deD, DecCyc.excReq, DecCyc.excIllegal]
    intro h
    simp [h]
  · intro hm
    have hill : d.ctrl.decIllegal = false := by
      cases hi : d.ctrl.decIllegal with
      | false => rfl
      | true => simp [DeT.isMemOp, DecCyc.deD, hi] at hm
    have := addressed_uniform d.src.instr32
    simp only [DeT.isMemOp, DecCyc.deD, hill, Bool.not_false, Bool.true_and] at hm ⊢
    exact this hm

/-! ## Addresses and lanes -/

/-- Byte `k` of a word. -/
def byteOf (w : Word) (k : ℕ) : BitVec 8 := w.extractLsb' (8 * k) 8

def MemSize.bytes : MemSize → ℕ
  | .B => 1
  | .H => 2
  | .W => 4

namespace DeT

variable {de : DeT}

/-- The architectural effective address: `rs2 + (rs1 << shamt)` of an indexed load, else `rs1 + imm`. -/
def effAddr (de : DeT) : Word :=
  if de.aluOp = .LX then de.rs2Data + de.rs1Data <<< de.memShamt else de.rs1Data + de.imm

theorem lsuEa_eq {k : OpKind} (is : de.Is k) (mem : de.isMemOp = true) : de.lsuEa = de.effAddr := by
  rcases is.addressed mem with ⟨op, a, b⟩ | ⟨op, a, b, -⟩
  · rw [lsuEa, AluIn.ea_eq (by rw [AluIn.opIsSub, show de.aluComb.aluOp = .ADD from op]; rfl)]
    have plain : de.aluComb.addendB = de.operandB := by
      rw [AluIn.addendB, AluIn.opIsSub, AluIn.opIsLx, show de.aluComb.aluOp = .ADD from op]
      rfl
    rw [plain]
    simp [aluComb, operandA, a, operandB, b, effAddr, op]
  · rw [lsuEa, AluIn.ea_eq (by rw [AluIn.opIsSub, show de.aluComb.aluOp = .LX from op]; rfl)]
    have scaled : de.aluComb.addendB = de.operandB <<< de.memShamt := by
      rw [AluIn.addendB, AluIn.opIsSub, AluIn.opIsLx, show de.aluComb.aluOp = .LX from op]
      rfl
    rw [scaled]
    simp [aluComb, operandA, a, operandB, b, effAddr, op]

/-- The byte offset of an address in its word. -/
abbrev offsetOf (a : Word) : ℕ := a.toNat % 4

/-- An aligned access lies in one word, at a multiple of its size. -/
theorem aligned_iff (size : MemSize) (a : Word) : misalignedOf size a = false ↔ a.toNat % size.bytes = 0 := by
  cases size with
  | B => simp [misalignedOf, MemSize.bytes, Nat.mod_one]
  | H =>
    rw [misalignedOf, BitVec.getLsbD_eq_div]
    simp [MemSize.bytes]
  | W =>
    rw [misalignedOf, bne_eq_false_iff_eq, ← BitVec.toNat_inj]
    simp [MemSize.bytes, BitVec.extractLsb_toNat]

/-- A store drives exactly its bytes, each with its byte of `rs2`. -/
structure Lanes (de : DeT) (wdata : Word) (wstrb : BitVec 4) : Prop where
  strb : ∀ k, wstrb.getLsbD k = decide (offsetOf de.effAddr ≤ k ∧ k < offsetOf de.effAddr + de.memSize.bytes)
  data : ∀ j < de.memSize.bytes, byteOf wdata (offsetOf de.effAddr + j) = byteOf de.rs2Data j

theorem offset_add_bytes {size : MemSize} {a : Word} (aligned : misalignedOf size a = false) :
    offsetOf a + size.bytes ≤ 4 := by
  rw [aligned_iff] at aligned
  unfold offsetOf
  cases size <;> simp only [MemSize.bytes] at aligned ⊢ <;> omega

theorem byteOf_shiftLeft (w : Word) {n j : ℕ} (fits : n + j < 4) : byteOf (w <<< (8 * n)) (n + j) = byteOf w j := by
  apply BitVec.eq_of_getLsbD_eq
  intro i hi
  simp only [byteOf, BitVec.getLsbD_extractLsb', hi, decide_true, Bool.true_and, BitVec.getLsbD_shiftLeft]
  have : 8 * (n + j) + i < 32 := by omega
  have h : ¬ 8 * (n + j) + i < 8 * n := by omega
  simp only [this, h, decide_true, decide_false, Bool.not_false, Bool.true_and]
  congr 1
  omega

/-- `8 *` the byte offset, as the source forms it. -/
theorem toNat_laneShift (a : Word) : (a.extractLsb 1 0 ++ 0b000#3).toNat = 8 * offsetOf a := by
  simp only [BitVec.toNat_append, BitVec.extractLsb_toNat, BitVec.toNat_ofNat]
  simp [Nat.shiftLeft_eq, offsetOf]
  omega

theorem storeWdata_byte (aligned : de.memMisalignedLive = false) {j : ℕ} (hj : j < de.memSize.bytes) :
    byteOf de.storeWdata (offsetOf de.lsuEa + j) = byteOf de.rs2Data j := by
  have fits := offset_add_bytes aligned
  rw [storeWdata, BitVec.shiftLeft_eq', toNat_laneShift]
  exact byteOf_shiftLeft _ (by omega)

/-- The strobe masks shifted to a lane. -/
theorem strobe_byte : ∀ n < 4, ∀ k < 4, (0b0001#4 <<< n).getLsbD k = decide (n ≤ k ∧ k < n + 1) := by decide
theorem strobe_half : ∀ n < 3, ∀ k < 4, (0b0011#4 <<< n).getLsbD k = decide (n ≤ k ∧ k < n + 2) := by decide
theorem strobe_word : ∀ k < 4, (0b1111#4).getLsbD k = decide (0 ≤ k ∧ k < 0 + 4) := by decide

theorem storeWstrb_bit (aligned : de.memMisalignedLive = false) (k : ℕ) :
    de.storeWstrb.getLsbD k = decide (offsetOf de.lsuEa ≤ k ∧ k < offsetOf de.lsuEa + de.memSize.bytes) := by
  have fits := offset_add_bytes aligned
  have aligned' := (aligned_iff _ _).mp aligned
  by_cases hk : k < 4
  · unfold storeWstrb
    cases size : de.memSize with
    | B =>
      have shift : (de.lsuEa.extractLsb 1 0).toNat = offsetOf de.lsuEa := by simp [BitVec.extractLsb_toNat]
      simp only [BitVec.shiftLeft_eq', shift]
      exact strobe_byte _ (Nat.mod_lt _ (by decide)) k hk
    | H =>
      simp only [size, MemSize.bytes] at fits aligned'
      have shift : (de.lsuEa.extractLsb 1 1 ++ 0b0#1).toNat = offsetOf de.lsuEa := by
        simp only [BitVec.toNat_append, BitVec.extractLsb_toNat, BitVec.toNat_ofNat]
        simp [Nat.shiftLeft_eq, Nat.shiftRight_eq_div_pow, offsetOf]
        omega
      simp only [BitVec.shiftLeft_eq', shift]
      exact strobe_half _ (by omega) k hk
    | W =>
      simp only [size, MemSize.bytes] at aligned'
      simp only [offsetOf, aligned']
      exact strobe_word k hk
  · rw [BitVec.getLsbD_of_ge _ _ (by omega)]
    simp
    omega

theorem lanes {k : OpKind} (is : de.Is k) (mem : de.isMemOp = true) (aligned : de.memMisalignedLive = false) :
    de.Lanes de.storeWdata de.storeWstrb := by
  constructor
  · intro k
    rw [← lsuEa_eq is mem]
    exact storeWstrb_bit aligned k
  · intro j hj
    rw [← lsuEa_eq is mem]
    exact storeWdata_byte aligned hj

end DeT

end YarvUc
