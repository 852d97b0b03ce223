import Mathlib.Tactic.IntervalCases
import YarvUc.Decode.Predict
import YarvUc.Sequential.Rvc

/-!
# Compressed expansion preserves meaning

`c_expand` packs a halfword's immediate into a 32-bit encoding and the uniform decoder
unpacks it. For each format the built word's controls are computed once; the effect of the
D/E word is then the effect the C extension gives the halfword.
-/

namespace YarvUc

/-! ## The ALU's plain operations -/

/-- The operations of one cycle that the compressed instructions use. -/
def AluOp.plain (op : AluOp) (a b : Word) : Word :=
  match op with
  | .ADD => a + b
  | .SUB => a - b
  | .SLL => a <<< (b.extractLsb 4 0).toNat
  | .SRL => a >>> (b.extractLsb 4 0).toNat
  | .SRA => a.sshiftRight (b.extractLsb 4 0).toNat
  | .XOR => a ^^^ b
  | .OR => a ||| b
  | .AND => a &&& b
  | _ => 0

def AluOp.isPlain (op : AluOp) : Bool :=
  match op with
  | .ADD | .SUB | .SLL | .SRL | .SRA | .XOR | .OR | .AND => true
  | _ => false

namespace AluQ

variable {q : AluQ} {i : AluIn} {shared : Bool}

theorem result_plain (plain : i.aluOp.isPlain = true) : q.result i shared = i.aluOp.plain i.operandA i.operandB := by
  unfold result AluIn.isMulOp AluIn.selAdder AluIn.isDivOp AluIn.selCmp AluIn.opIsLx AluIn.logicShiftResult
  cases op : i.aluOp <;> rw [op] at plain
  case ADD => exact AluIn.adderSum_add op
  case SUB => exact AluIn.adderSum_sub (by rw [AluIn.opIsSub, op]; rfl)
  all_goals first
    | rfl
    | cases plain

end AluQ

namespace DeT

variable {p : Params} {m : DmemParams} {peri : PeriMem} {s : Arch} {de : DeT}

theorem value_plain (plain : de.aluOp.isPlain = true) (src : de.wbSrc = .ALU) :
    de.value p m peri s = de.aluOp.plain de.operandA de.operandB := by
  have notDiv : de.isDivOp = false := by
    rw [isDivOp]
    cases op : de.aluOp <;> rw [op] at plain <;> first | rfl | cases plain
  rw [value, src, aluValue, notDiv]
  exact AluQ.result_plain plain

end DeT

/-! ## Effects by controls -/

section Effects

variable {p : Params} {m : DmemParams} {peri : PeriMem} {s : Arch} {w : Word}

/-- The effect of the word `w` at the PC, with the length of a halfword. -/
def Arch.expanded (p : Params) (m : DmemParams) (peri : PeriMem) (s : Arch) (w : Word) : Effect :=
  (decodeWord s.rf.read s.pc w true).effect p m peri s

/-- A legal word that neither asks for an exception nor accesses memory, CSRs or the trap unit. -/
structure Ctrl.Plain (c : Ctrl) : Prop where
  legal : c.decIllegal = false
  exc : c.excReq = false
  read : c.memRead = false
  write : c.memWrite = false
  sys : c.sysOp = .NONE
  csr : c.csrOp = .NONE

theorem expanded_plain (plain : (decodeUniform w).Plain) :
    s.expanded p m peri w = .retire (decodeWord s.rf.read s.pc w true).nextPc
      (if (decodeUniform w).regWrite && rdField w != 0 then
        some (rdField w, (decodeWord s.rf.read s.pc w true).value p m peri s) else none) none none := by
  have fault : (decodeWord s.rf.read s.pc w true).fault = none := by
    simp [DeT.fault, decodeWord, plain.legal, plain.exc, DeT.isMemOp, plain.read, plain.write]
  have mret : (decodeWord s.rf.read s.pc w true).isMretOp = false := by
    simp [DeT.isMretOp, decodeWord, plain.sys]
  have csr : ∀ v, (decodeWord s.rf.read s.pc w true).csrWrite v = none := fun v => by
    simp [DeT.csrWrite, decodeWord, plain.csr]
  have write : (decodeWord s.rf.read s.pc w true).memWrite = false := by simp [decodeWord, plain.write]
  have regWrite : (decodeWord s.rf.read s.pc w true).regWrite = (decodeUniform w).regWrite := by
    simp [decodeWord, plain.legal]
  rw [Arch.expanded, DeT.effect, fault]
  simp only [mret, csr, write, regWrite]
  rfl

theorem nextPc_plain (plain : (decodeUniform w).branchType = .NONE) :
    (decodeWord s.rf.read s.pc w true).nextPc = s.pc + 2 := by
  simp [DeT.nextPc, DeT.branchTaken, decodeWord, plain, DeT.pcLink]

theorem writes_eq (rd : BitVec 5) (v : Word) :
    Rvc.writes s rd v = .retire (s.pc + 2) (if true && rd != 0 then some (rd, v) else none) none none := by
  by_cases zero : rd = 0#5 <;> simp [Rvc.writes, zero]

theorem expanded_imm {op : AluOp} {imm : Word} {uses : Bool}
    (ctrl : decodeUniform w = { regWrite := true, aluOp := op, aluSrcA := .RS1, aluSrcB := .IMM, imm := imm,
                                usesRs1 := uses, decIllegal := false })
    (plain : op.isPlain = true) :
    s.expanded p m peri w = Rvc.writes s (rdField w) (op.plain (s.x (if uses then rs1Field w else 0)) imm) := by
  have value : (decodeWord s.rf.read s.pc w true).value p m peri s =
      op.plain (s.x (if uses then rs1Field w else 0)) imm := by
    rw [DeT.value_plain (by simpa [decodeWord, ctrl] using plain) (by simp [decodeWord, ctrl])]
    simp only [decodeWord, ctrl, DeT.operandA, DeT.operandB, rs1AddrDec]
  rw [expanded_plain (by rw [ctrl]; exact ⟨rfl, rfl, rfl, rfl, rfl, rfl⟩), value, nextPc_plain (by rw [ctrl]),
    writes_eq, ctrl]

theorem expanded_reg {op : AluOp}
    (ctrl : decodeUniform w = { regWrite := true, aluOp := op, aluSrcA := .RS1, aluSrcB := .RS2, usesRs1 := true,
                                usesRs2 := true, decIllegal := false })
    (plain : op.isPlain = true) :
    s.expanded p m peri w = Rvc.writes s (rdField w) (op.plain (s.x (rs1Field w)) (s.x (rs2Field w))) := by
  have value : (decodeWord s.rf.read s.pc w true).value p m peri s =
      op.plain (s.x (rs1Field w)) (s.x (rs2Field w)) := by
    rw [DeT.value_plain (by simpa [decodeWord, ctrl] using plain) (by simp [decodeWord, ctrl])]
    simp only [decodeWord, ctrl, DeT.operandA, DeT.operandB, rs1AddrDec, rs2AddrDec, if_true]
  rw [expanded_plain (by rw [ctrl]; exact ⟨rfl, rfl, rfl, rfl, rfl, rfl⟩), value, nextPc_plain (by rw [ctrl]),
    writes_eq, ctrl]

/-! ## Effects of built words -/

theorem getLsbD_funct7 (w : Word) : (funct7Of w).getLsbD 5 = w.getLsbD 30 := by simp

/-- The register-immediate instructions with a compressed form, by `funct3` and `imm[11:5]`. -/
inductive OpImmRow : BitVec 3 → BitVec 7 → AluOp → Prop
  | addi {f7 : BitVec 7} : OpImmRow 0b000#3 f7 .ADD
  | andi {f7 : BitVec 7} : OpImmRow 0b111#3 f7 .AND
  | slli : OpImmRow 0b001#3 0b0000000#7 .SLL
  | srli : OpImmRow 0b101#3 0b0000000#7 .SRL
  | srai : OpImmRow 0b101#3 0b0100000#7 .SRA

/-- The register-register ones. -/
inductive OpRow : BitVec 3 → BitVec 7 → AluOp → Prop
  | add : OpRow 0b000#3 0b0000000#7 .ADD
  | sub : OpRow 0b000#3 0b0100000#7 .SUB
  | xor : OpRow 0b100#3 0b0000000#7 .XOR
  | or : OpRow 0b110#3 0b0000000#7 .OR
  | and : OpRow 0b111#3 0b0000000#7 .AND

theorem expanded_opImm {f3 : BitVec 3} {f7 : BitVec 7} {op : AluOp} {rd rs1 : BitVec 5} {off : Word}
    (row : OpImmRow f3 f7 op) (high : off.extractLsb 11 5 = f7) (fits : Fits 12 off) :
    s.expanded p m peri (mkI OPC_OP_IMM rd rs1 f3 off) = Rvc.writes s rd (op.plain (s.x rs1) off) := by
  obtain ⟨opcode, funct3, funct7⟩ := fields_mkI OPC_OP_IMM rd rs1 f3 off
  rw [high] at funct7
  have bit : (mkI OPC_OP_IMM rd rs1 f3 off).getLsbD 30 = f7.getLsbD 5 := by rw [← getLsbD_funct7, funct7]
  have case : decodeUniform (mkI OPC_OP_IMM rd rs1 f3 off) = decOpImm (mkI OPC_OP_IMM rd rs1 f3 off) := by
    rw [decodeUniform, opcode]
    rfl
  have ctrl : decodeUniform (mkI OPC_OP_IMM rd rs1 f3 off) =
      { regWrite := true, aluOp := op, aluSrcA := .RS1, aluSrcB := .IMM, imm := off, usesRs1 := true,
        decIllegal := false } := by
    rw [case, decOpImm, funct3, funct7, bit, immI_mkI _ _ _ _ fits]
    cases row <;> rfl
  rw [expanded_imm ctrl (by cases row <;> rfl), (regs_mkI _ _ _ _ _).1, (regs_mkI _ _ _ _ _).2]
  rfl

theorem expanded_op {f3 : BitVec 3} {f7 : BitVec 7} {op : AluOp} {rd rs1 rs2 : BitVec 5} (row : OpRow f3 f7 op) :
    s.expanded p m peri (mkR OPC_OP rd rs1 rs2 f3 f7) = Rvc.writes s rd (op.plain (s.x rs1) (s.x rs2)) := by
  obtain ⟨opcode, funct3, funct7⟩ := fields_mkR OPC_OP rd rs1 rs2 f3 f7
  obtain ⟨rd', rs1', rs2'⟩ := regs_mkR OPC_OP rd rs1 rs2 f3 f7
  have bit := getLsbD_funct7 (mkR OPC_OP rd rs1 rs2 f3 f7)
  rw [funct7] at bit
  have case : decodeUniform (mkR OPC_OP rd rs1 rs2 f3 f7) = decOp (mkR OPC_OP rd rs1 rs2 f3 f7) := by
    rw [decodeUniform, opcode]
    rfl
  have ctrl : decodeUniform (mkR OPC_OP rd rs1 rs2 f3 f7) =
      { regWrite := true, aluOp := op, aluSrcA := .RS1, aluSrcB := .RS2, usesRs1 := true, usesRs2 := true,
        decIllegal := false } := by
    rw [case, decOp, isMExt, opcode, funct3, funct7, ← bit]
    cases row <;> rfl
  rw [expanded_reg ctrl (by cases row <;> rfl), rd', rs1', rs2']

theorem expanded_lui {rd : BitVec 5} {off : Word} (low : off.extractLsb 11 0 = 0#12) :
    s.expanded p m peri (mkU OPC_LUI rd off) = Rvc.writes s rd off := by
  have ctrl : decodeUniform (mkU OPC_LUI rd off) =
      { regWrite := true, aluOp := .ADD, aluSrcA := .RS1, aluSrcB := .IMM, imm := off, usesRs1 := false,
        decIllegal := false } := by
    rw [decodeUniform, fields_mkU, immU_mkU _ _ low]
    rfl
  rw [expanded_imm ctrl rfl, rd_mkU]
  simp [AluOp.plain, RegFile.read]

theorem expanded_jal {rd : BitVec 5} {off : Word} (fits : Fits 21 off) (even : off.getLsbD 0 = false) :
    s.expanded p m peri (mkJ OPC_JAL rd off) = Rvc.goes s (s.pc + off) rd := by
  have ctrl : decodeUniform (mkJ OPC_JAL rd off) =
      { regWrite := true, aluSrcA := .PC, aluSrcB := .IMM, wbSrc := .PC4, branchType := .JAL, imm := off,
        decIllegal := false } := by
    rw [decodeUniform, fields_mkJ, immJ_mkJ _ _ fits even]
    rfl
  rw [expanded_plain (by rw [ctrl]; exact ⟨rfl, rfl, rfl, rfl, rfl, rfl⟩), rd_mkJ]
  simp [ctrl, decodeWord, DeT.nextPc, DeT.branchTaken, DeT.branchTarget, DeT.value, DeT.pcLink, Rvc.goes]

theorem expanded_jalr {rd rs1 : BitVec 5} :
    s.expanded p m peri (mkI OPC_JALR rd rs1 0b000#3 0#32) = Rvc.goes s (s.x rs1 &&& ~~~1) rd := by
  have ctrl : decodeUniform (mkI OPC_JALR rd rs1 0b000#3 0#32) =
      { regWrite := true, aluSrcA := .RS1, aluSrcB := .IMM, wbSrc := .PC4, branchType := .JALR, usesRs1 := true,
        imm := 0#32, decIllegal := false } := by
    rw [decodeUniform, (fields_mkI _ _ _ _ _).1, (fields_mkI _ _ _ _ _).2.1, immI_mkI _ _ _ _ (by rfl)]
    rfl
  obtain ⟨rd', rs1'⟩ := regs_mkI OPC_JALR rd rs1 0b000#3 0#32
  rw [expanded_plain (by rw [ctrl]; exact ⟨rfl, rfl, rfl, rfl, rfl, rfl⟩), rd']
  simp [ctrl, decodeWord, DeT.nextPc, DeT.branchTaken, DeT.branchTarget, DeT.value, DeT.pcLink, Rvc.goes, rs1AddrDec,
    rs1']

theorem expanded_branch {f3 : BitVec 3} {kind : Branch} {rs1 : BitVec 5} {off : Word}
    (row : (f3, kind) = (0b000#3, Branch.BEQ) ∨ (f3, kind) = (0b001#3, Branch.BNE)) (fits : Fits 13 off)
    (even : off.getLsbD 0 = false) :
    s.expanded p m peri (mkB OPC_BRANCH rs1 0#5 f3 off) =
      Rvc.goes s (if (s.x rs1 = 0) = (kind = .BEQ) then s.pc + off else s.pc + 2) 0 := by
  have ctrl : decodeUniform (mkB OPC_BRANCH rs1 0#5 f3 off) =
      { aluOp := .SUB, aluSrcA := .RS1, aluSrcB := .RS2, usesRs1 := true, usesRs2 := true, imm := off,
        branchType := kind, decIllegal := false } := by
    rw [decode_branch (fields_mkB _ _ _ _ _).1, decBranch, (fields_mkB _ _ _ _ _).2, immB_mkB _ _ _ _ fits even]
    simp only [Prod.mk.injEq] at row
    rcases row with ⟨rfl, rfl⟩ | ⟨rfl, rfl⟩ <;> rfl
  obtain ⟨rs1', rs2'⟩ := regs_mkB OPC_BRANCH rs1 0#5 f3 off
  have zero : s.rf.read 0#5 = 0 := rfl
  simp only [Prod.mk.injEq] at row
  rw [expanded_plain (by rw [ctrl]; exact ⟨rfl, rfl, rfl, rfl, rfl, rfl⟩)]
  rcases row with ⟨-, rfl⟩ | ⟨-, rfl⟩ <;>
    simp [ctrl, decodeWord, DeT.nextPc, DeT.branchTaken, DeT.branchTarget, DeT.pcLink, Rvc.goes, rs1AddrDec,
      rs2AddrDec, rs1', rs2', zero]

theorem sum_ea {de : DeT} (op : de.aluOp = .ADD) (a : de.aluSrcA = .RS1) (b : de.aluSrcB = .IMM) :
    de.lsuEa = de.rs1Data + de.imm := by
  have add : de.aluComb.aluOp = .ADD := op
  have sum := AluIn.adderSum_add add
  rw [DeT.lsuEa, AluIn.ea, sum]
  simp [DeT.aluComb, DeT.operandA, DeT.operandB, a, b]

theorem misaligned_word {de : DeT} (size : de.memSize = .W) :
    de.memMisalignedLive = !decide (de.lsuEa.toNat % 4 = 0) := by
  have aligned := DeT.aligned_iff .W de.lsuEa
  rw [DeT.memMisalignedLive, size]
  cases mis : misalignedOf .W de.lsuEa with
  | true => simpa [mis, MemSize.bytes] using aligned
  | false => simpa [mis, MemSize.bytes] using aligned

/-- The effects of a word load and a word store in D/E. -/
theorem effect_lw {de : DeT} {a : Word} {rd : BitVec 5} (ea : de.lsuEa = a) (dest : de.rd = rd)
    (exc : de.exception = false) (read : de.memRead = true) (write : de.memWrite = false) (size : de.memSize = .W)
    (src : de.wbSrc = .MEM) (regWrite : de.regWrite = true) (mret : de.isMretOp = false) (csr : de.csrOp = .NONE)
    (next : de.nextPc = s.pc + 2) : de.effect p m peri s = Rvc.loadsWord m peri s rd a := by
  subst ea dest
  have mem : de.isMemOp = true := by rw [DeT.isMemOp, read, Bool.true_or]
  have value : de.value p m peri s = Rvc.wordAt m peri s de.lsuEa := by
    simp only [DeT.value, src, DeT.loaded, DeT.loadData, loadValue, size, Rvc.wordAt]
    rfl
  have none : ∀ v, de.csrWrite v = none := fun v => by simp [DeT.csrWrite, csr]
  rw [DeT.effect, DeT.fault, exc, mem, misaligned_word size, Rvc.loadsWord, writes_eq]
  by_cases aligned : de.lsuEa.toNat % 4 = 0
  · simp [aligned, mret, value, none, next, regWrite, write]
  · simp [aligned, write]

theorem effect_sw {de : DeT} {a v : Word} (ea : de.lsuEa = a) (data : de.rs2Data = v) (exc : de.exception = false)
    (write : de.memWrite = true) (size : de.memSize = .W) (regWrite : de.regWrite = false) (mret : de.isMretOp = false)
    (csr : de.csrOp = .NONE) (next : de.nextPc = s.pc + 2) : de.effect p m peri s = Rvc.storesWord s a v := by
  subst ea data
  have mem : de.isMemOp = true := by rw [DeT.isMemOp, write, Bool.or_true]
  have none : ∀ v, de.csrWrite v = none := fun v => by simp [DeT.csrWrite, csr]
  rw [DeT.effect, DeT.fault, exc, mem, misaligned_word size, Rvc.storesWord]
  by_cases aligned : de.lsuEa.toNat % 4 = 0
  · simp [aligned, mret, none, next, regWrite, write, size]
  · simp [aligned, write]

theorem expanded_lw {rd rs1 : BitVec 5} {off : Word} (fits : Fits 12 off) :
    s.expanded p m peri (mkI OPC_LOAD rd rs1 0b010#3 off) = Rvc.loadsWord m peri s rd (s.x rs1 + off) := by
  have ctrl : decodeUniform (mkI OPC_LOAD rd rs1 0b010#3 off) =
      { regWrite := true, aluOp := .ADD, aluSrcA := .RS1, aluSrcB := .IMM, wbSrc := .MEM, memRead := true,
        usesRs1 := true, imm := off, memSize := .W, memUnsigned := false, decIllegal := false } := by
    have case : decodeUniform (mkI OPC_LOAD rd rs1 0b010#3 off) = decLoad (mkI OPC_LOAD rd rs1 0b010#3 off) := by
      rw [decodeUniform, (fields_mkI _ _ _ _ _).1]
      rfl
    rw [case, decLoad, (fields_mkI _ _ _ _ _).2.1, immI_mkI _ _ _ _ fits]
    rfl
  obtain ⟨rd', rs1'⟩ := regs_mkI OPC_LOAD rd rs1 0b010#3 off
  have ea : (decodeWord s.rf.read s.pc (mkI OPC_LOAD rd rs1 0b010#3 off) true).lsuEa = s.x rs1 + off := by
    rw [sum_ea (by simp [decodeWord, ctrl]) (by simp [decodeWord, ctrl]) (by simp [decodeWord, ctrl])]
    simp [decodeWord, ctrl, rs1AddrDec, rs1']
  refine effect_lw ea rd' ?_ ?_ ?_ ?_ ?_ ?_ ?_ ?_ (nextPc_plain (by rw [ctrl])) <;>
    simp [decodeWord, DeT.isMretOp, ctrl]

theorem expanded_sw {rs1 rs2 : BitVec 5} {off : Word} (fits : Fits 12 off) :
    s.expanded p m peri (mkS OPC_STORE rs1 rs2 0b010#3 off) = Rvc.storesWord s (s.x rs1 + off) (s.x rs2) := by
  have ctrl : decodeUniform (mkS OPC_STORE rs1 rs2 0b010#3 off) =
      { aluOp := .ADD, aluSrcA := .RS1, aluSrcB := .IMM, memWrite := true, usesRs1 := true, usesRs2 := true,
        imm := off, memSize := .W, decIllegal := false } := by
    have case : decodeUniform (mkS OPC_STORE rs1 rs2 0b010#3 off) = decStore (mkS OPC_STORE rs1 rs2 0b010#3 off) := by
      rw [decodeUniform, (fields_mkS _ _ _ _ _).1]
      rfl
    rw [case, decStore, (fields_mkS _ _ _ _ _).2, immS_mkS _ _ _ _ fits]
    rfl
  obtain ⟨rs1', rs2'⟩ := regs_mkS OPC_STORE rs1 rs2 0b010#3 off
  have ea : (decodeWord s.rf.read s.pc (mkS OPC_STORE rs1 rs2 0b010#3 off) true).lsuEa = s.x rs1 + off := by
    rw [sum_ea (by simp [decodeWord, ctrl]) (by simp [decodeWord, ctrl]) (by simp [decodeWord, ctrl])]
    simp [decodeWord, ctrl, rs1AddrDec, rs1']
  have data : (decodeWord s.rf.read s.pc (mkS OPC_STORE rs1 rs2 0b010#3 off) true).rs2Data = s.x rs2 := by
    simp [decodeWord, ctrl, rs2AddrDec, rs2']
  refine effect_sw ea data ?_ ?_ ?_ ?_ ?_ ?_ (nextPc_plain (by rw [ctrl])) <;> simp [decodeWord, DeT.isMretOp, ctrl]

theorem expanded_ebreak : s.expanded p m peri (mkI OPC_SYSTEM 0 0 0b000#3 1) = .trap MCAUSE_BREAKPOINT 0 := rfl

end Effects

/-! ## Immediates -/

namespace Rvc

theorem popular_eq (bits : BitVec 3) : popular bits = 0b01#2 ++ bits := by
  revert bits
  decide

theorem getLsbD_placed_nil (n top i : ℕ) : (placed n c top []).getLsbD i = false := by
  rw [placed, BitVec.ofNat_eq_ofNat, BitVec.getLsbD_zero]

theorem getLsbD_placed_cons (n top place : ℕ) (places : List ℕ) (i : ℕ) :
    (placed n c top (place :: places)).getLsbD i =
      (decide (place = i) && decide (i < n) && c.getLsbD top || (placed n c (top - 1) places).getLsbD i) := by
  rw [placed, BitVec.getLsbD_or]
  cases c.getLsbD top with
  | false => simp
  | true =>
    rw [if_pos rfl, BitVec.getLsbD_twoPow, Bool.and_true]
    congr 1
    by_cases h : place = i <;> simp [h]

/-- Every immediate `c_expand` puts together has its bits where the extension has them. -/
structure Places (c : BitVec 16) : Prop where
  ciw : immCIW c = (cNzSpn c).setWidth 32
  cl : immCL c = (cLwOff c).setWidth 32
  ci : immCI c = (cImm6 c).signExtend 32
  lui : immLui c = (cImm6 c ++ 0#12).signExtend 32
  addi16sp : imm16sp c = (cNz16 c).signExtend 32
  lwsp : immLwsp c = (cLwspOff c).setWidth 32
  css : immCSS c = (cSwspOff c).setWidth 32
  cb : immCB c = (cBOff c).signExtend 32
  cj : immCJ c = (cJOff c).signExtend 32
  shamt : shamt c = (c.extractLsb 6 2).toNat

theorem places (c : BitVec 16) : Places c := by
  constructor
  all_goals
    simp only [immCIW, immCL, immCI, immLui, imm16sp, immLwsp, immCSS, immCB, immCJ, shamt]
    refine congrArg _ ?_
    apply BitVec.eq_of_getLsbD_eq
    intro i hi
    simp only [BitVec.getLsbD_or, getLsbD_placed_cons, getLsbD_placed_nil, BitVec.getLsbD_append,
      BitVec.getLsbD_extractLsb]
    interval_cases i <;> simp

end Rvc

/-! ## The quadrants -/

section Quadrants

variable {p : Params} {m : DmemParams} {peri : PeriMem} {s : Arch} {c : BitVec 16}

/-! What the offsets `c_expand` builds satisfy. -/

theorem fits_of_lt {off : Word} (small : off.toNat < 2 ^ 11) : Fits 12 off := by
  have same : off = (off.setWidth 11).setWidth 32 := by
    apply BitVec.eq_of_toNat_eq
    rw [BitVec.toNat_setWidth, BitVec.toNat_setWidth]
    omega
  rw [same]
  exact fits_setWidth _ (by decide) (by decide)

theorem toNat_srai (shamt : BitVec 5) : (0#20 ++ 0b0100000#7 ++ shamt).toNat = 1024 + shamt.toNat := by
  rw [BitVec.toNat_append_eq]
  rfl

theorem even_joff : ((cJOff c).signExtend 32).getLsbD 0 = false := by
  rw [getLsbD_zero_signExtend _ (by decide), BitVec.getLsbD_append]
  rfl

theorem even_boff : ((cBOff c).signExtend 32).getLsbD 0 = false := by
  rw [getLsbD_zero_signExtend _ (by decide), BitVec.getLsbD_append]
  rfl

theorem low_lui (imm : BitVec 6) : ((imm ++ 0#12).signExtend 32).extractLsb 11 0 = 0#12 := by
  apply BitVec.eq_of_getLsbD_eq
  intro i hi
  rw [BitVec.getLsbD_extractLsb, BitVec.getLsbD_signExtend, BitVec.getLsbD_append]
  simp [hi, show i < 18 by omega]

theorem low_shamt (x : BitVec 5) : ((x.setWidth 32).extractLsb 4 0).toNat = x.toNat := by
  simp only [BitVec.extractLsb_toNat, BitVec.toNat_setWidth, Nat.shiftRight_eq_div_pow]
  omega

theorem low_srai (x : BitVec 5) : ((0#20 ++ 0b0100000#7 ++ x).extractLsb 4 0).toNat = x.toNat := by
  rw [BitVec.extractLsb_toNat, toNat_srai, Nat.shiftRight_eq_div_pow]
  omega

theorem expanded_quad0 (q : c.extractLsb 1 0 = 0b00#2) (legal : legal16 c = true) :
    s.expanded p m peri (cExpand c) = (rvcOf c).effect m peri s := by
  have expand : cExpand c = cQuad0 c := by rw [cExpand, if_pos q]
  simp only [legal16, rvc, CPattern.covers, q, List.any_cons, List.any_nil] at legal
  rw [expand, cQuad0, rvcOf, if_pos q]
  simp only [Rvc.popular_eq, (Rvc.places c).ciw, (Rvc.places c).cl]
  rcases funct3_cases (cF3 c) with h | h | h | h | h | h | h | h
  case inl =>
    have nonzero : cNzSpn c ≠ 0 := by simpa [h] using legal
    simp only [h, if_true, if_pos nonzero]
    exact expanded_opImm .addi rfl (fits_setWidth _ (by decide) (by decide))
  case inr.inr.inl =>
    simp only [h, if_true]
    exact expanded_lw (fits_setWidth _ (by decide) (by decide))
  case inr.inr.inr.inr.inr.inr.inl =>
    simp only [h]
    exact expanded_sw (fits_setWidth _ (by decide) (by decide))
  all_goals simp [h] at legal

theorem expanded_misc : s.expanded p m peri (cQuad1Misc c) =
    (if c.extractLsb 11 10 = 0b00#2 then Rvc.srli (cRs1P c) (c.extractLsb 6 2).toNat
      else if c.extractLsb 11 10 = 0b01#2 then .srai (cRs1P c) (c.extractLsb 6 2).toNat
      else if c.extractLsb 11 10 = 0b10#2 then .andi (cRs1P c) ((cImm6 c).signExtend 32)
      else if c.extractLsb 6 5 = 0b00#2 then .sub (cRs1P c) (cRdP c)
      else if c.extractLsb 6 5 = 0b01#2 then .xor (cRs1P c) (cRdP c)
      else if c.extractLsb 6 5 = 0b10#2 then .or (cRs1P c) (cRdP c)
      else .and (cRs1P c) (cRdP c)).effect m peri s := by
  unfold cQuad1Misc
  split
  · rw [expanded_opImm .srli (shamt_low _) (fits_setWidth _ (by decide) (by decide)), AluOp.plain, low_shamt]
    rfl
  split
  · rw [expanded_opImm .srai (shamt_high _ _) (fits_of_lt (by rw [toNat_srai]; omega)), AluOp.plain, low_srai]
    rfl
  split
  · exact expanded_opImm .andi rfl (fits_signExtend _ (by decide) (by decide))
  split
  · exact expanded_op .sub
  split
  · exact expanded_op .xor
  split
  · exact expanded_op .or
  · exact expanded_op .and

theorem expanded_quad1 (q : c.extractLsb 1 0 = 0b01#2) (legal : legal16 c = true) (plain : hint16 c = false) :
    s.expanded p m peri (cExpand c) = (rvcOf c).effect m peri s := by
  have expand : cExpand c = cQuad1 c := by rw [cExpand, q]; rfl
  simp only [legal16, rvc, hint16, hints, CPattern.covers, q, List.any_cons, List.any_nil] at legal plain
  rw [expand, cQuad1, rvcOf, q]
  simp only [Rvc.popular_eq, (Rvc.places c).ci, (Rvc.places c).lui, (Rvc.places c).addi16sp, (Rvc.places c).cb,
    (Rvc.places c).cj, (Rvc.places c).shamt, BitVec.ofNat_eq_ofNat, BitVec.reduceEq, ↓reduceIte]
  rcases funct3_cases (cF3 c) with h | h | h | h | h | h | h | h <;>
    simp only [h, BitVec.reduceEq, ↓reduceIte]
  · by_cases rd : cRd5 c = 0#5
    · have imm : cImm6 c = 0#6 := by simpa [h, rd] using plain
      rw [if_pos ⟨rd, imm⟩, if_pos rd]
      exact expanded_opImm .addi rfl (fits_setWidth 0#5 (by decide) (by decide))
    · rw [if_neg (fun both => rd both.1), if_pos rd, if_neg rd]
      exact expanded_opImm .addi rfl (fits_signExtend _ (by decide) (by decide))
  · exact expanded_jal (fits_signExtend _ (by decide) (by decide)) even_joff
  · have rd : cRd5 c ≠ 0#5 := by simpa [h] using plain
    rw [if_pos rd]
    refine (expanded_opImm .addi rfl (fits_signExtend _ (by decide) (by decide))).trans ?_
    rw [AluOp.plain, show s.x 0#5 = 0#32 from rfl, BitVec.zero_add]
    rfl
  · by_cases sp : cRd5 c = 2#5
    · have nonzero : cNz16 c ≠ 0#10 := by simpa [h, sp] using legal
      rw [if_pos sp, if_pos nonzero, if_pos sp]
      exact expanded_opImm .addi rfl (fits_signExtend _ (by decide) (by decide))
    · have imm : cImm6 c ≠ 0#6 := by simpa [h, sp] using legal
      have rd : cRd5 c ≠ 0#5 := by simpa [h, imm] using plain
      rw [if_neg sp, if_pos ⟨rd, imm⟩, if_neg sp]
      exact expanded_lui (low_lui _)
  · exact expanded_misc
  · exact expanded_jal (fits_signExtend _ (by decide) (by decide)) even_joff
  · refine (expanded_branch (.inl rfl) (fits_signExtend (cBOff c) (by decide) (by decide)) even_boff).trans ?_
    by_cases zero : s.x (cRs1P c) = 0#32 <;> simp [zero, Rvc.effect]
  · refine (expanded_branch (.inr rfl) (fits_signExtend (cBOff c) (by decide) (by decide)) even_boff).trans ?_
    by_cases zero : s.x (cRs1P c) = 0#32 <;> simp [zero, Rvc.effect]

theorem expanded_quad2 (q : c.extractLsb 1 0 = 0b10#2) (legal : legal16 c = true) (plain : hint16 c = false) :
    s.expanded p m peri (cExpand c) = (rvcOf c).effect m peri s := by
  have expand : cExpand c = cQuad2 c := by rw [cExpand, q]; rfl
  simp only [legal16, rvc, hint16, hints, CPattern.covers, q, List.any_cons, List.any_nil] at legal plain
  rw [expand, cQuad2, rvcOf, q]
  simp only [(Rvc.places c).lwsp, (Rvc.places c).css, (Rvc.places c).shamt, BitVec.ofNat_eq_ofNat, BitVec.reduceEq,
    ↓reduceIte]
  rcases funct3_cases (cF3 c) with h | h | h | h | h | h | h | h
  case inl =>
    have bit : c.getLsbD 12 = false := by simpa [h] using legal
    rw [h, bit] at plain
    have rd : cRd5 c ≠ 0#5 := fun rd => by simp [rd] at plain
    simp only [h, ↓reduceIte, if_pos rd]
    refine (expanded_opImm .slli (shamt_low _) (fits_setWidth _ (by decide) (by decide))).trans ?_
    rw [AluOp.plain, low_shamt]
    rfl
  case inr.inr.inl =>
    have rd : cRd5 c ≠ 0#5 := by simpa [h] using legal
    simp only [h, BitVec.reduceEq, ↓reduceIte, if_pos rd]
    exact expanded_lw (fits_setWidth _ (by decide) (by decide))
  case inr.inr.inr.inr.inl =>
    simp only [h, BitVec.reduceEq, ↓reduceIte]
    cases bit : c.getLsbD 12 with
    | false =>
      simp only [Bool.false_eq_true, ↓reduceIte]
      by_cases rs2 : cRs2 c = 0#5
      · have rd : cRd5 c ≠ 0#5 := by
          rw [h, bit] at legal
          simpa [rs2] using legal
        rw [if_neg (fun both => rd both.1), if_pos rs2, if_pos rs2]
        exact expanded_jalr
      · have rd : cRd5 c ≠ 0#5 := by simpa [h, rs2] using plain
        rw [if_neg (fun both => rs2 both.2), if_neg rs2, if_pos rd, if_neg rs2]
        refine (expanded_op .add).trans ?_
        rw [AluOp.plain, show s.x 0#5 = 0#32 from rfl, BitVec.zero_add]
        rfl
    | true =>
      simp only [Bool.true_eq_false, ↓reduceIte]
      by_cases rs2 : cRs2 c = 0#5
      · by_cases rd : cRd5 c = 0#5
        · rw [if_pos ⟨rd, rs2⟩, if_pos rd]
          exact expanded_ebreak
        · rw [if_neg (fun both => rd both.1), if_pos rs2, if_neg rd, if_pos rs2]
          exact expanded_jalr
      · have rd : cRd5 c ≠ 0#5 := by simpa [h, rs2] using plain
        rw [if_neg (fun both => rs2 both.2), if_neg rs2, if_pos rd, if_neg rd, if_neg rs2]
        exact expanded_op .add
  case inr.inr.inr.inr.inr.inr.inl =>
    simp only [h, BitVec.reduceEq, ↓reduceIte]
    exact expanded_sw (fits_setWidth _ (by decide) (by decide))
  all_goals simp [h] at legal

end Quadrants

/-! ## The meaning -/

/-- Compressed expansion preserves meaning: the D/E word `c_expand` and the uniform decoder make
of a legal halfword that is no hint has, at every PC and on every state, the effect the C
extension defines. -/
theorem compressed_meaning (p : Params) (m : DmemParams) (peri : PeriMem) (s : Arch) (c : BitVec 16)
    (legal : legal16 c = true) (plain : hint16 c = false) :
    ((Half.fetched ⟨s.pc, c⟩).word s.rf.read).effect p m peri s = (rvcOf c).effect m peri s := by
  rcases quadrant_cases (c.extractLsb 1 0) with q | q | q | q
  · exact expanded_quad0 q legal
  · exact expanded_quad1 q legal plain
  · exact expanded_quad2 q legal plain
  · simp [legal16, rvc, CPattern.covers, q] at legal

/-- `c.j` with every bit of its offset set goes back by a halfword. -/
theorem compressed_meaning_jump :
    let s : Arch := { pc := 0x100#32, rf := fun _ => 0, csr := .reset, mem := fun _ => 0 }
    ((Half.fetched ⟨s.pc, 0xBFFD#16⟩).word s.rf.read).effect .board .board (fun _ => 0) s =
      .retire 0xFE#32 none none none :=
  (compressed_meaning .board .board (fun _ => 0) _ 0xBFFD#16 (by decide) (by decide)).trans rfl

end YarvUc
