import YarvUc.Execute.Arithmetic
import YarvUc.Isa.Effects
import YarvUc.Sequential.Compressed
import YarvUc.Sequential.Retire

/-!
# The decoder and execute give the instructions their meaning

`Instr.ctrl` is what the uniform decoder makes of an instruction, and the effect of the D/E word
with these controls is the instruction's. The reserved words the decoder takes for others apart,
so the sequential machine is the instruction set's.
-/

namespace YarvUc

/-! ## The ALU -/

def RegFn.aluOp : RegFn → AluOp
  | add => .ADD
  | sub => .SUB
  | sll => .SLL
  | slt => .SLT
  | sltu => .SLTU
  | xor => .XOR
  | srl => .SRL
  | sra => .SRA
  | or => .OR
  | and => .AND
  | mul => .MUL
  | mulh => .MULH
  | mulhsu => .MULHSU
  | mulhu => .MULHU
  | div => .DIV
  | divu => .DIVU
  | rem => .REM
  | remu => .REMU

theorem RegFn.eval_plain (f : RegFn) (plain : f.aluOp.isPlain = true) (a b : Word) : f.aluOp.plain a b = f.eval a b := by
  cases f <;> first | rfl | cases plain

theorem RegFn.eval_div (a b : Word) :
    AluOp.division .DIV a b = div.eval a b ∧ AluOp.division .DIVU a b = divu.eval a b ∧
      AluOp.division .REM a b = rem.eval a b ∧ AluOp.division .REMU a b = remu.eval a b := by
  have ones : BitVec.allOnes 32 = (-1 : Word) := by decide
  refine ⟨?_, by rw [AluOp.division, eval, ones], ?_, rfl⟩
  · simp only [AluOp.division, eval, ones]
    by_cases zero : b = 0
    · rw [if_pos zero, if_pos zero]
    rw [if_neg zero, if_neg zero]
    by_cases overflow : a = BitVec.intMin 32 ∧ b = -1
    · rw [if_pos overflow, overflow.1, overflow.2]
      decide +kernel
    · rw [if_neg overflow]
  · simp only [AluOp.division, eval, ones]
    by_cases zero : b = 0
    · rw [if_pos zero, if_pos zero]
    rw [if_neg zero, if_neg zero]
    by_cases overflow : a = BitVec.intMin 32 ∧ b = -1
    · rw [if_pos overflow, overflow.1, overflow.2]
      decide +kernel
    · rw [if_neg overflow]

/-- A computed value is the function's. -/
theorem DeT.aluValue_eq {p : Params} {de : DeT} {f : RegFn} (op : de.aluOp = f.aluOp) :
    de.aluValue p = f.eval de.operandA de.operandB := by
  have comb : de.aluComb.aluOp = f.aluOp := op
  by_cases plain : f.aluOp.isPlain = true
  · have notDiv : de.isDivOp = false := by
      rw [isDivOp, op]
      cases f <;> first | rfl | cases plain
    rw [aluValue, notDiv, if_neg Bool.false_ne_true, AluQ.result_plain (by rw [comb]; exact plain), comb]
    exact f.eval_plain plain _ _
  obtain ⟨div, divu, rem, remu⟩ := RegFn.eval_div de.operandA de.operandB
  have product : ∀ shared, de.aluComb.isMulOp = true → AluQ.reset.result de.aluComb shared = de.aluComb.product :=
    fun shared mul => by rw [AluQ.result, mul, if_pos rfl, AluIn.mulResult_eq mul]
  cases f <;> first | exact absurd rfl plain | skip
  all_goals
    simp only [RegFn.aluOp] at op comb
    simp only [aluValue, isDivOp, op]
  case slt =>
    rw [if_neg (by decide)]
    have less := AluIn.cmpLt_signed comb
    have value : AluQ.reset.result de.aluComb p.mulSharedDsp = (BitVec.ofBool de.aluComb.cmpLt).setWidth 32 := by
      simp [AluQ.result, AluIn.isMulOp, AluIn.selAdder, AluIn.isDivOp, AluIn.selCmp, AluIn.opIsLx, comb]
    rw [value, less]
    exact AluIn.ofBool_decide
  case sltu =>
    rw [if_neg (by decide)]
    have less := AluIn.cmpLt_unsigned comb
    have value : AluQ.reset.result de.aluComb p.mulSharedDsp = (BitVec.ofBool de.aluComb.cmpLt).setWidth 32 := by
      simp [AluQ.result, AluIn.isMulOp, AluIn.selAdder, AluIn.isDivOp, AluIn.selCmp, AluIn.opIsLx, comb]
    rw [value, less]
    exact AluIn.ofBool_decide
  case mul | mulh | mulhsu | mulhu =>
    rw [if_neg (by decide), product _ (by rw [AluIn.isMulOp, comb]; rfl), AluIn.product, comb]
    rfl
  case div => exact div
  case divu => exact divu
  case rem => exact rem
  case remu => exact remu

/-! ## The controls -/

def Cond.branch : Cond → Branch
  | eq => .BEQ
  | ne => .BNE
  | lt => .BLT
  | ge => .BGE
  | ltu => .BLTU
  | geu => .BGEU

namespace Width

def size : Width → MemSize
  | byte | byteU => .B
  | half | halfU => .H
  | word => .W

def unsigned : Width → Bool
  | byteU | halfU => true
  | _ => false

end Width

def CsrFn.op : CsrFn → CsrOp
  | rw => .RW
  | rs => .RS
  | rc => .RC

def CsrFn.opImm : CsrFn → CsrOp
  | rw => .RWI
  | rs => .RSI
  | rc => .RCI

namespace Instr

/-- What the decoder makes of an instruction. -/
def ctrl : Instr → Ctrl
  | lui _ imm => { regWrite := true, aluSrcA := .RS1, aluSrcB := .IMM, imm := imm ++ 0#12, decIllegal := false }
  | auipc _ imm => { regWrite := true, aluSrcA := .PC, aluSrcB := .IMM, imm := imm ++ 0#12, decIllegal := false }
  | jal _ off =>
    { regWrite := true, aluSrcA := .PC, aluSrcB := .IMM, wbSrc := .PC4, branchType := .JAL,
      imm := (off ++ 0#1).signExtend 32, decIllegal := false }
  | jalr _ _ imm =>
    { regWrite := true, aluSrcA := .RS1, aluSrcB := .IMM, wbSrc := .PC4, branchType := .JALR, usesRs1 := true,
      imm := imm.signExtend 32, decIllegal := false }
  | branch c _ _ off =>
    { aluOp := .SUB, aluSrcA := .RS1, aluSrcB := .RS2, usesRs1 := true, usesRs2 := true,
      imm := (off ++ 0#1).signExtend 32, branchType := c.branch, decIllegal := false }
  | load z _ _ imm =>
    { regWrite := true, aluOp := .ADD, aluSrcA := .RS1, aluSrcB := .IMM, wbSrc := .MEM, memRead := true, usesRs1 := true,
      imm := imm.signExtend 32, memSize := z.size, memUnsigned := z.unsigned, decIllegal := false }
  | store z _ _ imm =>
    { aluOp := .ADD, aluSrcA := .RS1, aluSrcB := .IMM, memWrite := true, usesRs1 := true, usesRs2 := true,
      imm := imm.signExtend 32, memSize := z, decIllegal := false }
  | immediate f _ _ imm =>
    { regWrite := true, aluSrcA := .RS1, aluSrcB := .IMM, usesRs1 := true, imm := imm.signExtend 32,
      aluOp := f.fn.aluOp, decIllegal := false }
  | shift f _ _ shamt =>
    { regWrite := true, aluSrcA := .RS1, aluSrcB := .IMM, usesRs1 := true, imm := (f.codes.1 ++ shamt).signExtend 32,
      aluOp := f.fn.aluOp, decIllegal := false }
  | register f _ _ _ =>
    { regWrite := true, aluSrcA := .RS1, aluSrcB := .RS2, usesRs1 := true, usesRs2 := true, aluOp := f.aluOp,
      decIllegal := false }
  | indexed x _ _ _ =>
    { regWrite := true, aluOp := .LX, aluSrcA := .RS2, aluSrcB := .RS1, wbSrc := .MEM, memRead := true, usesRs1 := true,
      usesRs2 := true, memSize := x.width.size, memUnsigned := x.width.unsigned, memShamt := BitVec.ofNat 2 x.scale,
      decIllegal := false }
  | fence _ _ _ => { sysOp := .FENCE, decIllegal := false }
  | fenceI _ _ _ => { sysOp := .FENCE_I, decIllegal := false }
  | csr f _ _ _ =>
    { regWrite := true, wbSrc := .CSR, csrWren := true, csrOp := f.op, usesRs1 := true, decIllegal := false }
  | csrImm f _ zimm _ =>
    { regWrite := true, wbSrc := .CSR, csrWren := true, csrOp := f.opImm, imm := zimm.setWidth 32, decIllegal := false }
  | ecall => { sysOp := .ECALL, decIllegal := false, excReq := true, excCause := MCAUSE_ECALL_M }
  | ebreak => { sysOp := .EBREAK, decIllegal := false, excReq := true, excCause := MCAUSE_BREAKPOINT }
  | mret => { sysOp := .MRET, decIllegal := false }
  | wfi => { sysOp := .WFI, decIllegal := false }

/-! The immediates and `funct5` by the fields of the formats. -/

theorem immI_eq (w : Word) : immI w = (funct12Of w).signExtend 32 := rfl
theorem immS_eq (w : Word) : immS w = (funct7Of w ++ rdField w).signExtend 32 := rfl
theorem immB_eq (w : Word) : immB w = (bOff w ++ 0#1).signExtend 32 := rfl
theorem immJ_eq (w : Word) : immJ w = (jOff w ++ 0#1).signExtend 32 := rfl

theorem funct12_eq (w : Word) : funct12Of w = funct7Of w ++ rs2Field w := by
  simp only [← BitVec.toNat_inj, BitVec.extractLsb_toNat, BitVec.toNat_append_eq, Nat.shiftRight_eq_div_pow]
  omega

theorem funct5_eq (w : Word) : funct5Of w = (funct7Of w).extractLsb 6 2 := by
  simp only [← BitVec.toNat_inj, BitVec.extractLsb_toNat, Nat.shiftRight_eq_div_pow]
  omega

theorem aq_eq (w : Word) : aqOf w = (funct7Of w).getLsbD 1 := by simp

theorem rl_eq (w : Word) : rlOf w = (funct7Of w).getLsbD 0 := by simp

theorem decode_encode (i : Instr) : decodeUniform i.encode = i.ctrl := by
  cases i with
  | lui rd imm =>
    obtain ⟨op, -, field⟩ := fields_uType OPC_LUI rd imm
    rw [encode, decodeUniform, op, immU, field]
    rfl
  | auipc rd imm =>
    obtain ⟨op, -, field⟩ := fields_uType OPC_AUIPC rd imm
    rw [encode, decodeUniform, op, immU, field]
    rfl
  | jal rd off =>
    obtain ⟨op, -, field⟩ := fields_jType OPC_JAL rd off
    rw [encode, decodeUniform, op, immJ_eq, field]
    rfl
  | jalr rd rs1 imm =>
    obtain ⟨op, -, f3, -, field⟩ := fields_iType OPC_JALR rd rs1 0b000#3 imm
    rw [encode, decodeUniform, op, f3, immI_eq, field]
    rfl
  | branch c rs1 rs2 off =>
    obtain ⟨op, f3, -, -, field⟩ := fields_bType OPC_BRANCH rs1 rs2 c.funct3 off
    rw [encode, decode_branch op, decBranch, f3, immB_eq, field]
    cases c <;> rfl
  | load z rd rs1 imm =>
    obtain ⟨op, -, f3, -, field⟩ := fields_iType OPC_LOAD rd rs1 z.funct3 imm
    rw [encode, decodeUniform, op]
    change decLoad _ = _
    rw [decLoad, f3, immI_eq, field]
    cases z <;> rfl
  | store z rs1 rs2 imm =>
    obtain ⟨op, f3, -, -, field⟩ := fields_sType OPC_STORE rs1 rs2 z.funct3 imm
    rw [encode, decodeUniform, op]
    change decStore _ = _
    rw [decStore, f3, immS_eq, field]
    cases z <;> rfl
  | immediate f rd rs1 imm =>
    obtain ⟨op, -, f3, -, field⟩ := fields_iType OPC_OP_IMM rd rs1 f.funct3 imm
    rw [encode, decodeUniform, op]
    change decOpImm _ = _
    rw [decOpImm, f3, immI_eq, field]
    cases f <;> rfl
  | shift f rd rs1 shamt =>
    obtain ⟨op, -, f3, -, rs2, f7⟩ := fields_rType OPC_OP_IMM rd rs1 shamt f.codes.2 f.codes.1
    have field : funct12Of (rType OPC_OP_IMM rd rs1 shamt f.codes.2 f.codes.1) = f.codes.1 ++ shamt := by
      rw [funct12_eq, f7, rs2]
    have bit : (rType OPC_OP_IMM rd rs1 shamt f.codes.2 f.codes.1).getLsbD 30 = f.codes.1.getLsbD 5 := by
      rw [← getLsbD_funct7, f7]
    rw [encode, decodeUniform, op]
    change decOpImm _ = _
    rw [decOpImm, f3, f7, bit, immI_eq, field]
    cases f <;> rfl
  | register f rd rs1 rs2 =>
    obtain ⟨op, -, f3, -, -, f7⟩ := fields_rType OPC_OP rd rs1 rs2 f.codes.2 f.codes.1
    have bit : (rType OPC_OP rd rs1 rs2 f.codes.2 f.codes.1).getLsbD 30 = f.codes.1.getLsbD 5 := by
      rw [← getLsbD_funct7, f7]
    rw [encode, decodeUniform, op]
    change decOp _ = _
    rw [decOp, isMExt, op, f3, f7, bit]
    cases f <;> rfl
  | indexed x rd rs1 rs2 =>
    obtain ⟨op, -, f3, -, -, f7⟩ := fields_rType OPC_AMO rd rs1 rs2 x.codes.2 x.codes.1
    rw [encode, decodeUniform, op]
    change decAmo _ = _
    rw [decAmo, zilxOk, zilxSize, sizeOkRv32, isUnscaled, isScaled, size_bits, funct5_eq, aq_eq, rl_eq, f3, f7]
    cases x <;> rfl
  | fence rd rs1 ops =>
    obtain ⟨op, -, f3, -⟩ := fields_iType OPC_MISC_MEM rd rs1 0b000#3 ops
    rw [encode, decodeUniform, op]
    change decMiscMem _ = _
    rw [decMiscMem, f3]
    rfl
  | fenceI rd rs1 imm =>
    obtain ⟨op, -, f3, -⟩ := fields_iType OPC_MISC_MEM rd rs1 0b001#3 imm
    rw [encode, decodeUniform, op]
    change decMiscMem _ = _
    rw [decMiscMem, f3]
    rfl
  | csr f rd rs1 addr =>
    obtain ⟨op, -, f3, -⟩ := fields_iType OPC_SYSTEM rd rs1 f.funct3 addr
    rw [encode, decodeUniform, op]
    change decSystem _ = _
    rw [decSystem, f3]
    cases f <;> rfl
  | csrImm f rd zimm addr =>
    obtain ⟨op, -, f3, rs1, -⟩ := fields_iType OPC_SYSTEM rd zimm (0b100#3 ||| f.funct3) addr
    rw [encode, decodeUniform, op]
    change decSystem _ = _
    rw [decSystem, f3, zimmOf, rs1]
    cases f <;> rfl
  | ecall | ebreak | mret | wfi => rfl

/-! ## The effects -/

section Effects

variable {p : Params} {m : DmemParams} {peri : PeriMem} {s : Arch} {i : Instr} {rd : BitVec 5} {v : Word}

/-- The D/E word of an instruction at the PC. -/
abbrev decoded (s : Arch) (i : Instr) : DeT := decodeWord s.rf.read s.pc i.encode false

theorem effect_plain {target : Word} (plain : i.ctrl.Plain) (next : (decoded s i).nextPc = target) :
    (decoded s i).effect p m peri s = .retire target
      (if i.ctrl.regWrite && rdField i.encode != 0 then some (rdField i.encode, (decoded s i).value p m peri s) else none)
      none none := by
  have ctrl := decode_encode i
  have fault : (decoded s i).fault = none := by
    simp [DeT.fault, decodeWord, ctrl, plain.legal, plain.exc, DeT.isMemOp, plain.read, plain.write]
  have mret : (decoded s i).isMretOp = false := by simp [DeT.isMretOp, decodeWord, ctrl, plain.sys]
  have csr : ∀ v, (decoded s i).csrWrite v = none := fun v => by simp [DeT.csrWrite, decodeWord, ctrl, plain.csr]
  have write : (decoded s i).memWrite = false := by simp [decodeWord, ctrl, plain.write]
  have regWrite : (decoded s i).regWrite = i.ctrl.regWrite := by simp [decodeWord, ctrl, plain.legal]
  rw [DeT.effect_retire fault mret, csr, write, regWrite, next]
  rfl

theorem nextPc_link (none : i.ctrl.branchType = .NONE) : (decoded s i).nextPc = link s := by
  simp [DeT.nextPc, DeT.branchTaken, decodeWord, decode_encode, none, DeT.pcLink, link]

/-- A word that computes `f`. -/
theorem effect_computes {f : RegFn} (plain : i.ctrl.Plain) (branch : i.ctrl.branchType = .NONE)
    (write : i.ctrl.regWrite = true) (op : i.ctrl.aluOp = f.aluOp) (src : i.ctrl.wbSrc = .ALU)
    (dest : rdField i.encode = rd) :
    (decoded s i).effect p m peri s = writes s rd (f.eval (decoded s i).operandA (decoded s i).operandB) := by
  have ctrl := decode_encode i
  have wb : (decoded s i).wbSrc = .ALU := by simp [decodeWord, ctrl, src]
  have alu : (decoded s i).aluOp = f.aluOp := by simp [decodeWord, ctrl, op]
  rw [effect_plain plain (nextPc_link branch), write, dest, DeT.value, wb, writes, ← DeT.aluValue_eq (p := p) alu]
  by_cases zero : rd = 0#5 <;> simp [zero]

theorem effect_goes {target : Word} (plain : i.ctrl.Plain) (src : i.ctrl.wbSrc = .PC4) (write : i.ctrl.regWrite = true)
    (dest : rdField i.encode = rd) (next : (decoded s i).nextPc = target) :
    (decoded s i).effect p m peri s = goes s target rd := by
  have wb : (decoded s i).wbSrc = .PC4 := by simp [decodeWord, decode_encode, src]
  rw [effect_plain plain next, write, dest, DeT.value, wb, goes]
  by_cases zero : rd = 0#5 <;> simp [zero, DeT.pcLink, link, decodeWord]

theorem effect_lui (imm : BitVec 20) : (decoded s (lui rd imm)).effect p m peri s = (lui rd imm).effect m peri s := by
  rw [effect_computes (i := lui rd imm) (f := .add) ⟨rfl, rfl, rfl, rfl, rfl, rfl⟩ rfl rfl rfl rfl
    (fields_uType OPC_LUI rd imm).2.1]
  simp [decodeWord, DeT.operandA, DeT.operandB, decode_encode, ctrl, rs1AddrDec, RegFn.eval, effect, RegFile.read]

theorem effect_auipc (imm : BitVec 20) :
    (decoded s (auipc rd imm)).effect p m peri s = (auipc rd imm).effect m peri s := by
  rw [effect_computes (i := auipc rd imm) (f := .add) ⟨rfl, rfl, rfl, rfl, rfl, rfl⟩ rfl rfl rfl rfl
    (fields_uType OPC_AUIPC rd imm).2.1]
  simp [decodeWord, DeT.operandA, DeT.operandB, decode_encode, ctrl, RegFn.eval, effect]

theorem effect_jal (off : BitVec 20) : (decoded s (jal rd off)).effect p m peri s = (jal rd off).effect m peri s := by
  refine effect_goes ⟨rfl, rfl, rfl, rfl, rfl, rfl⟩ rfl rfl (fields_jType OPC_JAL rd off).2.1 ?_
  simp [decodeWord, decode_encode, ctrl, DeT.nextPc, DeT.branchTaken, DeT.branchTarget]

theorem effect_jalr (rs1 : BitVec 5) (imm : BitVec 12) :
    (decoded s (jalr rd rs1 imm)).effect p m peri s = (jalr rd rs1 imm).effect m peri s := by
  obtain ⟨-, hrd, -, hrs1, -⟩ := fields_iType OPC_JALR rd rs1 0b000#3 imm
  have source : rs1Field (encode (jalr rd rs1 imm)) = rs1 := hrs1
  refine effect_goes ⟨rfl, rfl, rfl, rfl, rfl, rfl⟩ rfl rfl hrd ?_
  simp [decodeWord, decode_encode, ctrl, DeT.nextPc, DeT.branchTaken, DeT.branchTarget, rs1AddrDec, source]

theorem effect_branch (c : Cond) (rs1 rs2 : BitVec 5) (off : BitVec 12) :
    (decoded s (branch c rs1 rs2 off)).effect p m peri s = (branch c rs1 rs2 off).effect m peri s := by
  obtain ⟨-, -, hrs1, hrs2, -⟩ := fields_bType OPC_BRANCH rs1 rs2 c.funct3 off
  have source : rs1Field (encode (branch c rs1 rs2 off)) = rs1 := hrs1
  have source' : rs2Field (encode (branch c rs1 rs2 off)) = rs2 := hrs2
  have taken : (decoded s (branch c rs1 rs2 off)).branchTaken = c.holds (s.x rs1) (s.x rs2) := by
    simp only [DeT.branchTaken, decodeWord, decode_encode, ctrl, rs1AddrDec, rs2AddrDec, source, source']
    cases c <;> simp [Cond.branch, Cond.holds, BitVec.slt, BitVec.sle, BitVec.ult, BitVec.ule, bne, beq_eq_decide]
  have target : (decoded s (branch c rs1 rs2 off)).branchTarget = s.pc + (off ++ 0#1).signExtend 32 := by
    simp only [DeT.branchTarget, decodeWord, decode_encode, ctrl]
    cases c <;> simp [Cond.branch]
  have next : (decoded s (branch c rs1 rs2 off)).nextPc =
      if c.holds (s.x rs1) (s.x rs2) then s.pc + (off ++ 0#1).signExtend 32 else link s := by
    rw [DeT.nextPc, taken, target]
    rfl
  have write : (branch c rs1 rs2 off).ctrl.regWrite = false := rfl
  have plain : (branch c rs1 rs2 off).ctrl.Plain := ⟨rfl, rfl, rfl, rfl, rfl, rfl⟩
  rw [effect_plain plain next, write, Bool.false_and, if_neg Bool.false_ne_true, effect, goes, if_pos rfl]

/-! ### Memory -/

theorem value_loads {de : DeT} {z : Width} (size : de.memSize = z.size) (uns : de.memUnsigned = z.unsigned)
    (src : de.wbSrc = .MEM) (aligned : de.memMisalignedLive = false) :
    de.value p m peri s = z.value (byteAt m peri s de.lsuEa) := by
  have extends_ : ∀ f, loadValue de.memSize de.memUnsigned f = z.value f := by
    intro f
    rw [size, uns]
    cases z <;> rfl
  have bit : de.lsuEa.getLsbD PERI_ADDR_BIT = de.isPeriLive := rfl
  have bytes : byteAt m peri s de.lsuEa = fun k =>
      if de.isPeriLive then byteOf (peri de.lsuEa) ((de.lsuEa.toNat + k) % 4) else s.mem.load m.addrW de.lsuEa k := by
    funext k
    rw [byteAt, bit]
  rw [DeT.value, src, bytes]
  change de.loaded m peri s = _
  rw [DeT.loaded]
  cases port : de.isPeriLive with
  | false =>
    simp only [Bool.false_eq_true, if_false, extends_]
  | true =>
    have lanes := loadData_eq (fun _ => peri de.lsuEa) (w := 2) le_rfl
      (show misalignedOf de.memSize de.lsuEa = false from aligned)
    simp only [if_true]
    rw [lanes, extends_]
    congr 1
    funext k
    rw [ByteMem.load, ByteMem.index, bytesOf, show 2 ^ 2 = 4 from rfl, Nat.mod_mod]

/-- The controls of a load. -/
structure Ctrl.Loads (c : Ctrl) (z : Width) : Prop where
  legal : c.decIllegal = false
  exc : c.excReq = false
  read : c.memRead = true
  write : c.memWrite = false
  size : c.memSize = z.size
  uns : c.memUnsigned = z.unsigned
  src : c.wbSrc = .MEM
  regWrite : c.regWrite = true
  sys : c.sysOp = .NONE
  csr : c.csrOp = .NONE
  branch : c.branchType = .NONE

theorem effect_loads {z : Width} {a : Word} (is : Ctrl.Loads i.ctrl z) (dest : rdField i.encode = rd)
    (ea : (decoded s i).lsuEa = a) : (decoded s i).effect p m peri s = loads m peri s z rd a := by
  have ctrl := decode_encode i
  have nonexc : (decoded s i).exception = false := by simp [decodeWord, ctrl, is.legal, is.exc]
  have mem : (decoded s i).isMemOp = true := by simp [DeT.isMemOp, decodeWord, ctrl, is.legal, is.read]
  have write : (decoded s i).memWrite = false := by simp [decodeWord, ctrl, is.write]
  have size : (decoded s i).memSize = z.size := by simp [decodeWord, ctrl, is.size]
  have bytes : z.size.bytes = z.bytes := by cases z <;> rfl
  have lie := DeT.aligned_iff (decoded s i).memSize (decoded s i).lsuEa
  rw [size, bytes, ea] at lie
  rw [loads]
  cases aligned : (decoded s i).memMisalignedLive with
  | true =>
    have off : ¬ a.toNat % z.bytes = 0 := by
      rw [← lie, ← size, ← ea, Bool.not_eq_false]
      exact aligned
    rw [DeT.effect_trap (DeT.fault_misaligned nonexc mem aligned), write, ea, if_neg off]
    rfl
  | false =>
    have on : a.toNat % z.bytes = 0 := by
      rw [← lie, ← size, ← ea]
      exact aligned
    have mret : (decoded s i).isMretOp = false := by simp [DeT.isMretOp, decodeWord, ctrl, is.sys]
    have csr : ∀ v, (decoded s i).csrWrite v = none := fun v => by simp [DeT.csrWrite, decodeWord, ctrl, is.csr]
    have regWrite : (decoded s i).regWrite = true := by simp [decodeWord, ctrl, is.legal, is.regWrite]
    have value : (decoded s i).value p m peri s = z.value (byteAt m peri s (decoded s i).lsuEa) :=
      value_loads size (by simp [decodeWord, ctrl, is.uns]) (by simp [decodeWord, ctrl, is.src]) aligned
    rw [DeT.effect_retire (DeT.fault_none nonexc fun _ => aligned) mret, csr, write, regWrite, value, ea,
      nextPc_link is.branch, if_pos on, writes, show (decoded s i).rd = rd from dest]
    by_cases zero : rd = 0#5 <;> simp [zero]

theorem sum_imm (op : i.ctrl.aluOp = .ADD) (a : i.ctrl.aluSrcA = .RS1) (b : i.ctrl.aluSrcB = .IMM)
    (uses : i.ctrl.usesRs1 = true) : (decoded s i).lsuEa = s.x (rs1Field i.encode) + i.ctrl.imm := by
  have ctrl := decode_encode i
  rw [sum_ea (by simp [decodeWord, ctrl, op]) (by simp [decodeWord, ctrl, a]) (by simp [decodeWord, ctrl, b])]
  simp [decodeWord, ctrl, rs1AddrDec, uses]

theorem ea_load (z : Width) (rs1 : BitVec 5) (imm : BitVec 12) :
    (decoded s (load z rd rs1 imm)).lsuEa = s.x rs1 + imm.signExtend 32 := by
  obtain ⟨-, -, -, hrs1, -⟩ := fields_iType OPC_LOAD rd rs1 z.funct3 imm
  have source : rs1Field (encode (load z rd rs1 imm)) = rs1 := hrs1
  rw [sum_imm rfl rfl rfl rfl, source]
  rfl

theorem effect_load (z : Width) (rs1 : BitVec 5) (imm : BitVec 12) :
    (decoded s (load z rd rs1 imm)).effect p m peri s = (load z rd rs1 imm).effect m peri s :=
  effect_loads ⟨rfl, rfl, rfl, rfl, rfl, rfl, rfl, rfl, rfl, rfl, rfl⟩ (fields_iType OPC_LOAD rd rs1 z.funct3 imm).2.1
    (ea_load z rs1 imm)

theorem ea_indexed (x : Indexed) (rs1 rs2 : BitVec 5) :
    (decoded s (indexed x rd rs1 rs2)).lsuEa = s.x rs2 + s.x rs1 <<< x.scale := by
  obtain ⟨-, -, -, hrs1, hrs2, -⟩ := fields_rType OPC_AMO rd rs1 rs2 x.codes.2 x.codes.1
  have source : rs1Field (encode (indexed x rd rs1 rs2)) = rs1 := hrs1
  have source' : rs2Field (encode (indexed x rd rs1 rs2)) = rs2 := hrs2
  have scale : (BitVec.ofNat 2 x.scale).toNat = x.scale := by cases x <;> rfl
  have lx : (decoded s (indexed x rd rs1 rs2)).aluComb.aluOp = .LX := by
    simp [DeT.aluComb, decodeWord, decode_encode, ctrl]
  have sum := AluIn.adderSum_lx lx
  rw [DeT.lsuEa, AluIn.ea, sum]
  simp [DeT.aluComb, DeT.operandA, DeT.operandB, decodeWord, decode_encode, ctrl, rs1AddrDec, rs2AddrDec, source, source',
    scale]

theorem effect_indexed (x : Indexed) (rs1 rs2 : BitVec 5) :
    (decoded s (indexed x rd rs1 rs2)).effect p m peri s = (indexed x rd rs1 rs2).effect m peri s :=
  effect_loads ⟨rfl, rfl, rfl, rfl, rfl, rfl, rfl, rfl, rfl, rfl, rfl⟩
    (fields_rType OPC_AMO rd rs1 rs2 x.codes.2 x.codes.1).2.1 (ea_indexed x rs1 rs2)

theorem ea_store (z : MemSize) (rs1 rs2 : BitVec 5) (imm : BitVec 12) :
    (decoded s (store z rs1 rs2 imm)).lsuEa = s.x rs1 + imm.signExtend 32 := by
  obtain ⟨-, -, hrs1, -, -⟩ := fields_sType OPC_STORE rs1 rs2 z.funct3 imm
  have source : rs1Field (encode (store z rs1 rs2 imm)) = rs1 := hrs1
  rw [sum_imm rfl rfl rfl rfl, source]
  rfl

theorem effect_store (z : MemSize) (rs1 rs2 : BitVec 5) (imm : BitVec 12) :
    (decoded s (store z rs1 rs2 imm)).effect p m peri s = (store z rs1 rs2 imm).effect m peri s := by
  obtain ⟨-, -, -, hrs2, -⟩ := fields_sType OPC_STORE rs1 rs2 z.funct3 imm
  have source' : rs2Field (encode (store z rs1 rs2 imm)) = rs2 := hrs2
  have ctrl := decode_encode (store z rs1 rs2 imm)
  have ea : (decoded s (store z rs1 rs2 imm)).lsuEa = s.x rs1 + imm.signExtend 32 := ea_store z rs1 rs2 imm
  have data : (decoded s (store z rs1 rs2 imm)).rs2Data = s.x rs2 := by
    simp [decodeWord, ctrl, Instr.ctrl, rs2AddrDec, source']
  have nonexc : (decoded s (store z rs1 rs2 imm)).exception = false := by simp [decodeWord, ctrl, Instr.ctrl]
  have write : (decoded s (store z rs1 rs2 imm)).memWrite = true := by simp [decodeWord, ctrl, Instr.ctrl]
  have mem : (decoded s (store z rs1 rs2 imm)).isMemOp = true := by rw [DeT.isMemOp, write, Bool.or_true]
  have size : (decoded s (store z rs1 rs2 imm)).memSize = z := by simp [decodeWord, ctrl, Instr.ctrl]
  have lie := DeT.aligned_iff (decoded s (store z rs1 rs2 imm)).memSize (decoded s (store z rs1 rs2 imm)).lsuEa
  rw [size, ea] at lie
  rw [effect, stores]
  cases aligned : (decoded s (store z rs1 rs2 imm)).memMisalignedLive with
  | true =>
    have off : ¬ (s.x rs1 + imm.signExtend 32).toNat % z.bytes = 0 := by
      rw [← lie, ← size, ← ea, Bool.not_eq_false]
      exact aligned
    rw [DeT.effect_trap (DeT.fault_misaligned nonexc mem aligned), write, ea, if_neg off]
    rfl
  | false =>
    have on : (s.x rs1 + imm.signExtend 32).toNat % z.bytes = 0 := by
      rw [← lie, ← size, ← ea]
      exact aligned
    have mret : (decoded s (store z rs1 rs2 imm)).isMretOp = false := by
      simp [DeT.isMretOp, decodeWord, ctrl, Instr.ctrl]
    have csr : ∀ v, (decoded s (store z rs1 rs2 imm)).csrWrite v = none := fun v => by
      simp [DeT.csrWrite, decodeWord, ctrl, Instr.ctrl]
    have regWrite : (decoded s (store z rs1 rs2 imm)).regWrite = false := by simp [decodeWord, ctrl, Instr.ctrl]
    rw [DeT.effect_retire (DeT.fault_none nonexc fun _ => aligned) mret, csr, write, regWrite, size, data, ea,
      nextPc_link rfl, if_pos on]
    rfl

/-! ### The rest -/

theorem effect_immediate (f : ImmFn) (rs1 : BitVec 5) (imm : BitVec 12) :
    (decoded s (immediate f rd rs1 imm)).effect p m peri s = (immediate f rd rs1 imm).effect m peri s := by
  obtain ⟨-, hrd, -, hrs1, -⟩ := fields_iType OPC_OP_IMM rd rs1 f.funct3 imm
  have source : rs1Field (encode (immediate f rd rs1 imm)) = rs1 := hrs1
  rw [effect_computes (i := immediate f rd rs1 imm) (f := f.fn) ⟨rfl, rfl, rfl, rfl, rfl, rfl⟩ rfl rfl rfl rfl hrd]
  simp [decodeWord, DeT.operandA, DeT.operandB, decode_encode, ctrl, rs1AddrDec, source, effect]

theorem low_five (a : Word) : a.toNat % 32 = (a.setWidth 5).toNat := by simp

/-- A shift by an immediate reads five bits of it. -/
theorem eval_shift (f : ShiftFn) (a : Word) (shamt : BitVec 5) :
    f.fn.eval a ((f.codes.1 ++ shamt).signExtend 32) = f.fn.eval a (shamt.setWidth 32) := by
  have low : ((f.codes.1 ++ shamt).signExtend 32).toNat % 32 = (shamt.setWidth 32).toNat % 32 := by
    rw [low_five, low_five]
    congr 1
    apply BitVec.eq_of_getLsbD_eq
    intro k small
    have inside : k < 32 ∧ k < 12 := by omega
    have shown : (f.codes.1 ++ shamt).getLsbD k = shamt.getLsbD k :=
      BitVec.getLsbD_append.trans (if_pos small)
    simp only [BitVec.getLsbD_setWidth, BitVec.getLsbD_signExtend, inside, small, shown, decide_true, Bool.true_and,
      if_true]
  cases f <;> simp only [ShiftFn.fn, RegFn.eval, low]

theorem effect_shift (f : ShiftFn) (rs1 shamt : BitVec 5) :
    (decoded s (shift f rd rs1 shamt)).effect p m peri s = (shift f rd rs1 shamt).effect m peri s := by
  obtain ⟨-, hrd, -, hrs1, -, -⟩ := fields_rType OPC_OP_IMM rd rs1 shamt f.codes.2 f.codes.1
  have source : rs1Field (encode (shift f rd rs1 shamt)) = rs1 := hrs1
  rw [effect_computes (i := shift f rd rs1 shamt) (f := f.fn) ⟨rfl, rfl, rfl, rfl, rfl, rfl⟩ rfl rfl rfl rfl hrd]
  simp [decodeWord, DeT.operandA, DeT.operandB, decode_encode, ctrl, rs1AddrDec, source, effect, eval_shift]

theorem effect_register (f : RegFn) (rs1 rs2 : BitVec 5) :
    (decoded s (register f rd rs1 rs2)).effect p m peri s = (register f rd rs1 rs2).effect m peri s := by
  obtain ⟨-, hrd, -, hrs1, hrs2, -⟩ := fields_rType OPC_OP rd rs1 rs2 f.codes.2 f.codes.1
  have source : rs1Field (encode (register f rd rs1 rs2)) = rs1 := hrs1
  have source' : rs2Field (encode (register f rd rs1 rs2)) = rs2 := hrs2
  rw [effect_computes (i := register f rd rs1 rs2) (f := f) ⟨rfl, rfl, rfl, rfl, rfl, rfl⟩ rfl rfl rfl rfl hrd]
  simp [decodeWord, DeT.operandA, DeT.operandB, decode_encode, ctrl, rs1AddrDec, rs2AddrDec, source, source', effect]

/-- The controls of a CSR instruction. -/
structure Ctrl.Accesses (c : Ctrl) (f : CsrFn) : Prop where
  legal : c.decIllegal = false
  exc : c.excReq = false
  read : c.memRead = false
  write : c.memWrite = false
  src : c.wbSrc = .CSR
  regWrite : c.regWrite = true
  sys : c.sysOp = .NONE
  op : c.csrOp = f.op ∨ c.csrOp = f.opImm
  branch : c.branchType = .NONE

theorem csrWrite_accesses {f : CsrFn} {src : Word} (is : Ctrl.Accesses i.ctrl f) (source : (decoded s i).csrSrc = src)
    (old : Word) : (decoded s i).csrWrite old = if f.touches src then some (f.new old src) else none := by
  have op : (decoded s i).csrOp = f.op ∨ (decoded s i).csrOp = f.opImm := by
    simpa [decodeWord, decode_encode] using is.op
  rw [DeT.csrWrite, source]
  rcases op with op | op <;> rw [op] <;> cases f <;> by_cases none : src = 0#32 <;>
    simp [CsrFn.op, CsrFn.opImm, CsrFn.touches, CsrFn.new, none]

theorem effect_accesses {f : CsrFn} {addr : BitVec 12} {src : Word} (is : Ctrl.Accesses i.ctrl f)
    (dest : rdField i.encode = rd) (csrAddr : (decoded s i).csrAddr = addr) (source : (decoded s i).csrSrc = src) :
    (decoded s i).effect p m peri s = accesses s f rd addr src := by
  have ctrl := decode_encode i
  have fault : (decoded s i).fault = none := by
    simp [DeT.fault, decodeWord, ctrl, is.legal, is.exc, DeT.isMemOp, is.read, is.write]
  have mret : (decoded s i).isMretOp = false := by simp [DeT.isMretOp, decodeWord, ctrl, is.sys]
  have write : (decoded s i).memWrite = false := by simp [decodeWord, ctrl, is.write]
  have regWrite : (decoded s i).regWrite = true := by simp [decodeWord, ctrl, is.legal, is.regWrite]
  have wb : (decoded s i).wbSrc = .CSR := by simp [decodeWord, ctrl, is.src]
  rw [DeT.effect_retire fault mret, csrWrite_accesses is source, csrAddr, write, regWrite, DeT.value, wb, csrAddr,
    nextPc_link is.branch, accesses, CsrRegs.contents_eq, show (decoded s i).rd = rd from dest]
  by_cases zero : rd = 0#5 <;> cases f.touches src <;> simp [zero]

theorem csrAddr_csr (f : CsrFn) (rs1 : BitVec 5) (addr : BitVec 12) : (decoded s (csr f rd rs1 addr)).csrAddr = addr := by
  obtain ⟨op, -, f3, -, field⟩ := fields_iType OPC_SYSTEM rd rs1 f.funct3 addr
  have isCsr : YarvUc.isCsr (iType OPC_SYSTEM rd rs1 f.funct3 addr) = true := by
    rw [YarvUc.isCsr, op, f3]
    cases f <;> rfl
  change csrAddrDec (iType OPC_SYSTEM rd rs1 f.funct3 addr) = addr
  rw [csrAddrDec, isCsr, if_pos rfl]
  exact field

theorem csrSrc_csr (f : CsrFn) (rs1 : BitVec 5) (addr : BitVec 12) :
    (decoded s (csr f rd rs1 addr)).csrSrc = s.x rs1 := by
  obtain ⟨-, -, -, hrs1, -⟩ := fields_iType OPC_SYSTEM rd rs1 f.funct3 addr
  have source : rs1Field (encode (csr f rd rs1 addr)) = rs1 := hrs1
  simp only [DeT.csrSrc, decodeWord, decode_encode, ctrl, rs1AddrDec, source]
  cases f <;> rfl

theorem accesses_csr (f : CsrFn) (rs1 : BitVec 5) (addr : BitVec 12) : Ctrl.Accesses (csr f rd rs1 addr).ctrl f :=
  ⟨rfl, rfl, rfl, rfl, rfl, rfl, rfl, .inl rfl, rfl⟩

theorem effect_csr (f : CsrFn) (rs1 : BitVec 5) (addr : BitVec 12) :
    (decoded s (csr f rd rs1 addr)).effect p m peri s = (csr f rd rs1 addr).effect m peri s :=
  effect_accesses (accesses_csr f rs1 addr) (fields_iType OPC_SYSTEM rd rs1 f.funct3 addr).2.1 (csrAddr_csr f rs1 addr)
    (csrSrc_csr f rs1 addr)

theorem csrAddr_csrImm (f : CsrFn) (zimm : BitVec 5) (addr : BitVec 12) :
    (decoded s (csrImm f rd zimm addr)).csrAddr = addr := by
  obtain ⟨op, -, f3, -, field⟩ := fields_iType OPC_SYSTEM rd zimm (0b100#3 ||| f.funct3) addr
  have isCsr : YarvUc.isCsr (iType OPC_SYSTEM rd zimm (0b100#3 ||| f.funct3) addr) = true := by
    rw [YarvUc.isCsr, op, f3]
    cases f <;> rfl
  change csrAddrDec (iType OPC_SYSTEM rd zimm (0b100#3 ||| f.funct3) addr) = addr
  rw [csrAddrDec, isCsr, if_pos rfl]
  exact field

theorem csrSrc_csrImm (f : CsrFn) (zimm : BitVec 5) (addr : BitVec 12) :
    (decoded s (csrImm f rd zimm addr)).csrSrc = zimm.setWidth 32 := by
  simp only [DeT.csrSrc, decodeWord, decode_encode, ctrl]
  cases f <;> rfl

theorem accesses_csrImm (f : CsrFn) (zimm : BitVec 5) (addr : BitVec 12) :
    Ctrl.Accesses (csrImm f rd zimm addr).ctrl f :=
  ⟨rfl, rfl, rfl, rfl, rfl, rfl, rfl, .inr rfl, rfl⟩

theorem effect_csrImm (f : CsrFn) (zimm : BitVec 5) (addr : BitVec 12) :
    (decoded s (csrImm f rd zimm addr)).effect p m peri s = (csrImm f rd zimm addr).effect m peri s :=
  effect_accesses (accesses_csrImm f zimm addr)
    (fields_iType OPC_SYSTEM rd zimm (0b100#3 ||| f.funct3) addr).2.1 (csrAddr_csrImm f zimm addr)
    (csrSrc_csrImm f zimm addr)

theorem effect_passes (plain : i.ctrl.decIllegal = false ∧ i.ctrl.excReq = false ∧ i.ctrl.memRead = false ∧
    i.ctrl.memWrite = false ∧ i.ctrl.csrOp = .NONE ∧ i.ctrl.regWrite = false ∧ i.ctrl.branchType = .NONE)
    (sys : i.ctrl.sysOp ≠ .MRET) : (decoded s i).effect p m peri s = passes s := by
  obtain ⟨legal, exc, read, write, csrOp, regWrite, branch⟩ := plain
  have ctrl := decode_encode i
  have fault : (decoded s i).fault = none := by
    simp [DeT.fault, decodeWord, ctrl, legal, exc, DeT.isMemOp, read, write]
  have mret : (decoded s i).isMretOp = false := by simpa [DeT.isMretOp, decodeWord, ctrl] using sys
  have csr : ∀ v, (decoded s i).csrWrite v = none := fun v => by simp [DeT.csrWrite, decodeWord, ctrl, csrOp]
  rw [DeT.effect_retire fault mret, csr, nextPc_link branch, passes]
  simp [decodeWord, ctrl, write, regWrite]

/-- Decode and execute give an instruction its effect. -/
theorem effect_decoded (i : Instr) : (decoded s i).effect p m peri s = i.effect m peri s := by
  cases i with
  | lui rd imm => exact effect_lui imm
  | auipc rd imm => exact effect_auipc imm
  | jal rd off => exact effect_jal off
  | jalr rd rs1 imm => exact effect_jalr rs1 imm
  | branch c rs1 rs2 off => exact effect_branch c rs1 rs2 off
  | load z rd rs1 imm => exact effect_load z rs1 imm
  | store z rs1 rs2 imm => exact effect_store z rs1 rs2 imm
  | immediate f rd rs1 imm => exact effect_immediate f rs1 imm
  | shift f rd rs1 shamt => exact effect_shift f rs1 shamt
  | register f rd rs1 rs2 => exact effect_register f rs1 rs2
  | indexed x rd rs1 rs2 => exact effect_indexed x rs1 rs2
  | fence | fenceI | wfi => exact effect_passes ⟨rfl, rfl, rfl, rfl, rfl, rfl, rfl⟩ (by simp [ctrl])
  | csr f rd rs1 addr => exact effect_csr f rs1 addr
  | csrImm f rd zimm addr => exact effect_csrImm f zimm addr
  | ecall | ebreak | mret => rfl

end Effects

end Instr

end YarvUc
