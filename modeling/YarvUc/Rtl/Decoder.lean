import YarvUc.Rtl.Expand

/-!
# The uniform 32-bit decoder of `decode_stage`

The field extraction, the immediates and the opcode `case` of decode's
`always_comb`, as one function of the 32-bit word (`src_instr32`). `Ctrl` is the
bundle of signals the case drives; each opcode with nested cases is a definition
of its own. The legality flag starts at illegal and is cleared by recognised
encodings, as in the source.
-/

namespace YarvUc

/-! ## Field extraction -/

abbrev opcodeOf (w : Word) : BitVec 7 := w.extractLsb 6 0
abbrev rdField (w : Word) : BitVec 5 := w.extractLsb 11 7
abbrev funct3Of (w : Word) : BitVec 3 := w.extractLsb 14 12
abbrev rs1Field (w : Word) : BitVec 5 := w.extractLsb 19 15
abbrev rs2Field (w : Word) : BitVec 5 := w.extractLsb 24 20
abbrev funct7Of (w : Word) : BitVec 7 := w.extractLsb 31 25
abbrev funct5Of (w : Word) : BitVec 5 := w.extractLsb 31 27
abbrev funct12Of (w : Word) : BitVec 12 := w.extractLsb 31 20
/-- AMO ordering bits. -/
abbrev aqOf (w : Word) : Bool := w.getLsbD 26
abbrev rlOf (w : Word) : Bool := w.getLsbD 25

def immI (w : Word) : Word := (w.extractLsb 31 20).signExtend 32
def immS (w : Word) : Word := (w.extractLsb 31 25 ++ w.extractLsb 11 7).signExtend 32
def immB (w : Word) : Word :=
  (w.extractLsb 31 31 ++ w.extractLsb 7 7 ++ w.extractLsb 30 25 ++ w.extractLsb 11 8 ++ 0b0#1).signExtend 32
def immU (w : Word) : Word := w.extractLsb 31 12 ++ 0#12
def immJ (w : Word) : Word :=
  (w.extractLsb 31 31 ++ w.extractLsb 19 12 ++ w.extractLsb 20 20 ++ w.extractLsb 30 21 ++ 0b0#1).signExtend 32

/-- The decoded control signals, with the defaults decode assigns before the case.
`excReq` is the request of the opcode case alone (`ecall` / `ebreak`). -/
structure Ctrl where
  imm : Word := 0
  usesRs1 : Bool := false
  usesRs2 : Bool := false
  regWrite : Bool := false
  csrWren : Bool := false
  csrOp : CsrOp := .NONE
  aluOp : AluOp := .ADD
  aluSrcA : AluSrcA := .RS1
  aluSrcB : AluSrcB := .IMM
  memRead : Bool := false
  memWrite : Bool := false
  memSize : MemSize := .W
  memUnsigned : Bool := false
  memShamt : BitVec 2 := 0
  wbSrc : WbSrc := .ALU
  branchType : Branch := .NONE
  decIllegal : Bool := true
  sysOp : SysOp := .NONE
  excReq : Bool := false
  excCause : Word := 0
  excTval : Word := 0
deriving DecidableEq, Inhabited

/-! ## Opcode cases -/

def decBranch (w : Word) : Ctrl :=
  let c : Ctrl := { aluOp := .SUB, aluSrcA := .RS1, aluSrcB := .RS2, usesRs1 := true, usesRs2 := true,
                    imm := immB w }
  if funct3Of w = 0b000#3 then { c with branchType := .BEQ, decIllegal := false }
  else if funct3Of w = 0b001#3 then { c with branchType := .BNE, decIllegal := false }
  else if funct3Of w = 0b100#3 then { c with branchType := .BLT, decIllegal := false }
  else if funct3Of w = 0b101#3 then { c with branchType := .BGE, decIllegal := false }
  else if funct3Of w = 0b110#3 then { c with branchType := .BLTU, decIllegal := false }
  else if funct3Of w = 0b111#3 then { c with branchType := .BGEU, decIllegal := false }
  else c

def decLoad (w : Word) : Ctrl :=
  let c : Ctrl := { regWrite := true, aluOp := .ADD, aluSrcA := .RS1, aluSrcB := .IMM, wbSrc := .MEM,
                    memRead := true, usesRs1 := true, imm := immI w }
  if funct3Of w = 0b000#3 then { c with memSize := .B, memUnsigned := false, decIllegal := false }
  else if funct3Of w = 0b001#3 then { c with memSize := .H, memUnsigned := false, decIllegal := false }
  else if funct3Of w = 0b010#3 then { c with memSize := .W, memUnsigned := false, decIllegal := false }
  else if funct3Of w = 0b100#3 then { c with memSize := .B, memUnsigned := true, decIllegal := false }
  else if funct3Of w = 0b101#3 then { c with memSize := .H, memUnsigned := true, decIllegal := false }
  else c

def decStore (w : Word) : Ctrl :=
  let c : Ctrl := { aluOp := .ADD, aluSrcA := .RS1, aluSrcB := .IMM, memWrite := true, usesRs1 := true,
                    usesRs2 := true, imm := immS w }
  if funct3Of w = 0b000#3 then { c with memSize := .B, decIllegal := false }
  else if funct3Of w = 0b001#3 then { c with memSize := .H, decIllegal := false }
  else if funct3Of w = 0b010#3 then { c with memSize := .W, decIllegal := false }
  else c

def decOpImm (w : Word) : Ctrl :=
  let c : Ctrl := { regWrite := true, aluSrcA := .RS1, aluSrcB := .IMM, usesRs1 := true, imm := immI w,
                    decIllegal := false }
  if funct3Of w = 0b000#3 then { c with aluOp := .ADD }
  else if funct3Of w = 0b010#3 then { c with aluOp := .SLT }
  else if funct3Of w = 0b011#3 then { c with aluOp := .SLTU }
  else if funct3Of w = 0b100#3 then { c with aluOp := .XOR }
  else if funct3Of w = 0b110#3 then { c with aluOp := .OR }
  else if funct3Of w = 0b111#3 then { c with aluOp := .AND }
  else if funct3Of w = 0b001#3 then
    { c with aluOp := .SLL, decIllegal := funct7Of w != 0b0000000#7 }
  else
    { c with aluOp := if w.getLsbD 30 then .SRA else .SRL,
             decIllegal := funct7Of w != 0b0000000#7 && funct7Of w != 0b0100000#7 }

/-- `is_m_ext`. -/
def isMExt (w : Word) : Bool := opcodeOf w == OPC_OP && funct7Of w == 0b0000001#7

def decOp (w : Word) : Ctrl :=
  let c : Ctrl := { regWrite := true, aluSrcA := .RS1, aluSrcB := .RS2, usesRs1 := true, usesRs2 := true,
                    decIllegal := false }
  if isMExt w then
    if funct3Of w = 0b000#3 then { c with aluOp := .MUL }
    else if funct3Of w = 0b001#3 then { c with aluOp := .MULH }
    else if funct3Of w = 0b010#3 then { c with aluOp := .MULHSU }
    else if funct3Of w = 0b011#3 then { c with aluOp := .MULHU }
    else if funct3Of w = 0b100#3 then { c with aluOp := .DIV }
    else if funct3Of w = 0b101#3 then { c with aluOp := .DIVU }
    else if funct3Of w = 0b110#3 then { c with aluOp := .REM }
    else { c with aluOp := .REMU }
  else
    -- Any other funct7 than 0000000 and 0100000 is illegal, for every funct3.
    let c := { c with decIllegal := funct7Of w != 0b0000000#7 && funct7Of w != 0b0100000#7 }
    if funct3Of w = 0b000#3 then { c with aluOp := if w.getLsbD 30 then .SUB else .ADD }
    else if funct3Of w = 0b001#3 then { c with aluOp := .SLL }
    else if funct3Of w = 0b010#3 then { c with aluOp := .SLT }
    else if funct3Of w = 0b011#3 then { c with aluOp := .SLTU }
    else if funct3Of w = 0b100#3 then { c with aluOp := .XOR }
    else if funct3Of w = 0b101#3 then { c with aluOp := if w.getLsbD 30 then .SRA else .SRL }
    else if funct3Of w = 0b110#3 then { c with aluOp := .OR }
    else { c with aluOp := .AND }

/-- `is_unscaled` / `is_scaled` / `size_ok_rv32`. -/
def isUnscaled (w : Word) : Bool := funct5Of w == 0b10010#5
def isScaled (w : Word) : Bool := funct5Of w == 0b11010#5
def sizeOkRv32 (w : Word) : Bool :=
  funct3Of w == 0b000#3 || funct3Of w == 0b001#3 || funct3Of w == 0b010#3 || funct3Of w == 0b100#3 ||
    funct3Of w == 0b101#3

/-- `zilx_ok`: aq/rl clear, a Zilx mode, an RV32 size, no unscaled byte. -/
def zilxOk (w : Word) : Bool :=
  !(aqOf w || rlOf w) &&
    ((isUnscaled w && sizeOkRv32 w && w.extractLsb 13 12 != 0b00#2) || (isScaled w && sizeOkRv32 w))

/-- `mem_size` / `mem_unsigned` of an indexed load. -/
def zilxSize (w : Word) : MemSize × Bool :=
  if funct3Of w = 0b000#3 then (.B, false)
  else if funct3Of w = 0b001#3 then (.H, false)
  else if funct3Of w = 0b010#3 then (.W, false)
  else if funct3Of w = 0b100#3 then (.B, true)
  else if funct3Of w = 0b101#3 then (.H, true)
  else (.W, false)

def MemSize.log2 : MemSize → BitVec 2
  | .B => 0
  | .H => 1
  | .W => 2

def decAmo (w : Word) : Ctrl :=
  let c : Ctrl := { memSize := (zilxSize w).1, memUnsigned := (zilxSize w).2 }
  if zilxOk w then
    { c with memShamt := if isUnscaled w then 0 else (zilxSize w).1.log2, decIllegal := false,
             regWrite := true, memRead := true, aluOp := .LX, aluSrcA := .RS2, aluSrcB := .RS1,
             usesRs1 := true, usesRs2 := true, imm := 0, wbSrc := .MEM }
  else c

/-- `zimm`, zero-extended. -/
def zimmOf (w : Word) : Word := (rs1Field w).setWidth 32

def decSystem (w : Word) : Ctrl :=
  if funct3Of w ≠ 0b000#3 then
    let c : Ctrl := { regWrite := true, wbSrc := .CSR, csrWren := true, decIllegal := false }
    if funct3Of w = 0b001#3 then { c with csrOp := .RW, usesRs1 := true }
    else if funct3Of w = 0b010#3 then { c with csrOp := .RS, usesRs1 := true }
    else if funct3Of w = 0b011#3 then { c with csrOp := .RC, usesRs1 := true }
    else if funct3Of w = 0b101#3 then { c with csrOp := .RWI, imm := zimmOf w }
    else if funct3Of w = 0b110#3 then { c with csrOp := .RSI, imm := zimmOf w }
    else if funct3Of w = 0b111#3 then { c with csrOp := .RCI, imm := zimmOf w }
    else { c with decIllegal := true }
  -- rd, and for ecall / ebreak rs1, are not looked at below.
  else if funct12Of w = 0x000#12 then
    { sysOp := .ECALL, decIllegal := false, excReq := true, excCause := MCAUSE_ECALL_M }
  else if funct12Of w = 0x001#12 then
    { sysOp := .EBREAK, decIllegal := false, excReq := true, excCause := MCAUSE_BREAKPOINT }
  else if funct7Of w = 0b0001000#7 ∧ rs2Field w = 0b00101#5 ∧ rs1Field w = 0b00000#5 then
    { sysOp := .WFI, decIllegal := false }
  else if funct7Of w = 0b0011000#7 ∧ rs2Field w = 0b00010#5 ∧ rs1Field w = 0b00000#5 then
    { sysOp := .MRET, decIllegal := false }
  else {}

def decMiscMem (w : Word) : Ctrl :=
  if funct3Of w = 0b000#3 then { sysOp := .FENCE, decIllegal := false }
  else if funct3Of w = 0b001#3 then { sysOp := .FENCE_I, decIllegal := false }
  else {}

/-- The opcode case. -/
def decodeUniform (w : Word) : Ctrl :=
  if opcodeOf w = OPC_LUI then
    { regWrite := true, aluSrcA := .RS1, aluSrcB := .IMM, imm := immU w, decIllegal := false }
  else if opcodeOf w = OPC_AUIPC then
    { regWrite := true, aluSrcA := .PC, aluSrcB := .IMM, imm := immU w, decIllegal := false }
  else if opcodeOf w = OPC_JAL then
    { regWrite := true, aluSrcA := .PC, aluSrcB := .IMM, wbSrc := .PC4, branchType := .JAL, imm := immJ w,
      decIllegal := false }
  else if opcodeOf w = OPC_JALR then
    if funct3Of w = 0b000#3 then
      { regWrite := true, aluSrcA := .RS1, aluSrcB := .IMM, wbSrc := .PC4, branchType := .JALR,
        usesRs1 := true, imm := immI w, decIllegal := false }
    else {}
  else if opcodeOf w = OPC_BRANCH then decBranch w
  else if opcodeOf w = OPC_LOAD then decLoad w
  else if opcodeOf w = OPC_STORE then decStore w
  else if opcodeOf w = OPC_OP_IMM then decOpImm w
  else if opcodeOf w = OPC_OP then decOp w
  else if opcodeOf w = OPC_AMO then decAmo w
  else if opcodeOf w = OPC_SYSTEM then decSystem w
  else if opcodeOf w = OPC_MISC_MEM then decMiscMem w
  else {}

/-- `is_csr`. -/
def isCsr (w : Word) : Bool := opcodeOf w == OPC_SYSTEM && funct3Of w != 0b000#3

/-- `rs1_addr_dec`, `rs2_addr_dec`, `csr_addr_dec`: x0 / 0 when the instruction does not use the field. -/
def rs1AddrDec (w : Word) : BitVec 5 := if (decodeUniform w).usesRs1 then rs1Field w else 0
def rs2AddrDec (w : Word) : BitVec 5 := if (decodeUniform w).usesRs2 then rs2Field w else 0
def csrAddrDec (w : Word) : BitVec 12 := if isCsr w then funct12Of w else 0

end YarvUc
