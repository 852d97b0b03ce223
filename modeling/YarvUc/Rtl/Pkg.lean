import Mathlib.Data.BitVec

/-!
# `rv32_pkg`: widths, bundles and enumerations

One Lean name per name of the SystemVerilog package, in the package's order.
Packed structs become structures, enums become inductives; a bundle that only
crosses a port keeps the port's field names. Every enum's first constructor is
its all-zero encoding, so the `default` of a structure is the SystemVerilog `'0`.
-/

namespace YarvUc

abbrev Word := BitVec 32

/-- Branch-predictor geometry: `BP_PHT_IDX_W = BP_GHR_W = 7`, `BP_RAS_DEPTH = 8`. -/
abbrev PhtIdx := BitVec 7
abbrev Ghr := BitVec 7

/-! ## Native memory bundles -/

/-- `mem_req_t`: master to slave. -/
structure MemReq where
  wvalid : Bool := false
  we : Bool := false
  addr : Word := 0
  wdata : Word := 0
  wstrb : BitVec 4 := 0
  rready : Bool := false
deriving DecidableEq, Inhabited

/-- `mem_rsp_t`: slave to master. -/
structure MemRsp where
  wready : Bool := false
  rvalid : Bool := false
  rdata : Word := 0
  bvalid : Bool := false
deriving DecidableEq, Inhabited

/-- `ifetch_req_t`. -/
structure IfetchReq where
  valid : Bool
  addr : Word
  rready : Bool

/-- `ifetch_rsp_t`. -/
structure IfetchRsp where
  ready : Bool
  rvalid : Bool
  rdata : BitVec 64

/-! ## Branch-predictor bundles -/

/-- `bp_push_rsp_t`. -/
structure BpPushRsp where
  ghr : Ghr
  pred0Lo : Bool
  pred0Hi : Bool
  pred1Lo : Bool
  pred1Hi : Bool

/-- `bp_lookup_rsp_t`. -/
structure BpLookupRsp where
  phtTaken : Bool
  rasValid : Bool
  rasTop : Word
  phtIndex : PhtIdx

/-- `bp_train_t`. -/
structure BpTrain where
  valid : Bool
  cond : Bool
  call : Bool
  ret : Bool
  taken : Bool
  phtIndex : PhtIdx
  pushPc : Word

/-! ## Opcodes -/

def OPC_LUI : BitVec 7 := 0b0110111#7
def OPC_AUIPC : BitVec 7 := 0b0010111#7
def OPC_JAL : BitVec 7 := 0b1101111#7
def OPC_JALR : BitVec 7 := 0b1100111#7
def OPC_BRANCH : BitVec 7 := 0b1100011#7
def OPC_LOAD : BitVec 7 := 0b0000011#7
def OPC_STORE : BitVec 7 := 0b0100011#7
def OPC_OP_IMM : BitVec 7 := 0b0010011#7
def OPC_OP : BitVec 7 := 0b0110011#7
def OPC_MISC_MEM : BitVec 7 := 0b0001111#7
def OPC_SYSTEM : BitVec 7 := 0b1110011#7
def OPC_AMO : BitVec 7 := 0b0101111#7

/-! ## Enumerations of the D/E control word -/

/-- `alu_op_t`. -/
inductive AluOp where
  | ADD | SUB | SLL | SLT | SLTU | XOR | SRL | SRA | OR | AND
  | MUL | MULH | MULHSU | MULHU | DIV | DIVU | REM | REMU
  | LX
deriving DecidableEq, Inhabited, Repr

/-- `branch_t`. -/
inductive Branch where
  | NONE | BEQ | BNE | BLT | BGE | BLTU | BGEU | JAL | JALR
deriving DecidableEq, Inhabited, Repr

/-- `alu_src_a_t`. -/
inductive AluSrcA where
  | RS1 | PC | RS2
deriving DecidableEq, Inhabited, Repr

/-- `alu_src_b_t`. -/
inductive AluSrcB where
  | RS1 | IMM | RS2
deriving DecidableEq, Inhabited, Repr

/-- `wb_src_t`. -/
inductive WbSrc where
  | ALU | MEM | PC4 | CSR
deriving DecidableEq, Inhabited, Repr

/-- `mem_size_t`; the fourth encoding is never produced. -/
inductive MemSize where
  | B | H | W
deriving DecidableEq, Inhabited, Repr

/-- `csr_op_t`. -/
inductive CsrOp where
  | NONE | RW | RS | RC | RWI | RSI | RCI
deriving DecidableEq, Inhabited, Repr

/-- `pred_source_t`. -/
inductive PredSource where
  | NONE | DIRECT | PHT | RAS
deriving DecidableEq, Inhabited, Repr

/-- `sys_op_t`. -/
inductive SysOp where
  | NONE | ECALL | EBREAK | MRET | WFI | FENCE | FENCE_I
deriving DecidableEq, Inhabited, Repr

/-! ## Trap causes and CSR addresses -/

def MCAUSE_INSTR_ACC : Word := 0x00000001#32
def MCAUSE_ILLEGAL : Word := 0x00000002#32
def MCAUSE_BREAKPOINT : Word := 0x00000003#32
def MCAUSE_LAD_MIS : Word := 0x00000004#32
def MCAUSE_SAD_MIS : Word := 0x00000006#32
def MCAUSE_ECALL_M : Word := 0x0000000B#32
def MCAUSE_MSI : Word := 0x80000003#32
def MCAUSE_MTI : Word := 0x80000007#32
def MCAUSE_MEI : Word := 0x8000000B#32

/-- `MSTATUS_RESET`: MPP = M, MIE = MPIE = 0. -/
def MSTATUS_RESET : Word := 0x00001800#32

def CSR_ADDR_MSTATUS : BitVec 12 := 0x300#12
def CSR_ADDR_MISA : BitVec 12 := 0x301#12
def CSR_ADDR_MIE : BitVec 12 := 0x304#12
def CSR_ADDR_MTVEC : BitVec 12 := 0x305#12
def CSR_ADDR_MSCRATCH : BitVec 12 := 0x340#12
def CSR_ADDR_MEPC : BitVec 12 := 0x341#12
def CSR_ADDR_MCAUSE : BitVec 12 := 0x342#12
def CSR_ADDR_MTVAL : BitVec 12 := 0x343#12
def CSR_ADDR_MIP : BitVec 12 := 0x344#12
def CSR_ADDR_MCYCLE : BitVec 12 := 0xB00#12
def CSR_ADDR_MINSTRET : BitVec 12 := 0xB02#12

/-- `PERI_ADDR_BIT`: the LSU steers an access with this address bit set to the
peripheral port. -/
abbrev PERI_ADDR_BIT : Nat := 28

/-! ## The D/E register -/

/-- `de_t`. -/
structure DeT where
  valid : Bool := false
  pc : Word := 0
  instr : Word := 0
  isCompressed : Bool := false
  rs1Addr : BitVec 5 := 0
  rs1Data : Word := 0
  rs2Data : Word := 0
  imm : Word := 0
  rd : BitVec 5 := 0
  regWrite : Bool := false
  csrWren : Bool := false
  csrOp : CsrOp := .NONE
  csrAddr : BitVec 12 := 0
  aluOp : AluOp := .ADD
  aluSrcA : AluSrcA := .RS1
  aluSrcB : AluSrcB := .RS1
  memRead : Bool := false
  memWrite : Bool := false
  memSize : MemSize := .B
  memUnsigned : Bool := false
  memShamt : BitVec 2 := 0
  wbSrc : WbSrc := .ALU
  branchType : Branch := .NONE
  sysOp : SysOp := .NONE
  exception : Bool := false
  exceptionCause : Word := 0
  exceptionTval : Word := 0
  illegal : Bool := false
  predValid : Bool := false
  predTaken : Bool := false
  predTarget : Word := 0
  predSource : PredSource := .NONE
  predPhtIndex : PhtIdx := 0
deriving DecidableEq, Inhabited

/-! ## Build parameters -/

/-- The build parameters of the CPU (`rv32imac_zicsr_zifencei`), with the range of
`IMEM_ADDR_W` the address slices of fetch and of the I-mem need. -/
structure Params where
  imemAddrW : Nat
  imem_lower : 3 < imemAddrW
  imem_upper : imemAddrW < 32
  bpEn : Bool
  bpPushLookup : Bool
  mulSharedDsp : Bool
  execRedirIncycle : Bool
  lsuLiveLoad : Bool

/-- The build of `top_module`. -/
def Params.board : Params :=
  { imemAddrW := 14, imem_lower := by decide, imem_upper := by decide, bpEn := true, bpPushLookup := false,
    mulSharedDsp := false, execRedirIncycle := false, lsuLiveLoad := true }

end YarvUc
