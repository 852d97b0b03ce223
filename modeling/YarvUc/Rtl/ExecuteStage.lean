import YarvUc.Rtl.Alu
import YarvUc.Rtl.Csr

/-!
# `execute_stage`

Operand selection, the ALU instance, the DIV/LSU/CSR state machine, trap and
interrupt arbitration, writeback, branch resolve and predictor training. The wires
that read the D/E register alone come first, on `DeT`; `ExCyc` is one clock cycle
with all the others. Both keep the source's names. The trap unit's resolved redirect
is the only input the trigger wires do not read, so `branchAddrO` takes it as an
argument.
-/

namespace YarvUc

/-- `ex_state_e`. -/
inductive ExState where
  | IDLE | MEM_LAUNCH | MEM_TRAP | DIV_BUSY | MEM_WAIT | CSR_WAIT
deriving DecidableEq, Inhabited, Repr

/-- The flops, the ALU's included. -/
structure ExQ where
  state : ExState
  memAddr : Word
  memWdata : Word
  memWstrb : BitVec 4
  memIsPeri : Bool
  wfiHalt : Bool
  wfiNextPc : Word
  exPc : Word
  exInstr : Word
  exValid : Bool
  alu : AluQ

def ExQ.reset : ExQ :=
  { state := .IDLE, memAddr := 0, memWdata := 0, memWstrb := 0, memIsPeri := false, wfiHalt := false,
    wfiNextPc := 0, exPc := 0, exInstr := 0, exValid := false, alu := .reset }

/-- `misaligned_of`. -/
def misalignedOf (size : MemSize) (a : Word) : Bool :=
  match size with
  | .B => false
  | .H => a.getLsbD 0
  | .W => a.extractLsb 1 0 != 0

/-! ## Wires of the D/E register -/

namespace DeT

variable (de : DeT)

def pcLink : Word := de.pc + (if de.isCompressed then 2 else 4)

def operandA : Word :=
  match de.aluSrcA with
  | .RS1 => de.rs1Data
  | .PC => de.pc
  | .RS2 => de.rs2Data

def operandB : Word :=
  match de.aluSrcB with
  | .RS1 => de.rs1Data
  | .IMM => de.imm
  | .RS2 => de.rs2Data

def isDivOp : Bool := de.aluOp == .DIV || de.aluOp == .DIVU || de.aluOp == .REM || de.aluOp == .REMU
def isMemOp : Bool := de.memRead || de.memWrite
def isCsrOp : Bool := de.csrWren
def isWfiOp : Bool := de.sysOp == .WFI
def isMretOp : Bool := de.sysOp == .MRET

/-- The ALU's inputs. The address tap and the combinational results do not read `start_i`,
which `aluIn` adds below. -/
def aluComb : AluIn where
  operandA := de.operandA
  operandB := de.operandB
  aluOp := de.aluOp
  shamt := de.memShamt
  start := false

/-- `lsu_ea`. -/
def lsuEa : Word := de.aluComb.ea

def isPeriLive : Bool := de.lsuEa.getLsbD PERI_ADDR_BIT
def memMisalignedLive : Bool := misalignedOf de.memSize de.lsuEa

def storeWstrb : BitVec 4 :=
  match de.memSize with
  | .B => 0b0001#4 <<< de.lsuEa.extractLsb 1 0
  | .H => 0b0011#4 <<< (de.lsuEa.extractLsb 1 1 ++ 0b0#1)
  | .W => 0b1111#4

def storeWdata : Word := de.rs2Data <<< (de.lsuEa.extractLsb 1 0 ++ 0b000#3)

/-- `load_shifted` and `load_data`, from the response's word and the latched address. -/
def loadShifted (rdata memAddr : Word) : Word := rdata >>> (memAddr.extractLsb 1 0 ++ 0b000#3)

def loadData (rdata memAddr : Word) : Word :=
  let shifted := loadShifted rdata memAddr
  match de.memSize with
  | .B => if de.memUnsigned then (shifted.extractLsb 7 0).setWidth 32 else (shifted.extractLsb 7 0).signExtend 32
  | .H => if de.memUnsigned then (shifted.extractLsb 15 0).setWidth 32 else (shifted.extractLsb 15 0).signExtend 32
  | .W => rdata

def csrSrc : Word := if de.csrOp = .RWI ∨ de.csrOp = .RSI ∨ de.csrOp = .RCI then de.imm else de.rs1Data

/-- `csr_new`, from the CSR's old value. -/
def csrNew (csrRdata : Word) : Word :=
  match de.csrOp with
  | .RW | .RWI => de.csrSrc
  | .RS | .RSI => csrRdata ||| de.csrSrc
  | .RC | .RCI => csrRdata &&& ~~~de.csrSrc
  | .NONE => 0

def branchTaken : Bool :=
  match de.branchType with
  | .BEQ => de.rs1Data == de.rs2Data
  | .BNE => de.rs1Data != de.rs2Data
  | .BLT => de.rs1Data.slt de.rs2Data
  | .BGE => de.rs2Data.sle de.rs1Data
  | .BLTU => de.rs1Data.ult de.rs2Data
  | .BGEU => de.rs2Data.ule de.rs1Data
  | .JAL => true
  | .JALR => true
  | .NONE => false

def branchTarget : Word :=
  if de.branchType = .JALR then (de.rs1Data + de.imm) &&& 0xFFFFFFFE#32 else de.pc + de.imm

def predT : Bool := de.predValid && de.predTaken
def dirMispredict : Bool := de.predT ^^ de.branchTaken
def tgtMispredict : Bool := de.predT && de.branchTaken && de.branchTarget != de.predTarget

def exIsCond : Bool :=
  match de.branchType with
  | .BEQ | .BNE | .BLT | .BGE | .BLTU | .BGEU => true
  | _ => false
def exIsJalr : Bool := de.branchType == .JALR
def exIsCall : Bool := (de.branchType == .JAL || de.exIsJalr) && (de.rd == 1 || de.rd == 5)
def exIsReturn : Bool := de.exIsJalr && (de.rs1Addr == 1 || de.rs1Addr == 5) && de.rd == 0

end DeT

/-! ## The stage -/

/-- One clock cycle. -/
structure ExCyc where
  p : Params
  q : ExQ
  de : DeT
  csrRdata : Word
  intPending : Bool
  intCause : Word
  stallI : Bool
  memRsp : MemRsp
  periRsp : MemRsp

namespace ExCyc

variable (e : ExCyc)

def inState (s : ExState) : Bool := e.q.state == s

/-! ## Freeze -/

def wfiStall : Bool := e.q.wfiHalt && !e.intPending
def freeze : Bool := e.stallI || e.wfiStall

/-! ## The ALU -/

def aluResultValid : Bool := e.q.alu.resultValid e.de.aluComb
def aluResult : Word := e.q.alu.result e.de.aluComb e.p.mulSharedDsp

/-! ## Memory launch -/

def memReqPending : Bool :=
  e.de.valid && e.de.isMemOp && e.inState .IDLE && !e.freeze && !e.de.exception && !e.q.wfiHalt

def isPeriRsp : Bool := e.q.memIsPeri
def lsuRspWait : MemRsp := if e.isPeriRsp then e.periRsp else e.memRsp

def memMisalignedQ : Bool := misalignedOf e.de.memSize e.q.memAddr
def memMisalignedLaunch : Bool := e.p.lsuLiveLoad && e.memReqPending && e.de.memMisalignedLive

def misalignedTrap : Bool :=
  e.de.valid &&
    (if e.p.lsuLiveLoad then e.inState .MEM_TRAP else e.inState .MEM_LAUNCH && e.memMisalignedQ)

def dmemLoadDrive : Bool :=
  e.p.lsuLiveLoad && e.memReqPending && !e.de.memMisalignedLive && !e.de.isPeriLive && e.de.memRead
def memCapture : Bool := e.memReqPending && !e.dmemLoadDrive && !e.memMisalignedLaunch
def memLaunchState : Bool := e.inState .MEM_LAUNCH
def capturedDrive : Bool := e.memLaunchState && e.de.valid && !e.misalignedTrap
def dmemCapturedDrive : Bool := e.capturedDrive && !e.isPeriRsp
def dmemStoreWe : Bool := e.dmemCapturedDrive && e.de.memWrite
def dmemLoadHs : Bool := e.dmemLoadDrive && e.memRsp.wready
def capturedHs : Bool := e.capturedDrive && e.lsuRspWait.wready

def memDone : Bool := e.inState .MEM_WAIT && e.lsuRspWait.rvalid
def storeDone : Bool := e.capturedHs && e.de.memWrite
def memOpDone : Bool := if e.de.memRead then e.memDone else e.storeDone

def divRunning : Bool := e.inState .DIV_BUSY && !e.aluResultValid
def memRunning : Bool := e.inState .MEM_WAIT && !e.memDone

/-! ## Traps, interrupts, mret -/

def syncTrapReq : Bool := (e.de.valid && !e.freeze && e.inState .IDLE && e.de.exception) || e.misalignedTrap
def mretReq : Bool := e.de.valid && !e.freeze && e.inState .IDLE && e.de.isMretOp
def normalIntEligible : Bool :=
  e.de.valid && !e.de.isWfiOp && !e.de.exception && !e.de.isMemOp && e.inState .IDLE && !e.freeze
def takeInterrupt : Bool := e.intPending && !e.syncTrapReq && !e.mretReq && (e.normalIntEligible || e.q.wfiHalt)
def trapRedirectReq : Bool := e.syncTrapReq || e.mretReq || e.takeInterrupt

def syncCause : Word :=
  if e.misalignedTrap then (if e.de.memWrite then MCAUSE_SAD_MIS else MCAUSE_LAD_MIS) else e.de.exceptionCause
def syncTval : Word := if e.misalignedTrap then e.q.memAddr else e.de.exceptionTval
def trapCause : Word := if e.takeInterrupt then e.intCause else e.syncCause
def trapTval : Word := if e.takeInterrupt then 0 else e.syncTval
def trapMepc : Word := if e.q.wfiHalt then e.q.wfiNextPc else e.de.pc

/-- The triggers and payload exported to the trap unit. -/
def trapIn : TrapIn where
  takeTrap := e.syncTrapReq
  takeInterrupt := e.takeInterrupt
  mret := e.mretReq
  cause := e.trapCause
  tval := e.trapTval
  pc := e.trapMepc

/-- `wfi_retire`: not gated on `freeze`. -/
def wfiRetire : Bool := e.de.valid && e.inState .IDLE && e.de.isWfiOp && !e.trapRedirectReq && !e.stallI

/-! ## State machine -/

def aluStart : Bool := e.de.valid && e.de.isDivOp && e.inState .IDLE && !e.freeze && !e.trapRedirectReq
def csrStart : Bool := e.de.valid && e.de.isCsrOp && e.inState .IDLE && !e.freeze && !e.trapRedirectReq
def csrReady : Bool := e.inState .CSR_WAIT

/-- The ALU's inputs with `start_i`. -/
def aluIn : AluIn := { e.de.aluComb with start := e.aluStart }

/-- `stall_o`. -/
def stallO : Bool :=
  e.aluStart || e.divRunning || ((e.memReqPending || e.memLaunchState) && !e.storeDone) || e.inState .MEM_TRAP ||
    e.memRunning || e.csrStart || e.stallI || e.wfiStall

/-- `ex_state_d`. -/
def stateD : ExState :=
  match e.q.state with
  | .IDLE =>
    if e.aluStart then .DIV_BUSY
    else if e.memMisalignedLaunch then .MEM_TRAP
    else if e.memCapture then .MEM_LAUNCH
    else if e.dmemLoadHs then .MEM_WAIT
    else if e.csrStart then .CSR_WAIT
    else .IDLE
  | .CSR_WAIT => .IDLE
  | .MEM_LAUNCH =>
    if e.misalignedTrap then .IDLE
    else if e.capturedHs then (if e.de.memRead then .MEM_WAIT else .IDLE)
    else .MEM_LAUNCH
  | .MEM_TRAP => .IDLE
  | .DIV_BUSY => if e.aluResultValid then .IDLE else .DIV_BUSY
  | .MEM_WAIT => if e.memDone then .IDLE else .MEM_WAIT

/-! ## Writeback -/

def wbEarly : Word :=
  match e.de.wbSrc with
  | .PC4 => e.de.pcLink
  | .MEM => e.de.loadData e.lsuRspWait.rdata e.q.memAddr
  | .CSR => e.csrRdata
  | .ALU => 0

def wbData : Word := if e.de.wbSrc = .ALU then e.aluResult else e.wbEarly

def resultReady : Bool := if e.de.isMemOp then e.memOpDone else if e.de.isCsrOp then e.csrReady else e.aluResultValid

def wbEn : Bool := e.de.valid && e.de.regWrite && !e.freeze && e.resultReady && !e.trapRedirectReq

/-! ## CSR read-modify-write -/

def csrOpValid : Bool := e.de.valid && e.de.csrWren && !e.freeze && e.resultReady && !e.trapRedirectReq

def csrNew : Word := e.de.csrNew e.csrRdata

def csrWe : Bool :=
  match e.de.csrOp with
  | .RW | .RWI => e.csrOpValid
  | .RS | .RSI | .RC | .RCI => e.csrOpValid && e.de.csrSrc != 0
  | .NONE => false

/-! ## Bus requests -/

/-- Read-data phase: `EX_MEM_WAIT` on a load. -/
def readPhase : Bool := e.inState .MEM_WAIT && e.de.memRead

/-- `mem_req_o` (D-mem). -/
def memReq : MemReq :=
  if e.dmemLoadDrive then
    { wvalid := true, we := false, addr := e.de.lsuEa, wdata := 0, wstrb := 0,
      rready := e.readPhase && !e.isPeriRsp }
  else if e.isPeriRsp then
    { wvalid := false, we := false, addr := 0, wdata := 0, wstrb := 0, rready := false }
  else
    { wvalid := e.dmemCapturedDrive, we := e.dmemStoreWe, addr := e.q.memAddr, wdata := e.q.memWdata,
      wstrb := e.q.memWstrb, rready := e.readPhase }

/-- `peri_req_o`. -/
def periReq : MemReq :=
  if e.dmemLoadDrive then
    { wvalid := false, we := false, addr := 0, wdata := 0, wstrb := 0, rready := e.readPhase && e.isPeriRsp }
  else if e.isPeriRsp then
    { wvalid := e.capturedDrive, we := e.capturedDrive && e.de.memWrite, addr := e.q.memAddr,
      wdata := e.q.memWdata, wstrb := e.q.memWstrb, rready := e.readPhase }
  else { wvalid := false, we := false, addr := 0, wdata := 0, wstrb := 0, rready := false }

/-! ## Branch resolve -/

def cfResolving : Bool :=
  e.de.valid && !e.de.illegal && e.de.branchType != .NONE && !e.freeze && !e.trapRedirectReq

def mispredict : Bool := e.cfResolving && (e.de.dirMispredict || e.de.tgtMispredict)

/-- `branch_valid_o`, which is also `flush_o`. -/
def branchValidO : Bool := e.mispredict || e.trapRedirectReq
def flushO : Bool := e.branchValidO

/-- `branch_addr_o`, from the trap unit's resolved redirect. -/
def branchAddrO (trapRedirectAddr : Word) : Word :=
  if e.trapRedirectReq then trapRedirectAddr else if e.de.branchTaken then e.de.branchTarget else e.de.pcLink

/-! ## Training -/

/-- `bp_train_o`. -/
def bpTrain : BpTrain where
  valid := e.cfResolving
  cond := e.cfResolving && e.de.exIsCond
  call := e.cfResolving && e.de.exIsCall
  ret := e.cfResolving && e.de.exIsReturn
  taken := e.de.branchTaken
  phtIndex := e.de.predPhtIndex
  pushPc := e.de.pcLink

/-! ## Commit -/

/-- `op_commits`. -/
def opCommits : Bool := e.mretReq || (e.de.valid && !e.freeze && e.resultReady && !e.trapRedirectReq)

/-- The clock edge. -/
def next : ExQ where
  state := e.stateD
  memAddr := if e.memReqPending then e.de.lsuEa else e.q.memAddr
  memWdata := if e.memReqPending then e.de.storeWdata else e.q.memWdata
  memWstrb := if e.memReqPending then e.de.storeWstrb else e.q.memWstrb
  memIsPeri := if e.memReqPending then e.de.isPeriLive else e.q.memIsPeri
  wfiHalt := e.wfiRetire || (e.q.wfiHalt && !e.intPending)
  wfiNextPc := if e.wfiRetire then e.de.pcLink else e.q.wfiNextPc
  exPc := if e.opCommits then e.de.pc else e.q.exPc
  exInstr := if e.opCommits then e.de.instr else e.q.exInstr
  exValid := e.opCommits
  alu := e.q.alu.next e.aluIn

end ExCyc

end YarvUc
