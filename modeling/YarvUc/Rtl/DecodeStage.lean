import YarvUc.Rtl.Decoder
import YarvUc.Rtl.FetchStage

/-!
# `decode_stage`

Source selection over the fetch buffer's head and the RVC hold buffer, the
predictor's parallel classification, the D/E word and the next state. The
register file and the predictor answer combinationally, so their ports are
functions of the address decode drives.
-/

namespace YarvUc

/-- The hold buffer and the D/E register. -/
structure DecQ where
  hold : Bool
  holdWord : Word
  holdPc : Word
  holdPred : Bool
  holdGhr : Ghr
  de : DeT

def DecQ.reset : DecQ :=
  { hold := false, holdWord := 0, holdPc := 0, holdPred := false, holdGhr := 0, de := {} }

/-- One clock cycle. -/
structure DecCyc where
  p : Params
  q : DecQ
  fe : FePort
  regRead : BitVec 5 → Word
  stall : Bool
  flush : Bool
  exWbEn : Bool
  exWbAddr : BitVec 5
  exWbData : Word
  bpLookup : Word → BpLookupRsp

/-- What the selection chain drives: `src_word32`, `src_half16`, `src_pc`, `src_is_compressed`. -/
structure Src where
  word32 : Word
  half16 : BitVec 16
  pc : Word
  isCompressed : Bool

/-- `src_instr32`: one `c_expand` behind the selection. -/
def Src.instr32 (s : Src) : Word := if s.isCompressed then cExpand s.half16 else s.word32

/-! ## The predictor's flat classification of a source -/

namespace Src

variable (s : Src)

def cfCJal : Bool :=
  s.half16.extractLsb 1 0 == 0b01#2 &&
    (s.half16.extractLsb 15 13 == 0b001#3 || s.half16.extractLsb 15 13 == 0b101#3)
def cfCCond : Bool := s.half16.extractLsb 1 0 == 0b01#2 && s.half16.extractLsb 15 14 == 0b11#2
def cfCJalr : Bool :=
  s.half16.extractLsb 1 0 == 0b10#2 && s.half16.extractLsb 15 13 == 0b100#3 && s.half16.extractLsb 6 2 == 0#5 &&
    s.half16.extractLsb 11 7 != 0#5
def cfCRet : Bool :=
  s.cfCJalr && !s.half16.getLsbD 12 && (s.half16.extractLsb 11 7 == 1#5 || s.half16.extractLsb 11 7 == 5#5)

def cfNJal : Bool := opcodeOf s.word32 == OPC_JAL
def cfNJalr : Bool := opcodeOf s.word32 == OPC_JALR && funct3Of s.word32 == 0b000#3
def cfNCond : Bool := opcodeOf s.word32 == OPC_BRANCH && s.word32.extractLsb 14 13 != 0b01#2
def cfNRet : Bool := s.cfNJalr && rdField s.word32 == 0#5 && (rs1Field s.word32 == 1#5 || rs1Field s.word32 == 5#5)

def cfJal : Bool := if s.isCompressed then s.cfCJal else s.cfNJal
def cfCond : Bool := if s.isCompressed then s.cfCCond else s.cfNCond
def cfJalr : Bool := if s.isCompressed then s.cfCJalr else s.cfNJalr
def cfRet : Bool := if s.isCompressed then s.cfCRet else s.cfNRet

def predCjImm : Word :=
  (s.half16.extractLsb 12 12 ++ s.half16.extractLsb 8 8 ++ s.half16.extractLsb 10 10 ++ s.half16.extractLsb 9 9 ++
    s.half16.extractLsb 6 6 ++ s.half16.extractLsb 7 7 ++ s.half16.extractLsb 2 2 ++ s.half16.extractLsb 11 11 ++
    s.half16.extractLsb 5 5 ++ s.half16.extractLsb 4 4 ++ s.half16.extractLsb 3 3 ++ 0b0#1).signExtend 32
def predCbImm : Word :=
  (s.half16.extractLsb 12 12 ++ s.half16.extractLsb 6 5 ++ s.half16.extractLsb 2 2 ++ s.half16.extractLsb 11 10 ++
    s.half16.extractLsb 4 3 ++ 0b0#1).signExtend 32
def predNImmJ : Word :=
  (s.word32.extractLsb 31 31 ++ s.word32.extractLsb 19 12 ++ s.word32.extractLsb 20 20 ++
    s.word32.extractLsb 30 21 ++ 0b0#1).signExtend 32
def predNImmB : Word :=
  (s.word32.extractLsb 31 31 ++ s.word32.extractLsb 7 7 ++ s.word32.extractLsb 30 25 ++
    s.word32.extractLsb 11 8 ++ 0b0#1).signExtend 32

def predImm : Word :=
  if s.isCompressed then (if s.half16.getLsbD 14 then s.predCbImm else s.predCjImm)
  else if opcodeOf s.word32 = OPC_JAL then s.predNImmJ else s.predNImmB

def predDirTarget : Word := s.pc + s.predImm

end Src

namespace DecCyc

variable (d : DecCyc)

/-! ## Stitch predicates -/

def feIsCompressed : Bool := d.fe.instr.extractLsb 1 0 != 0b11#2
def holdIsSpan : Bool := d.q.holdWord.extractLsb 1 0 == 0b11#2
def holdPlainPending : Bool := d.q.hold && !d.holdIsSpan
def spanPending : Bool := d.q.hold && d.holdIsSpan
def fetchFault : Bool := d.fe.valid && d.fe.fault
def takeFault : Bool := d.fetchFault && !d.holdPlainPending
def isHoldPlain : Bool := d.holdPlainPending
def spanComplete : Bool := !d.takeFault && d.spanPending && d.fe.valid
def spanWait : Bool := !d.takeFault && d.spanPending && !d.fe.valid
def targetUpper : Bool := !d.takeFault && !d.q.hold && d.fe.valid && d.fe.pc.getLsbD 1
def targetSpan : Bool := d.targetUpper && d.fe.instr.extractLsb 17 16 == 0b11#2
def targetSpanComplete : Bool := d.targetSpan && d.fe.nextValid && !d.fe.nextFault
def targetSpanWait : Bool := d.targetSpan && !d.targetSpanComplete

/-! ## Source selection -/

/-- The priority chain. -/
def src : Src :=
  if d.takeFault then { word32 := 0, half16 := 0, pc := d.fe.pc, isCompressed := false }
  else if d.spanComplete then
    { word32 := d.fe.instr.extractLsb 15 0 ++ d.q.holdWord.extractLsb 15 0, half16 := 0, pc := d.q.holdPc,
      isCompressed := false }
  else if d.spanWait then { word32 := 0, half16 := 0, pc := d.q.holdPc, isCompressed := false }
  else if d.isHoldPlain then
    { word32 := 0, half16 := d.q.holdWord.extractLsb 15 0, pc := d.q.holdPc, isCompressed := true }
  else if d.targetSpanComplete then
    { word32 := d.fe.nextInstr.extractLsb 15 0 ++ d.fe.instr.extractLsb 31 16, half16 := 0, pc := d.fe.pc,
      isCompressed := false }
  else if d.targetSpanWait then { word32 := 0, half16 := 0, pc := d.fe.pc, isCompressed := false }
  else if d.targetUpper then
    { word32 := 0, half16 := d.fe.instr.extractLsb 31 16, pc := d.fe.pc, isCompressed := true }
  else if d.feIsCompressed then
    { word32 := 0, half16 := d.fe.instr.extractLsb 15 0, pc := d.fe.pc, isCompressed := true }
  else { word32 := d.fe.instr, half16 := 0, pc := d.fe.pc, isCompressed := false }

def bufferUpper : Bool := !d.q.hold && !d.targetUpper && d.fe.valid && d.feIsCompressed

def decodedValid : Bool :=
  d.takeFault || d.spanComplete || d.isHoldPlain ||
    (d.fe.valid && !d.q.hold && !d.takeFault && !d.targetSpanWait)

/-- The uniform decode of the selected word. -/
def ctrl : Ctrl := decodeUniform d.src.instr32

/-! ## Operands -/

def rs1AddrO : BitVec 5 := rs1AddrDec d.src.instr32
def rs2AddrO : BitVec 5 := rs2AddrDec d.src.instr32

def fwdRs1 : Bool := d.exWbEn && d.exWbAddr != 0 && d.rs1AddrO == d.exWbAddr
def fwdRs2 : Bool := d.exWbEn && d.exWbAddr != 0 && d.rs2AddrO == d.exWbAddr
def rs1Fwd : Word := if d.fwdRs1 then d.exWbData else d.regRead d.rs1AddrO
def rs2Fwd : Word := if d.fwdRs2 then d.exWbData else d.regRead d.rs2AddrO

/-! ## Exceptions -/

def excIllegal : Bool := d.ctrl.decIllegal && d.decodedValid

/-- `exc_req` / `exc_cause` / `exc_tval`: access fault over illegal over ecall / ebreak. -/
def excReq : Bool := d.takeFault || d.excIllegal || d.ctrl.excReq
def excCause : Word :=
  if d.takeFault then MCAUSE_INSTR_ACC else if d.excIllegal then MCAUSE_ILLEGAL else d.ctrl.excCause
def excTval : Word :=
  if d.takeFault then d.fe.pc else if d.excIllegal then d.src.instr32 else d.ctrl.excTval

/-! ## Prediction -/

def isCf : Bool := d.decodedValid && (d.src.cfJal || d.src.cfJalr || d.src.cfCond)
def isReturnCf : Bool := d.decodedValid && d.src.cfRet

def phtTakenSrc : Bool :=
  if d.p.bpPushLookup then
    (if d.spanComplete || d.isHoldPlain then d.q.holdPred
     else if d.fe.pc.getLsbD 1 then d.fe.predHi else d.fe.predLo)
  else (d.bpLookup d.src.pc).phtTaken
def phtGhrSrc : Ghr :=
  if d.p.bpPushLookup then (if d.spanComplete || d.isHoldPlain then d.q.holdGhr else d.fe.ghr) else 0
def phtIndexSrc : PhtIdx :=
  if d.p.bpPushLookup then d.src.pc.extractLsb 7 1 ^^^ d.phtGhrSrc else (d.bpLookup d.src.pc).phtIndex

def cfTaken : Bool :=
  d.src.cfJal || (d.src.cfCond && d.phtTakenSrc) || (d.src.cfRet && (d.bpLookup d.src.pc).rasValid)
def cfTarget : Word := if d.src.cfRet then (d.bpLookup d.src.pc).rasTop else d.src.predDirTarget

def predTaken : Bool := d.isCf && d.cfTaken
def predSource : PredSource :=
  if d.isCf then
    (if d.src.cfRet then .RAS else if d.src.cfCond then .PHT else if d.src.cfJal then .DIRECT else .NONE)
  else .NONE
def predTarget : Word :=
  if d.isCf then
    (if d.src.cfRet then (d.bpLookup d.src.pc).rasTop
     else if d.src.cfCond || d.src.cfJal then d.src.predDirTarget else 0)
  else 0
def predPhtIndex : PhtIdx := if d.isCf && !d.src.cfRet && d.src.cfCond then d.phtIndexSrc else 0

/-! ## The D/E word of this cycle -/

/-- `de_d`. An illegal encoding clears the write and memory enables and the branch type. -/
def deD : DeT where
  valid := d.decodedValid
  pc := d.src.pc
  instr := d.src.instr32
  isCompressed := d.src.isCompressed
  rs1Addr := d.rs1AddrO
  rs1Data := d.rs1Fwd
  rs2Data := d.rs2Fwd
  imm := d.ctrl.imm
  rd := rdField d.src.instr32
  regWrite := !d.ctrl.decIllegal && d.ctrl.regWrite
  csrWren := !d.ctrl.decIllegal && d.ctrl.csrWren
  csrOp := d.ctrl.csrOp
  csrAddr := csrAddrDec d.src.instr32
  aluOp := d.ctrl.aluOp
  aluSrcA := d.ctrl.aluSrcA
  aluSrcB := d.ctrl.aluSrcB
  memRead := !d.ctrl.decIllegal && d.ctrl.memRead
  memWrite := !d.ctrl.decIllegal && d.ctrl.memWrite
  memSize := d.ctrl.memSize
  memUnsigned := d.ctrl.memUnsigned
  memShamt := d.ctrl.memShamt
  wbSrc := d.ctrl.wbSrc
  branchType := if d.ctrl.decIllegal then .NONE else d.ctrl.branchType
  sysOp := d.ctrl.sysOp
  exception := d.excReq
  exceptionCause := d.excCause
  exceptionTval := d.excTval
  illegal := d.ctrl.decIllegal && d.decodedValid
  predValid := d.p.bpEn && d.isCf
  predTaken := d.p.bpEn && d.predTaken
  predTarget := if d.p.bpEn then d.predTarget else 0
  predSource := if d.p.bpEn then d.predSource else .NONE
  predPhtIndex := if d.p.bpEn then d.predPhtIndex else 0

/-- `pred_redirect_fire`. -/
def predRedirectFire : Bool := d.p.bpEn && d.isCf && d.cfTaken && !d.stall && !d.flush

/-! ## Outputs to fetch -/

def resourceStall : Bool := d.holdPlainPending && d.fe.valid
/-- `stall_o`. -/
def stallO : Bool := d.resourceStall || d.stall
/-- `fe_pop2_o`. -/
def fePop2 : Bool := d.targetSpanComplete

/-! ## Next state -/

/-- A stash of the upper half of `w`, at `pc`. -/
def stash (w : Word) (pc : Word) (pred : Bool) (ghr : Ghr) : DecQ :=
  { hold := true, holdWord := (w.extractLsb 31 16).setWidth 32, holdPc := pc, holdPred := pred, holdGhr := ghr,
    de := {} }

/-- The hold buffer after the edge (the D/E field is set in `next`). -/
def holdNext : DecQ :=
  if d.flush then { d.q with hold := false }
  else if d.predRedirectFire then { d.q with hold := false }
  else if d.takeFault then { d.q with hold := false }
  else if d.stall then d.q
  else if d.spanWait then d.q
  else if d.spanComplete then stash d.fe.instr (d.fe.pc + 2) d.fe.predHi d.fe.ghr
  else if d.isHoldPlain then { d.q with hold := false }
  else if d.targetSpanComplete then stash d.fe.nextInstr (d.fe.nextPc + 2) d.fe.nextPredHi d.fe.nextGhr
  else if d.targetSpanWait then stash d.fe.instr d.fe.pc d.fe.predHi d.fe.ghr
  else if d.bufferUpper then stash d.fe.instr (d.fe.pc + 2) d.fe.predHi d.fe.ghr
  else { d.q with hold := false }

/-- The D/E register after the edge. -/
def deNext : DeT := if d.flush then {} else if d.stall then d.q.de else d.deD

def next : DecQ := { d.holdNext with de := d.deNext }

end DecCyc

end YarvUc
