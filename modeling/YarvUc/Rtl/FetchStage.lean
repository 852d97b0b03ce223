import YarvUc.Rtl.Pkg

/-!
# `fetch_stage`

The PC, the 64-bit I-mem port and the depth-8 instruction buffer. `FetchCyc` is
one clock cycle (parameters, flops, inputs); its wires are named after the source.
-/

namespace YarvUc

/-- One buffer slot: `buf_instr_q` .. `buf_ghr_q`. -/
structure BufEntry where
  instr : Word
  pc : Word
  fault : Bool
  predLo : Bool
  predHi : Bool
  ghr : Ghr
deriving Inhabited

/-- The flops. -/
structure FetchQ where
  pc : Word
  reqPc : Word
  inflight : BitVec 2
  stale : BitVec 2
  redirLaunched : Bool
  head : BitVec 3
  tail : BitVec 3
  count : BitVec 4
  buf : BitVec 3 → BufEntry

/-- The head and head+1 ports decode reads. -/
structure FePort where
  instr : Word
  pc : Word
  valid : Bool
  fault : Bool
  predLo : Bool
  predHi : Bool
  ghr : Ghr
  nextInstr : Word
  nextPc : Word
  nextValid : Bool
  nextFault : Bool
  nextPredHi : Bool
  nextGhr : Ghr

namespace FetchQ

/-- The reset branch; the buffer slots are not reset. -/
def reset (boot : Word) (q : FetchQ) : FetchQ :=
  { q with pc := boot, reqPc := 0, inflight := 0, stale := 0, redirLaunched := false, head := 0, tail := 0,
           count := 0 }

/-- `fe_*_o`. -/
def fePort (q : FetchQ) : FePort where
  instr := (q.buf q.head).instr
  pc := (q.buf q.head).pc
  valid := q.count != 0
  fault := (q.buf q.head).fault
  predLo := (q.buf q.head).predLo
  predHi := (q.buf q.head).predHi
  ghr := (q.buf q.head).ghr
  nextInstr := (q.buf (q.head + 1)).instr
  nextPc := (q.buf (q.head + 1)).pc
  nextValid := decide (2 ≤ q.count)
  nextFault := (q.buf (q.head + 1)).fault
  nextPredHi := (q.buf (q.head + 1)).predHi
  nextGhr := (q.buf (q.head + 1)).ghr

/-- `imem_req_o.rready`: registers only. -/
def rready (q : FetchQ) : Bool := q.stale != 0 || decide (q.count ≤ 6)

end FetchQ

/-- One clock cycle. `bpPush` is the predictor's combinational push-time port. -/
structure FetchCyc where
  p : Params
  q : FetchQ
  stall : Bool
  branchValid : Bool
  branchAddr : Word
  predValid : Bool
  predAddr : Word
  imemRsp : IfetchRsp
  bpPush : Word → Word → BpPushRsp
  fePop2 : Bool

/-- `(a & ~7)` and `(a & ~7) + 8`. -/
abbrev blockOf (a : Word) : Word := a &&& ~~~7#32
abbrev nextBlock (a : Word) : Word := blockOf a + 8#32

/-- `|a[XLEN-1:IMEM_ADDR_W]`: the address lies outside the implemented I-mem. -/
def outsideImem (w : Nat) (a : Word) : Bool := a >>> w != 0

namespace FetchCyc

variable (c : FetchCyc)

def pcFault : Bool := outsideImem c.p.imemAddrW c.q.pc
def rspCap : Bool := c.imemRsp.rvalid && c.q.rready

def predRedirect : Bool := c.predValid && !c.branchValid
def redirect : Bool := c.branchValid || c.predRedirect
def redirectAddr : Word := if c.branchValid then c.branchAddr else c.predAddr

def twiceInflight : BitVec 3 := c.q.inflight ++ 0#1
def reserved : BitVec 5 := c.q.count.setWidth 5 + c.twiceInflight.setWidth 5
def available : BitVec 5 := 8 - c.reserved

def pcNextBlock : Word := nextBlock c.q.pc
def pcNextBlock2 : Word := blockOf c.q.pc + 16#32

def incycleLaunch : Bool := if c.p.execRedirIncycle then c.redirect else c.predRedirect
def incycleAddr : Word := if c.p.execRedirIncycle then c.redirectAddr else c.predAddr
def issueAddr : Word :=
  if c.incycleLaunch then c.incycleAddr else if c.q.redirLaunched then c.pcNextBlock else c.q.pc

def availableIssue : BitVec 5 := if c.redirect then 8 - c.twiceInflight.setWidth 5 else c.available

def execRedirHold : Bool := !c.p.execRedirIncycle && c.branchValid
def busIssue : Bool :=
  decide (c.q.inflight < 2) && decide (2 ≤ c.availableIssue) && (c.incycleLaunch || !c.pcFault) &&
    !c.execRedirHold
def faultPush : Bool := c.pcFault && decide (1 ≤ c.available) && !c.rspCap && c.q.inflight == 0

def launch : Bool := c.busIssue && c.imemRsp.ready

/-- `imem_req_o`. -/
def imemReq : IfetchReq where
  valid := c.busIssue
  addr := c.issueAddr
  rready := c.q.rready

/-! ## Response split -/

def doRsp : Bool := c.rspCap && c.q.stale == 0
def rspFault : Bool := outsideImem c.p.imemAddrW c.q.reqPc
def doRspData : Bool := c.doRsp && !c.rspFault
def doRspFault : Bool := c.doRsp && c.rspFault
def rspTwo : Bool := !c.q.reqPc.getLsbD 2

def push0Pc : Word := if c.doRsp then c.q.reqPc else c.q.pc
def push1Pc : Word := blockOf c.q.reqPc + 4#32

/-- The two candidate entries of this cycle, predictions included. -/
def push0 : BufEntry where
  instr :=
    if c.doRspData then (if c.rspTwo then c.imemRsp.rdata.extractLsb 31 0 else c.imemRsp.rdata.extractLsb 63 32)
    else 0
  pc := c.push0Pc
  fault := !c.doRspData
  predLo := (c.bpPush c.push0Pc c.push1Pc).pred0Lo
  predHi := (c.bpPush c.push0Pc c.push1Pc).pred0Hi
  ghr := (c.bpPush c.push0Pc c.push1Pc).ghr

def push1 : BufEntry where
  instr := c.imemRsp.rdata.extractLsb 63 32
  pc := c.push1Pc
  fault := false
  predLo := (c.bpPush c.push0Pc c.push1Pc).pred1Lo
  predHi := (c.bpPush c.push0Pc c.push1Pc).pred1Hi
  ghr := (c.bpPush c.push0Pc c.push1Pc).ghr

def pushCnt : BitVec 2 :=
  if c.doRspData then (if c.rspTwo then 2 else 1) else if c.doRspFault || c.faultPush then 1 else 0

def bufPopCnt : BitVec 2 := if c.q.count != 0 && !c.stall then (if c.fePop2 then 2 else 1) else 0

/-! ## Next state -/

/-- The buffer array after the edge: `push0` at the tail, `push1` behind it. -/
def bufNext : BitVec 3 → BufEntry :=
  let b := if 1 ≤ c.pushCnt then Function.update c.q.buf c.q.tail c.push0 else c.q.buf
  if 2 ≤ c.pushCnt then Function.update b (c.q.tail + 1) c.push1 else b

def next : FetchQ where
  pc :=
    if c.redirect then c.redirectAddr
    else if c.faultPush then c.pcNextBlock
    else if c.q.redirLaunched then (if c.launch then c.pcNextBlock2 else c.pcNextBlock)
    else if c.launch then c.pcNextBlock
    else c.q.pc
  reqPc := if c.launch then c.issueAddr else c.q.reqPc
  inflight := c.q.inflight + (if c.launch then 1 else 0) - (if c.rspCap then 1 else 0)
  stale :=
    if c.redirect then c.q.inflight - (if c.rspCap then 1 else 0)
    else if c.rspCap && c.q.stale != 0 then c.q.stale - 1 else c.q.stale
  redirLaunched := c.incycleLaunch && c.launch
  head := if c.redirect then 0 else c.q.head + c.bufPopCnt.setWidth 3
  tail := if c.redirect then 0 else c.q.tail + c.pushCnt.setWidth 3
  count := if c.redirect then 0 else c.q.count + c.pushCnt.setWidth 4 - c.bufPopCnt.setWidth 4
  buf := c.bufNext

end FetchCyc

end YarvUc
