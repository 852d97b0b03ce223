import YarvUc.Execute.DataMemory
import YarvUc.Fetch.Memory
import YarvUc.Rtl.BranchPredictor
import YarvUc.Rtl.Csr

/-!
# The CPU

The instances of `rv32imac_zicsr_zifencei` with the two memories `top_module` puts
behind them. The interrupt lines and the peripheral port's response are the inputs.
-/

namespace YarvUc

/-- The flops and the memories. -/
structure Cpu where
  fetch : FetchMem
  lsu : Lsu
  rf : RegFile
  csr : CsrQ
  bp : BpQ

structure CpuIn where
  lines : IrqLines
  periRsp : MemRsp

namespace Cpu

/-- The reset branch of every instance but the predictor's, over what reset leaves alone:
the memories, the buffers' slots and the register file. -/
def start (boot : Word) (s : Cpu) : Cpu where
  fetch := s.fetch.reset boot
  lsu := { core := .reset, dmem := s.lsu.dmem.reset }
  rf := s.rf
  csr := .reset
  bp := s.bp

/-- The reset branch of every instance. -/
def reset (boot : Word) (s : Cpu) : Cpu := { s.start boot with bp := s.bp.reset }

variable (p : Params) (m : DmemParams) (s : Cpu) (i : CpuIn)

/-- What decode and execute read; `dmem_rsp` is added by the LSU. -/
def coreIn : CoreIn where
  fe := s.fetch.fetch.fePort
  regRead := s.rf.read
  bpLookup := s.bp.lookup
  csrRdata := s.csr.csrRdataQ
  intPending := s.csr.regs.intPending
  intCause := s.csr.regs.intCause
  memRsp := {}
  periRsp := i.periRsp

/-- `u_execute`'s and `u_decode`'s cycle. -/
def exec : ExCyc := s.lsu.exec p m (s.coreIn i)
def decode : DecCyc := s.lsu.core.decode p (s.lsu.coreIn p m (s.coreIn i))

/-- `trap_redirect_addr`. -/
def trapRedirectAddr : Word := (s.exec p m i).trapIn.redirectAddr s.csr.regs

def fetchIn : FetchIn where
  stall := (s.decode p m i).stallO
  branchValid := (s.exec p m i).branchValidO
  branchAddr := (s.exec p m i).branchAddrO (s.trapRedirectAddr p m i)
  predValid := (s.decode p m i).predRedirectFire
  predAddr := (s.decode p m i).cfTarget
  fePop2 := (s.decode p m i).fePop2
  bpPush := s.bp.push

def csrIn : CsrIn where
  csrAddr := s.lsu.core.dec.de.csrAddr
  csrWren := (s.exec p m i).csrWe
  csrData := (s.exec p m i).csrNew
  trap := (s.exec p m i).trapIn.trapWrite s.csr.regs
  lines := i.lines
  instrRetire := s.lsu.core.ex.exValid

/-- The clock edge. -/
def next : Cpu where
  fetch := s.fetch.next p (s.fetchIn p m i)
  lsu := s.lsu.next p m (s.coreIn i)
  rf := s.rf.next (s.exec p m i).wbEn s.lsu.core.dec.de.rd (s.exec p m i).wbData
  csr := s.csr.next (s.csrIn p m i)
  bp := s.bp.next (s.exec p m i).bpTrain

/-- The word in execute. -/
def de : DeT := s.lsu.core.dec.de

variable {p m s i}

@[simp] theorem exec_de : (s.exec p m i).de = s.de := rfl
@[simp] theorem exec_p : (s.exec p m i).p = p := rfl
@[simp] theorem exec_q : (s.exec p m i).q = s.lsu.core.ex := rfl
@[simp] theorem exec_intPending : (s.exec p m i).intPending = s.csr.regs.intPending := rfl
@[simp] theorem exec_csrRdata : (s.exec p m i).csrRdata = s.csr.csrRdataQ := rfl
@[simp] theorem decode_q : (s.decode p m i).q = s.lsu.core.dec := rfl
@[simp] theorem decode_stall : (s.decode p m i).stall = (s.exec p m i).stallO := rfl
@[simp] theorem decode_flush : (s.decode p m i).flush = (s.exec p m i).flushO := rfl
@[simp] theorem decode_fe : (s.decode p m i).fe = s.fetch.fetch.fePort := rfl
@[simp] theorem next_dec : (s.next p m i).lsu.core.dec = (s.decode p m i).next := rfl
@[simp] theorem next_ex : (s.next p m i).lsu.core.ex = (s.exec p m i).next := rfl

end Cpu

end YarvUc
