import YarvUc.Rtl.DecodeStage
import YarvUc.Rtl.ExecuteStage

/-!
# Decode and execute

The two stages as `rv32imac_zicsr_zifencei` wires them: execute reads the D/E
register, decode takes execute's stall, flush and writeback. `execute_stage`'s
`stall_i` is tied low there. The fetch buffer, the register file, the predictor, the
CSR file with the trap unit and the two bus slaves are inputs.
-/

namespace YarvUc

/-- The flops of the two stages. -/
structure Core where
  dec : DecQ
  ex : ExQ

/-- The inputs of one cycle. -/
structure CoreIn where
  fe : FePort
  regRead : BitVec 5 → Word
  bpLookup : Word → BpLookupRsp
  csrRdata : Word
  intPending : Bool
  intCause : Word
  memRsp : MemRsp
  periRsp : MemRsp

namespace Core

def reset : Core := { dec := .reset, ex := .reset }

variable (p : Params) (c : Core) (i : CoreIn)

/-- The word in execute. -/
def de : DeT := c.dec.de

/-- `u_execute`'s cycle. -/
def exec : ExCyc where
  p := p
  q := c.ex
  de := c.dec.de
  csrRdata := i.csrRdata
  intPending := i.intPending
  intCause := i.intCause
  stallI := false
  memRsp := i.memRsp
  periRsp := i.periRsp

@[simp] theorem exec_p : (c.exec p i).p = p := rfl
@[simp] theorem exec_q : (c.exec p i).q = c.ex := rfl
@[simp] theorem exec_de : (c.exec p i).de = c.dec.de := rfl
@[simp] theorem exec_csrRdata : (c.exec p i).csrRdata = i.csrRdata := rfl
@[simp] theorem exec_intPending : (c.exec p i).intPending = i.intPending := rfl
@[simp] theorem exec_intCause : (c.exec p i).intCause = i.intCause := rfl
@[simp] theorem exec_stallI : (c.exec p i).stallI = false := rfl
@[simp] theorem exec_memRsp : (c.exec p i).memRsp = i.memRsp := rfl
@[simp] theorem exec_periRsp : (c.exec p i).periRsp = i.periRsp := rfl

/-- `u_decode`'s cycle. -/
def decode : DecCyc where
  p := p
  q := c.dec
  fe := i.fe
  regRead := i.regRead
  stall := (c.exec p i).stallO
  flush := (c.exec p i).flushO
  exWbEn := (c.exec p i).wbEn
  exWbAddr := c.dec.de.rd
  exWbData := (c.exec p i).wbData
  bpLookup := i.bpLookup

def next : Core := { dec := (c.decode p i).next, ex := (c.exec p i).next }

end Core

end YarvUc
