import YarvUc.Clocked.Run
import YarvUc.Rtl.Cpu

/-!
# Decode, execute, the trap unit and the CSR file

The part of `rv32imac_zicsr_zifencei` that decides what becomes of an instruction. The
fetch buffer, the register file, the predictor, the interrupt lines and the two bus slaves
are inputs, so they may do anything.
-/

namespace YarvUc

/-- The flops. -/
structure Hart where
  core : Core
  csr : CsrQ

/-- The inputs of one cycle. -/
structure HartIn where
  fe : FePort
  regRead : BitVec 5 → Word
  bpLookup : Word → BpLookupRsp
  lines : IrqLines
  memRsp : MemRsp
  periRsp : MemRsp

namespace Hart

def reset : Hart := { core := .reset, csr := .reset }

variable (p : Params) (h : Hart) (i : HartIn)

/-- The word in execute. -/
def de : DeT := h.core.dec.de

/-- What the CSR file and the trap unit show the two stages. -/
def coreIn : CoreIn where
  fe := i.fe
  regRead := i.regRead
  bpLookup := i.bpLookup
  csrRdata := h.csr.csrRdataQ
  intPending := h.csr.regs.intPending
  intCause := h.csr.regs.intCause
  memRsp := i.memRsp
  periRsp := i.periRsp

/-- `u_execute`'s cycle. -/
def exec : ExCyc := h.core.exec p (h.coreIn i)

/-- `trap_redirect_addr`. -/
def trapRedirectAddr : Word := (h.exec p i).trapIn.redirectAddr h.csr.regs

def csrIn : CsrIn where
  csrAddr := h.core.dec.de.csrAddr
  csrWren := (h.exec p i).csrWe
  csrData := (h.exec p i).csrNew
  trap := (h.exec p i).trapIn.trapWrite h.csr.regs
  lines := i.lines
  instrRetire := h.core.ex.exValid

/-- The clock edge. -/
def next : Hart where
  core := h.core.next p (h.coreIn i)
  csr := h.csr.next (h.csrIn p i)

variable {p h i}

@[simp] theorem exec_de : (h.exec p i).de = h.de := rfl
@[simp] theorem exec_p : (h.exec p i).p = p := rfl
@[simp] theorem exec_q : (h.exec p i).q = h.core.ex := rfl

end Hart

/-! ## The hart of the CPU -/

namespace Cpu

variable (p : Params) (m : DmemParams) (s : Cpu) (i : CpuIn)

def hart : Hart := { core := s.lsu.core, csr := s.csr }

/-- What fetch, the register file, the predictor and the D-mem show it. -/
def hartIn : HartIn where
  fe := s.fetch.fetch.fePort
  regRead := s.rf.read
  bpLookup := s.bp.lookup
  lines := i.lines
  memRsp := (s.exec p m i).memRsp
  periRsp := i.periRsp

variable {p m s i}

theorem hart_exec : s.hart.exec p (s.hartIn p m i) = s.exec p m i := rfl

theorem hart_next : (s.next p m i).hart = s.hart.next p (s.hartIn p m i) := rfl

/-- Every run of the CPU is one of its hart. -/
theorem hart_run (boot : Word) (ins : ℕ → CpuIn) (n : ℕ) :
    (Clocked.run (next p m) (s.reset boot) ins n).hart =
      Clocked.run (Hart.next p) .reset
        (fun k => (Clocked.run (next p m) (s.reset boot) ins k).hartIn p m (ins k)) n := by
  induction n with
  | zero => rfl
  | succ n ih => rw [Clocked.run_succ, Clocked.run_succ, ← ih, hart_next]

end Cpu

end YarvUc
