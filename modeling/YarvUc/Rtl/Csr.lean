import YarvUc.Rtl.Pkg

/-!
# `csr_regfile`, `trap_unit` and `reg_file`

The machine-mode CSRs with their write ports and the registered read, the
combinational trap unit that drives the trap-write bundle, and the GPR file.
-/

namespace YarvUc

/-! ## CSR file -/

/-- `regs[0..10]`, by name. -/
structure CsrRegs where
  mstatus : Word
  misa : Word
  mie : Word
  mtvec : Word
  mscratch : Word
  mepc : Word
  mcause : Word
  mtval : Word
  mip : Word
  mcycle : Word
  minstret : Word
deriving DecidableEq, Inhabited

/-- The register array and the registered read. -/
structure CsrQ where
  regs : CsrRegs
  csrRdataQ : Word

/-- The trap-write bundle of the trap unit. -/
structure TrapWrite where
  weMepc : Bool
  dMepc : Word
  weMcause : Bool
  dMcause : Word
  weMtval : Bool
  dMtval : Word
  weMstatus : Bool
  dMstatus : Word

/-- The machine interrupt lines. -/
structure IrqLines where
  msip : Bool
  mtip : Bool
  meip : Bool

/-- The inputs of one cycle. -/
structure CsrIn where
  csrAddr : BitVec 12
  csrWren : Bool
  csrData : Word
  trap : TrapWrite
  lines : IrqLines
  instrRetire : Bool

namespace CsrRegs

/-- `MISA_RESET`, `MSTATUS_RESET`, zero elsewhere. -/
def reset : CsrRegs :=
  { mstatus := MSTATUS_RESET, misa := 0x40002105#32, mie := 0, mtvec := 0, mscratch := 0, mepc := 0,
    mcause := 0, mtval := 0, mip := 0, mcycle := 0, minstret := 0 }

/-- `csr_rdata`: an unimplemented address reads as 0. -/
def read (r : CsrRegs) (a : BitVec 12) : Word :=
  if a = CSR_ADDR_MSTATUS then r.mstatus
  else if a = CSR_ADDR_MISA then r.misa
  else if a = CSR_ADDR_MIE then r.mie
  else if a = CSR_ADDR_MTVEC then r.mtvec
  else if a = CSR_ADDR_MSCRATCH then r.mscratch
  else if a = CSR_ADDR_MEPC then r.mepc
  else if a = CSR_ADDR_MCAUSE then r.mcause
  else if a = CSR_ADDR_MTVAL then r.mtval
  else if a = CSR_ADDR_MIP then r.mip
  else if a = CSR_ADDR_MCYCLE then r.mcycle
  else if a = CSR_ADDR_MINSTRET then r.minstret
  else 0

/-- The WARL mask of a `mstatus` write: MPP reads as M. -/
def warlMstatus (d : Word) : Word := d.extractLsb 31 13 ++ 0b11#2 ++ d.extractLsb 10 0

/-- The WARL mask of a `mtvec` write: MODE keeps bit 0 only. -/
def warlMtvec (d : Word) : Word := d.extractLsb 31 2 ++ 0b0#1 ++ d.extractLsb 0 0

/-- `mip` after the edge: bits 3, 7, 11 track the lines, the others are written by
a CSR write. -/
def mipNext (old : Word) (l : IrqLines) (wr : Option Word) : Word :=
  let d := wr.getD old
  d.extractLsb 31 12 ++ BitVec.ofBool l.meip ++ d.extractLsb 10 8 ++ BitVec.ofBool l.mtip ++
    d.extractLsb 6 4 ++ BitVec.ofBool l.msip ++ d.extractLsb 2 0

/-- The register array after the edge. -/
def next (r : CsrRegs) (i : CsrIn) : CsrRegs :=
  let hit (a : BitVec 12) : Bool := i.csrWren && i.csrAddr == a
  { mstatus :=
      if i.trap.weMstatus then i.trap.dMstatus
      else if hit CSR_ADDR_MSTATUS then warlMstatus i.csrData else r.mstatus
    misa := r.misa
    mie := if hit CSR_ADDR_MIE then i.csrData else r.mie
    mtvec := if hit CSR_ADDR_MTVEC then warlMtvec i.csrData else r.mtvec
    mscratch := if hit CSR_ADDR_MSCRATCH then i.csrData else r.mscratch
    mepc := if i.trap.weMepc then i.trap.dMepc else if hit CSR_ADDR_MEPC then i.csrData else r.mepc
    mcause := if i.trap.weMcause then i.trap.dMcause else if hit CSR_ADDR_MCAUSE then i.csrData else r.mcause
    mtval := if i.trap.weMtval then i.trap.dMtval else if hit CSR_ADDR_MTVAL then i.csrData else r.mtval
    mip := mipNext r.mip i.lines (if hit CSR_ADDR_MIP then some i.csrData else none)
    mcycle := if hit CSR_ADDR_MCYCLE then i.csrData else r.mcycle + 1
    minstret :=
      if hit CSR_ADDR_MINSTRET then i.csrData
      else if i.instrRetire then r.minstret + 1 else r.minstret }

end CsrRegs

namespace CsrQ

def reset : CsrQ := { regs := .reset, csrRdataQ := 0 }

def next (q : CsrQ) (i : CsrIn) : CsrQ := { regs := q.regs.next i, csrRdataQ := q.regs.read i.csrAddr }

end CsrQ

/-! ## Trap unit -/

namespace CsrRegs

variable (r : CsrRegs)

def mieM : Bool := r.mstatus.getLsbD 3
def msiPending : Bool := r.mip.getLsbD 3 && r.mie.getLsbD 3
def mtiPending : Bool := r.mip.getLsbD 7 && r.mie.getLsbD 7
def meiPending : Bool := r.mip.getLsbD 11 && r.mie.getLsbD 11

/-- `int_pending_o`. -/
def intPending : Bool := r.mieM && (r.meiPending || r.msiPending || r.mtiPending)

/-- `int_cause_o`. -/
def intCause : Word := if r.meiPending then MCAUSE_MEI else if r.msiPending then MCAUSE_MSI else MCAUSE_MTI

def mtvecBase : Word := r.mtvec.extractLsb 31 2 ++ 0b00#2
def isVectored : Bool := r.mtvec.extractLsb 1 0 == 0b01#2

/-- `mstatus` after a trap entry: MPIE gets MIE, MIE clears, MPP is M. -/
def mstatusEntry : Word :=
  r.mstatus.extractLsb 31 13 ++ 0b11#2 ++ r.mstatus.extractLsb 10 8 ++ r.mstatus.extractLsb 3 3 ++
    r.mstatus.extractLsb 6 4 ++ 0b0#1 ++ r.mstatus.extractLsb 2 0

/-- `mstatus` after mret: MIE gets MPIE, MPIE is 1, MPP is M. -/
def mstatusMret : Word :=
  r.mstatus.extractLsb 31 13 ++ 0b11#2 ++ r.mstatus.extractLsb 10 8 ++ 0b1#1 ++
    r.mstatus.extractLsb 6 4 ++ r.mstatus.extractLsb 7 7 ++ r.mstatus.extractLsb 2 0

end CsrRegs

/-- The triggers and payload execute presents to the trap unit. -/
structure TrapIn where
  takeTrap : Bool
  takeInterrupt : Bool
  mret : Bool
  cause : Word
  tval : Word
  pc : Word

namespace TrapIn

variable (t : TrapIn) (r : CsrRegs)

/-- `redirect_addr_o`. -/
def redirectAddr : Word :=
  if t.mret then r.mepc
  else if t.takeInterrupt && r.isVectored then r.mtvecBase + (0#24 ++ t.cause.extractLsb 5 0 ++ 0b00#2)
  else r.mtvecBase

def entry : Bool := t.takeTrap || t.takeInterrupt

/-- The CSR trap-write bundle. -/
def trapWrite : TrapWrite where
  weMepc := t.entry
  dMepc := t.pc
  weMcause := t.entry
  dMcause := t.cause
  weMtval := t.entry
  dMtval := t.tval
  weMstatus := t.takeTrap || t.takeInterrupt || t.mret
  dMstatus := if t.entry then r.mstatusEntry else if t.mret then r.mstatusMret else r.mstatus

end TrapIn

/-- A trap entry writes its CSRs, whatever else is written. -/
theorem CsrRegs.next_entry {r : CsrRegs} {i : CsrIn} {t : TrapIn} (write : i.trap = t.trapWrite r)
    (entry : t.entry = true) :
    (r.next i).mepc = t.pc ∧ (r.next i).mcause = t.cause ∧ (r.next i).mtval = t.tval ∧
      (r.next i).mstatus = r.mstatusEntry := by
  have taken : (t.takeTrap || t.takeInterrupt || t.mret) = true := by
    rw [show (t.takeTrap || t.takeInterrupt) = true from entry, Bool.true_or]
  refine ⟨?_, ?_, ?_, ?_⟩ <;> simp [CsrRegs.next, write, TrapIn.trapWrite, entry, taken]

/-! ## GPR file -/

/-- `regs[31:0]` of `reg_file`. -/
abbrev RegFile := BitVec 5 → Word

/-- Asynchronous read, x0 reads as 0. -/
def RegFile.read (r : RegFile) (a : BitVec 5) : Word := if a = 0 then 0 else r a

/-- Synchronous write, x0 ignored. -/
def RegFile.next (r : RegFile) (wrEn : Bool) (wrAddr : BitVec 5) (wrData : Word) : RegFile :=
  if wrEn && wrAddr != 0 then Function.update r wrAddr wrData else r

end YarvUc
