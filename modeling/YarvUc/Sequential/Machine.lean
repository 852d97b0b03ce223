import YarvUc.Execute.Divider
import YarvUc.Pipeline.CsrAccess

/-!
# The sequential machine

One instruction at a time, on the state a program sees: the instruction at the PC is taken
out of the image, decoded into a D/E word, and `DeT.effect` says what execute and the trap
unit make of that word. No pipeline, no predictor, no clock.
-/

namespace YarvUc

/-- The state a program sees. -/
structure Arch where
  pc : Word
  rf : RegFile
  csr : CsrRegs
  mem : ByteMem

/-- A store: the low bytes of `data` go to `addr`. -/
structure StoreOp where
  addr : Word
  size : MemSize
  data : Word
deriving DecidableEq

/-- What one instruction does. -/
inductive Effect where
  /-- It retires and goes to `next`, with at most one write of each kind. -/
  | retire (next : Word) (gpr : Option (BitVec 5 × Word)) (csr : Option (BitVec 12 × Word)) (store : Option StoreOp)
  /-- It retires and returns from a handler. -/
  | mret
  | trap (cause tval : Word)
deriving DecidableEq

/-! ## The effect of a D/E word -/

/-- What the peripheral port answers, by address. -/
abbrev PeriMem := Word → Word

namespace DeT

variable (p : Params) (m : DmemParams) (peri : PeriMem) (s : Arch) (de : DeT)

/-- The result of a word that computes; a division's is what the divider delivers. -/
def aluValue : Word :=
  if de.isDivOp then de.aluOp.division de.operandA de.operandB else AluQ.reset.result de.aluComb p.mulSharedDsp

/-- A load's value, from the bytes of the D-mem or from the peripheral port. -/
def loaded : Word :=
  if de.isPeriLive then de.loadData (peri de.lsuEa) de.lsuEa
  else loadValue de.memSize de.memUnsigned (s.mem.load m.addrW de.lsuEa)

def value : Word :=
  match de.wbSrc with
  | .ALU => de.aluValue p
  | .MEM => de.loaded m peri s
  | .PC4 => de.pcLink
  | .CSR => s.csr.read de.csrAddr

/-- The cause and `mtval` of a word that traps: decode's exception, or a misaligned address. -/
def fault : Option (Word × Word) :=
  if de.exception then some (de.exceptionCause, de.exceptionTval)
  else if de.isMemOp && de.memMisalignedLive then
    some (if de.memWrite then MCAUSE_SAD_MIS else MCAUSE_LAD_MIS, de.lsuEa)
  else none

def effect : Effect :=
  match de.fault with
  | some (cause, tval) => .trap cause tval
  | none =>
    if de.isMretOp then .mret
    else
      .retire de.nextPc
        (if de.regWrite && de.rd != 0 then some (de.rd, de.value p m peri s) else none)
        ((de.csrWrite (s.csr.read de.csrAddr)).map fun v => (de.csrAddr, v))
        (if de.memWrite then some ⟨de.lsuEa, de.memSize, de.rs2Data⟩ else none)

end DeT

/-! ## The step -/

namespace Effect

def gpr : Effect → Option (BitVec 5 × Word)
  | retire _ gpr _ _ => gpr
  | _ => none

def csr : Effect → Option (BitVec 12 × Word)
  | retire _ _ csr _ => csr
  | _ => none

def store : Effect → Option StoreOp
  | retire _ _ _ store => store
  | _ => none

/-- What the trap unit is asked by the instruction at `pc`. -/
def trapIn (pc : Word) : Effect → TrapIn
  | retire .. => { takeTrap := false, takeInterrupt := false, mret := false, cause := 0, tval := 0, pc := pc }
  | mret => { takeTrap := false, takeInterrupt := false, mret := true, cause := 0, tval := 0, pc := pc }
  | trap cause tval =>
    { takeTrap := true, takeInterrupt := false, mret := false, cause := cause, tval := tval, pc := pc }

/-- What the CSR file is asked, with every interrupt line low. -/
def csrIn (r : CsrRegs) (pc : Word) (e : Effect) : CsrIn where
  csrAddr := (e.csr.map Prod.fst).getD 0
  csrWren := e.csr.isSome
  csrData := (e.csr.map Prod.snd).getD 0
  trap := (e.trapIn pc).trapWrite r
  lines := { msip := false, mtip := false, meip := false }
  instrRetire := !(e.trapIn pc).takeTrap

end Effect

/-- A store reaches the D-mem when bit 28 of its address is clear. -/
def ByteMem.after (m : DmemParams) (b : ByteMem) : Option StoreOp → ByteMem
  | some st => if st.addr.getLsbD PERI_ADDR_BIT then b else b.store m.addrW st.addr st.data st.size.bytes
  | none => b

namespace Arch

/-- The state behind an instruction; the counters count instructions here. -/
def after (m : DmemParams) (s : Arch) (e : Effect) : Arch where
  pc :=
    match e with
    | .retire next .. => next
    | _ => (e.trapIn s.pc).redirectAddr s.csr
  rf :=
    match e.gpr with
    | some (rd, v) => Function.update s.rf rd v
    | none => s.rf
  csr := s.csr.next (e.csrIn s.csr s.pc)
  mem := s.mem.after m e.store

/-- The D/E word of the instruction at the PC. -/
def word (p : Params) (image : ℕ → BitVec 64) (s : Arch) : DeT := (fetchAt p.imemAddrW image s.pc).word s.rf.read

/-- One instruction. -/
def step (p : Params) (m : DmemParams) (image : ℕ → BitVec 64) (peri : PeriMem) (s : Arch) : Arch :=
  s.after m ((s.word p image).effect p m peri s)

end Arch

/-! ## What an observer sees of it -/

/-- A retirement with its writes, the D-mem's as it stands on the port, or a trap. -/
inductive Event where
  | commit (pc instr : Word) (gpr : Option (BitVec 5 × Word)) (csr : Option (BitVec 12 × Word)) (store : Option Access)
  | trap (pc cause tval : Word)
deriving DecidableEq

/-- A store's request. -/
def DeT.storeAccess (de : DeT) : Access where
  peri := de.isPeriLive
  we := true
  addr := de.lsuEa
  wdata := de.storeWdata
  wstrb := de.storeWstrb

def Effect.event (pc : Word) (de : DeT) : Effect → Event
  | .retire _ gpr csr store => .commit pc de.instr gpr csr (if store.isSome then some de.storeAccess else none)
  | .mret => .commit pc de.instr none none none
  | .trap cause tval => .trap pc cause tval

def Arch.event (p : Params) (m : DmemParams) (image : ℕ → BitVec 64) (peri : PeriMem) (s : Arch) : Event :=
  ((s.word p image).effect p m peri s).event s.pc (s.word p image)

end YarvUc
