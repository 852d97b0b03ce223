import YarvUc.Clocked.Attended
import YarvUc.Sequential.Machine

/-!
# The sequential machine among interrupts and devices

The machine of `Machine` takes turns: an instruction, whose peripheral load and whose read
of a CSR that runs by itself get their values from outside, or an interrupt, when one is
pending and enabled. Behind a WFI it sleeps until one is.
-/

namespace YarvUc

/-- `mip`, `mcycle` or `minstret`: these change while the program stands still. -/
def TimedAddr (a : BitVec 12) : Prop := a = CSR_ADDR_MIP ∨ a = CSR_ADDR_MCYCLE ∨ a = CSR_ADDR_MINSTRET

instance (a : BitVec 12) : Decidable (TimedAddr a) := inferInstanceAs (Decidable (_ ∨ _ ∨ _))

/-- What a turn takes from outside: `mip` with the interrupt lines, what a timed CSR reads
as, and the word on the peripheral port. -/
structure Outside where
  mip : Word
  timed : Word
  data : Word
deriving DecidableEq

/-- The machine, awake or behind a WFI. -/
structure Sleeper where
  arch : Arch
  asleep : Bool

/-- What an observer sees of a turn. -/
inductive Turned where
  | did (e : Event)
  | interrupt (pc cause : Word)
deriving DecidableEq

namespace CsrRegs

/-- All but the timed ones. -/
def untimed (r : CsrRegs) : CsrRegs := { r with mip := 0, mcycle := 0, minstret := 0 }

/-- With the timed ones as they are read. -/
def sees (r : CsrRegs) (o : Outside) : CsrRegs := { r with mip := o.timed, mcycle := o.timed, minstret := o.timed }

/-- With the interrupt lines. -/
def lined (r : CsrRegs) (o : Outside) : CsrRegs := { r with mip := o.mip }

end CsrRegs

/-- What the trap unit is asked by an interrupt in front of the instruction at `pc`. -/
def CsrRegs.interrupt (r : CsrRegs) (o : Outside) (pc : Word) : TrapIn :=
  { takeTrap := false, takeInterrupt := true, mret := false, cause := (r.lined o).intCause, tval := 0, pc := pc }

/-- A word that lets a pending interrupt pass in front of it: it neither sleeps, traps nor
returns, and takes one cycle. -/
def DeT.yields (de : DeT) : Bool :=
  !de.isWfiOp && !de.exception && !de.isMretOp && !de.isMemOp && !de.isDivOp && !de.isCsrOp

/-- A word in front of which an interrupt is taken: it accesses no memory, neither sleeps,
traps nor returns. -/
def DeT.interruptible (de : DeT) : Bool := !de.isWfiOp && !de.exception && !de.isMretOp && !de.isMemOp

namespace Arch

variable (p : Params) (m : DmemParams) (image : ℕ → BitVec 64) (a : Arch) (o : Outside)

def sees : Arch := { a with csr := a.csr.sees o }

/-- An interrupt is pending and enabled. -/
def pends : Bool := (a.csr.lined o).intPending

/-- The instruction at the PC, and what is seen of it. -/
def turn : Arch := (a.sees o).step p m image fun _ => o.data
def turned : Event := (a.sees o).event p m image fun _ => o.data

/-- The handler is entered, and returns to the instruction at the PC. -/
def interrupted : Arch where
  pc := (a.csr.interrupt o a.pc).redirectAddr a.csr
  rf := a.rf
  csr := a.csr.next
    { csrAddr := 0, csrWren := false, csrData := 0, trap := (a.csr.interrupt o a.pc).trapWrite a.csr,
      lines := { msip := false, mtip := false, meip := false }, instrRetire := false }
  mem := a.mem

end Arch

/-- One turn. A pending interrupt is not passed over by what takes one cycle, only an
exception and an mret go before it at a wake, and nothing runs asleep. -/
inductive Turn (p : Params) (m : DmemParams) (image : ℕ → BitVec 64) (o : Outside) :
    Sleeper → Turned → Sleeper → Prop
  | instr {t : Sleeper} (wakes : t.asleep = true → t.arch.pends o = true ∧
        ((t.arch.word p image).exception || (t.arch.word p image).isMretOp) = true)
      (gives : t.arch.pends o = true → (t.arch.word p image).yields = false) :
      Turn p m image o t (.did (t.arch.turned p m image o)) ⟨t.arch.turn p m image o, (t.arch.word p image).isWfiOp⟩
  | interrupt {t : Sleeper} (pends : t.arch.pends o = true)
      (takes : t.asleep = true ∨ (t.arch.word p image).interruptible = true) :
      Turn p m image o t (.interrupt t.arch.pc (t.arch.csr.lined o).intCause) ⟨t.arch.interrupted o, false⟩

end YarvUc
