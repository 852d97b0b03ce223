import YarvUc.Sequential.Machine
import YarvUc.Sequential.Midway

/-!
# What one cycle does of the sequential machine

The writes and the event of a cycle, read off the CPU's wires, and `Follows`: the CPU with
the registers, CSRs and memory of the sequential machine, before the instruction at its PC.
A cycle that retires or traps performs the effect of that instruction.
-/

namespace YarvUc

/-! ## The CSR file under equal requests -/

namespace TrapIn

/-- The trap unit is asked the same; the payload counts for an entry only. -/
structure Same (t t' : TrapIn) : Prop where
  takeTrap : t.takeTrap = t'.takeTrap
  takeInterrupt : t.takeInterrupt = t'.takeInterrupt
  mret : t.mret = t'.mret
  cause : t.entry = true → t.cause = t'.cause
  tval : t.entry = true → t.tval = t'.tval
  pc : t.entry = true → t.pc = t'.pc

theorem Same.entry {t t' : TrapIn} (same : t.Same t') : t.entry = t'.entry := by
  rw [TrapIn.entry, TrapIn.entry, same.takeTrap, same.takeInterrupt]

end TrapIn

namespace CsrIn

/-- The CSR file is asked the same. -/
structure Same (r r' : CsrRegs) (i i' : CsrIn) : Prop where
  trap : ∃ t t' : TrapIn, t.Same t' ∧ i.trap = t.trapWrite r ∧ i'.trap = t'.trapWrite r'
  wren : i.csrWren = i'.csrWren
  addr : i.csrWren = true → i.csrAddr = i'.csrAddr
  data : i.csrWren = true → i.csrData = i'.csrData
  lines : i.lines = i'.lines

end CsrIn

/-- A register behind a write port. -/
theorem port_same {α : Type} {we we' : Bool} {d d' q q' : α} (enable : we = we') (data : we = true → d = d')
    (kept : q = q') : (if we then d else q) = if we' then d' else q' := by
  subst enable kept
  cases we with
  | false => rfl
  | true => rw [data rfl]

namespace CsrRegs

variable {r r' : CsrRegs} {i i' : CsrIn}

theorem uncounted_eq (same : r.uncounted = r'.uncounted) :
    r.mstatus = r'.mstatus ∧ r.misa = r'.misa ∧ r.mie = r'.mie ∧ r.mtvec = r'.mtvec ∧ r.mscratch = r'.mscratch ∧
      r.mepc = r'.mepc ∧ r.mcause = r'.mcause ∧ r.mtval = r'.mtval ∧ r.mip = r'.mip := by
  simpa only [uncounted, CsrRegs.mk.injEq, and_true] using same

theorem uncounted_next (same : CsrIn.Same r r' i i') (regs : r.uncounted = r'.uncounted) :
    (r.next i).uncounted = (r'.next i').uncounted := by
  obtain ⟨mstatus, misa, mie, mtvec, mscratch, mepc, mcause, mtval, mip⟩ := uncounted_eq regs
  have hit : ∀ a, (i.csrWren && i.csrAddr == a) = (i'.csrWren && i'.csrAddr == a) := by
    intro a
    rw [← same.wren]
    cases wren : i.csrWren with
    | false => rfl
    | true => rw [same.addr wren]
  have data : ∀ a, (i.csrWren && i.csrAddr == a) = true → i.csrData = i'.csrData := by
    intro a both
    rw [Bool.and_eq_true] at both
    exact same.data both.1
  obtain ⟨t, t', asks, trap, trap'⟩ := same.trap
  have entry := asks.entry
  have status : (t.trapWrite r).weMstatus = true → (t.trapWrite r).dMstatus = (t'.trapWrite r').dMstatus := by
    intro _
    simp only [TrapIn.trapWrite, entry, asks.mret, mstatusEntry, mstatusMret, mstatus]
  have enable : (t.trapWrite r).weMstatus = (t'.trapWrite r').weMstatus := by
    simp only [TrapIn.trapWrite, asks.takeTrap, asks.takeInterrupt, asks.mret]
  simp only [uncounted, CsrRegs.next, CsrRegs.mk.injEq, trap, trap']
  refine ⟨?_, misa, ?_, ?_, ?_, ?_, ?_, ?_, ?_, trivial, trivial⟩
  · exact port_same enable status (port_same (hit _) (fun h => by rw [data _ h]) mstatus)
  · exact port_same (hit _) (data _) mie
  · exact port_same (hit _) (fun h => by rw [data _ h]) mtvec
  · exact port_same (hit _) (data _) mscratch
  · exact port_same entry asks.pc (port_same (hit _) (data _) mepc)
  · exact port_same entry asks.cause (port_same (hit _) (data _) mcause)
  · exact port_same entry asks.tval (port_same (hit _) (data _) mtval)
  · rw [mip, same.lines]
    congr 1
    exact port_same (hit _) (fun h => by rw [data _ h]) rfl

end CsrRegs

theorem RegFile.next_eq (rf : RegFile) (en : Bool) (rd : BitVec 5) (v : Word) :
    rf.next en rd v =
      match if en && rd != 0 then some (rd, v) else none with
      | some (rd, v) => Function.update rf rd v
      | none => rf := by
  unfold RegFile.next
  split <;> rfl

/-! ## What a cycle shows -/

namespace Cpu

section Shows

variable (p : Params) (m : DmemParams) (s : Cpu) (i : CpuIn)

/-- The write port of the register file. -/
def gprWrite : Option (BitVec 5 × Word) :=
  if (s.exec p m i).wbEn && s.de.rd != 0 then some (s.de.rd, (s.exec p m i).wbData) else none

/-- The write port of the CSR file. -/
def csrWrite : Option (BitVec 12 × Word) :=
  if (s.exec p m i).csrWe then some (s.de.csrAddr, (s.exec p m i).csrNew) else none

/-- The write the D-mem takes. -/
def dmemWrite : Option Access := (s.exec p m i).accepted.find? fun a => a.we && !a.peri

/-- The retirement or the synchronous trap of a cycle. -/
def shows : List Event :=
  if (s.exec p m i).opCommits then
    [.commit s.de.pc s.de.instr (s.gprWrite p m i) (s.csrWrite p m i) (s.dmemWrite p m i)]
  else if (s.exec p m i).syncTrapReq then
    [.trap (s.exec p m i).trapMepc (s.exec p m i).trapCause (s.exec p m i).trapTval]
  else []

end Shows

/-! ## The CPU and the machine -/

/-- The registers, the CSRs but the counters, and the D-mem are the machine's. -/
structure Agrees (s : Cpu) (a : Arch) : Prop where
  rf : s.rf = a.rf
  csr : s.csr.regs.uncounted = a.csr.uncounted
  mem : bytesOf s.lsu.dmem.mem = a.mem

/-- The CPU before the instruction at the machine's PC has retired or trapped. -/
structure Follows (p : Params) (m : DmemParams) (image : ℕ → BitVec 64) (s : Cpu) (a : Arch) : Prop where
  agrees : s.Agrees a
  order : (Ordered.mk s a.pc).Inv p m image
  mid : s.Midway
  mepc : s.csr.regs.mepc.getLsbD 0 = false

/-- The cycle does to the CPU what `e` does to the machine. -/
structure Performs (p : Params) (m : DmemParams) (s : Cpu) (i : CpuIn) (a : Arch) (e : Effect) : Prop where
  pc : s.pcNext p m i a.pc = (a.after m e).pc
  gpr : s.gprWrite p m i = e.gpr
  csr : s.csrWrite p m i = e.csr
  mem : bytesOf (s.next p m i).lsu.dmem.mem = a.mem.after m e.store
  trap : (s.exec p m i).trapIn.Same (e.trapIn a.pc)

variable {p : Params} {m : DmemParams} {image : ℕ → BitVec 64} {peri : PeriMem} {s : Cpu} {i : CpuIn} {a : Arch}
  {e : Effect}

theorem Performs.rf_next (does : s.Performs p m i a e) (rf : s.rf = a.rf) : (s.next p m i).rf = (a.after m e).rf := by
  have next : (s.next p m i).rf =
      match s.gprWrite p m i with
      | some (rd, v) => Function.update s.rf rd v
      | none => s.rf := s.rf.next_eq _ _ _
  rw [next, does.gpr, rf]
  rfl

/-- The write port of the CSR file is driven as the machine drives it. -/
theorem Performs.port (does : s.Performs p m i a e) (r : CsrRegs) :
    (s.csrIn p m i).csrWren = (e.csrIn r a.pc).csrWren ∧
      ((s.csrIn p m i).csrWren = true → (s.csrIn p m i).csrAddr = (e.csrIn r a.pc).csrAddr ∧
        (s.csrIn p m i).csrData = (e.csrIn r a.pc).csrData) := by
  refine ⟨?_, fun wren => ?_⟩
  · change (s.exec p m i).csrWe = e.csr.isSome
    rw [← does.csr, csrWrite]
    split <;> simp_all
  · have we : (s.exec p m i).csrWe = true := wren
    simp only [Effect.csrIn, ← does.csr, csrWrite, we]
    exact ⟨rfl, rfl⟩

theorem Performs.agrees (does : s.Performs p m i a e) (agrees : s.Agrees a) (plain : s.Plain p m i) :
    (s.next p m i).Agrees (a.after m e) := by
  have port := does.port a.csr
  exact ⟨does.rf_next agrees.rf,
    CsrRegs.uncounted_next (i := s.csrIn p m i)
      ⟨⟨_, _, does.trap, rfl, rfl⟩, port.1, fun wren => (port.2 wren).1, fun wren => (port.2 wren).2, plain.lines⟩
      agrees.csr,
    does.mem⟩

/-- A trap saves an even address, and no other write leaves `mepc` odd. -/
theorem Follows.mepc_next (follows : s.Follows p m image a) (plain : s.Plain p m i)
    (does : (s.exec p m i).trapIn.entry = true → (s.exec p m i).trapMepc = a.pc) :
    (s.next p m i).csr.regs.mepc.getLsbD 0 = false := by
  change (if (s.exec p m i).trapIn.entry then (s.exec p m i).trapMepc
    else if (s.exec p m i).csrWe && s.de.csrAddr == CSR_ADDR_MEPC then (s.exec p m i).csrNew
    else s.csr.regs.mepc).getLsbD 0 = false
  split
  · rw [does (by assumption)]
    exact follows.order.even
  · split
    · rename_i hit
      rw [Bool.and_eq_true, beq_iff_eq] at hit
      exact plain.mepc hit.1 hit.2
    · exact follows.mepc

/-- The instruction in D/E is the machine's. -/
theorem Follows.word (follows : s.Follows p m image a) (valid : s.de.valid = true) : a.word p image = s.de.base := by
  rw [Arch.word, ← follows.agrees.rf]
  exact (follows.order.word valid).symm

theorem Follows.effect (follows : s.Follows p m image a) (valid : s.de.valid = true) :
    (a.word p image).effect p m peri a = s.de.effect p m peri a := by
  rw [follows.word valid]
  rfl

theorem Follows.event (follows : s.Follows p m image a) (valid : s.de.valid = true) :
    a.event p m image peri = (s.de.effect p m peri a).event a.pc s.de := by
  rw [Arch.event, follows.effect valid, follows.word valid]
  rfl

theorem Follows.step (follows : s.Follows p m image a) (valid : s.de.valid = true) :
    a.step p m image peri = a.after m (s.de.effect p m peri a) := by
  rw [Arch.step, follows.effect valid]

end Cpu

end YarvUc
