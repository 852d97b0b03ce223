import YarvUc.Pipeline.Precise
import YarvUc.Sequential.Delay
import YarvUc.Sequential.Refinement
import YarvUc.Sequential.Turns

/-!
# What one cycle does among interrupts and devices

The wires of a cycle that make a turn of the machine, and `Attending`: the CPU with what
the machine has, awake or asleep as it is, before the instruction at its PC. Nothing is asked
of the interrupt lines and the peripheral port.
-/

namespace YarvUc

/-! ## The CSRs that wait for the program -/

namespace CsrRegs

variable {r r' : CsrRegs} {i i' : CsrIn} {a : BitVec 12} {o : Outside}

theorem read_untimed (other : ¬ TimedAddr a) : r.untimed.read a = r.read a := by
  obtain ⟨mip, rest⟩ := not_or.mp other
  obtain ⟨cycle, instret⟩ := not_or.mp rest
  simp only [read, untimed, if_neg mip, if_neg cycle, if_neg instret]

theorem read_of_untimed (other : ¬ TimedAddr a) (same : r.untimed = r'.untimed) : r.read a = r'.read a := by
  rw [← read_untimed other, same, read_untimed other]

theorem untimed_sees (r : CsrRegs) (o : Outside) : (r.sees o).untimed = r.untimed := rfl

/-- A timed CSR reads as the outside has it. -/
theorem read_sees_timed (timed : TimedAddr a) : (r.sees o).read a = o.timed := by
  rcases timed with rfl | rfl | rfl <;> rfl

theorem untimed_eq (same : r.untimed = r'.untimed) :
    r.mstatus = r'.mstatus ∧ r.misa = r'.misa ∧ r.mie = r'.mie ∧ r.mtvec = r'.mtvec ∧ r.mscratch = r'.mscratch ∧
      r.mepc = r'.mepc ∧ r.mcause = r'.mcause ∧ r.mtval = r'.mtval := by
  simpa only [untimed, CsrRegs.mk.injEq, true_and, and_true] using same

/-- What the interrupt lines make pending depends on `mstatus` and `mie` alone. -/
theorem lined_eq (same : r.untimed = r'.untimed) (lines : r.mip = o.mip) :
    r.intPending = (r'.lined o).intPending ∧ r.intCause = (r'.lined o).intCause := by
  obtain ⟨mstatus, -, mie, -⟩ := untimed_eq same
  have mei : r.meiPending = (r'.lined o).meiPending := by simp only [meiPending, lined, mie, lines]
  have msi : r.msiPending = (r'.lined o).msiPending := by simp only [msiPending, lined, mie, lines]
  refine ⟨?_, ?_⟩
  · simp only [intPending, mieM, meiPending, msiPending, mtiPending, lined, mstatus, mie, lines]
  · rw [intCause, intCause, mei, msi]

/-- Equal but for the timed ones they stay so under equal requests, whatever the lines are. -/
theorem untimed_next (same : CsrIn.Same r r' { i with lines := i'.lines } i') (regs : r.untimed = r'.untimed) :
    (r.next i).untimed = (r'.next i').untimed := by
  -- `uncounted_next` with the lines and `mip` made equal
  have lent : { r with mip := r'.mip }.uncounted = r'.uncounted := by
    obtain ⟨mstatus, misa, mie, mtvec, mscratch, mepc, mcause, mtval⟩ := untimed_eq regs
    simp only [uncounted, mstatus, misa, mie, mtvec, mscratch, mepc, mcause, mtval]
  obtain ⟨t, t', asks, trap, trap'⟩ := same.trap
  have asked : CsrIn.Same { r with mip := r'.mip } r' { i with lines := i'.lines } i' :=
    ⟨⟨t, t', asks, trap, trap'⟩, same.wren, same.addr, same.data, rfl⟩
  have next := congrArg untimed (uncounted_next asked lent)
  exact next

theorem untimed_quiet (off : i.trap.Off) (quiet : i.csrWren = false) : (r.next i).untimed = r.untimed := by
  simp [untimed, CsrRegs.next, off.mepc, off.mcause, off.mtval, off.mstatus, quiet]

end CsrRegs

/-! ## What a cycle shows -/

namespace Cpu

section Shows

variable (p : Params) (m : DmemParams) (s : Cpu) (i : CpuIn)

/-- The write one of the two ports takes. -/
def busWrite : Option Access := (s.exec p m i).accepted.find? fun a => a.we

/-- The values a cycle takes from outside. -/
def outside : Outside := { mip := s.csr.regs.mip, timed := s.csr.csrRdataQ, data := i.periRsp.rdata }

/-- The retirement, trap or interrupt of a cycle, with those values. -/
def turns : List (Outside × Turned) :=
  if (s.exec p m i).opCommits then
    [(s.outside i, .did (.commit s.de.pc s.de.instr (s.gprWrite p m i) (s.csrWrite p m i) (s.busWrite p m i)))]
  else if (s.exec p m i).syncTrapReq then
    [(s.outside i, .did (.trap (s.exec p m i).trapMepc (s.exec p m i).trapCause (s.exec p m i).trapTval))]
  else if (s.exec p m i).takeInterrupt then
    [(s.outside i, .interrupt (s.exec p m i).trapMepc (s.exec p m i).trapCause)]
  else []

/-- The CPU sleeps, or the peripheral port does not take its request or does not answer it. -/
def waits : Bool :=
  (s.exec p m i).wfiStall ||
    s.lsu.core.ex.memIsPeri &&
      ((s.exec p m i).inState .MEM_LAUNCH && !i.periRsp.wready || (s.exec p m i).inState .MEM_WAIT && !i.periRsp.rvalid)

end Shows

variable {p : Params} {m : DmemParams} {s : Cpu} {i : CpuIn}

theorem turns_silent (silent : s.turns p m i = []) :
    (s.exec p m i).opCommits = false ∧ (s.exec p m i).syncTrapReq = false ∧ (s.exec p m i).takeInterrupt = false := by
  rw [turns] at silent
  cases commit : (s.exec p m i).opCommits <;> cases sync : (s.exec p m i).syncTrapReq <;>
    cases int : (s.exec p m i).takeInterrupt <;> simp_all

end Cpu

namespace Ordered

/-- A cycle that neither returns to an odd address nor sleeps on a second WFI, with the oldest
instruction not astride the end of the I-mem. -/
structure Tame (p : Params) (m : DmemParams) (image : ℕ → BitVec 64) (o : Ordered) (i : CpuIn) : Prop where
  ret : o.cpu.EvenReturn p m i
  sleeps : ¬ o.cpu.SleepsOnWfi p m i
  inside : ¬ Straddles p.imemAddrW image o.pc

instance (p : Params) (m : DmemParams) (image : ℕ → BitVec 64) (o : Ordered) (i : CpuIn) :
    Decidable (o.Tame p m image i) :=
  decidable_of_iff (o.cpu.EvenReturn p m i ∧ ¬ o.cpu.SleepsOnWfi p m i ∧ ¬ Straddles p.imemAddrW image o.pc)
    ⟨fun ⟨ret, sleeps, inside⟩ => ⟨ret, sleeps, inside⟩, fun h => ⟨h.ret, h.sleeps, h.inside⟩⟩

/-- The CPU before the instruction at the machine's PC has retired or trapped. -/
structure Attending (p : Params) (m : DmemParams) (image : ℕ → BitVec 64) (o : Ordered) (t : Sleeper) : Prop where
  rf : o.cpu.rf = t.arch.rf
  csr : o.cpu.csr.regs.untimed = t.arch.csr.untimed
  mem : bytesOf o.cpu.lsu.dmem.mem = t.arch.mem
  pc : o.pc = t.arch.pc
  asleep : o.cpu.lsu.core.ex.wfiHalt = t.asleep
  order : o.Inv p m image
  wake : o.cpu.lsu.core.ex.wfiHalt = true → o.cpu.lsu.core.ex.wfiNextPc = o.pc
  midCsr : o.cpu.lsu.core.ex.state = .CSR_WAIT → ¬ TimedAddr o.cpu.de.csrAddr →
    o.cpu.csr.csrRdataQ = o.cpu.csr.regs.read o.cpu.de.csrAddr
  midDiv : o.cpu.lsu.core.ex.state = .DIV_BUSY → o.cpu.lsu.core.ex.alu.Underway o.cpu.de.aluComb

variable {p : Params} {m : DmemParams} {image : ℕ → BitVec 64} {o : Ordered} {i : CpuIn} {t : Sleeper} {e : Effect}

namespace Attending

/-! ## The instruction in D/E -/

theorem word (att : o.Attending p m image t) (valid : o.cpu.de.valid = true) :
    t.arch.word p image = o.cpu.de.base := by
  rw [Arch.word, ← att.rf, ← att.pc]
  exact (att.order.word valid).symm

theorem pc_de (att : o.Attending p m image t) (tame : o.Tame p m image i) (valid : o.cpu.de.valid = true) :
    o.cpu.de.pc = t.arch.pc := by
  rw [(att.order.pc_de valid).mpr tame.inside, att.pc]

theorem turn (att : o.Attending p m image t) (valid : o.cpu.de.valid = true) (x : Outside) :
    t.arch.turn p m image x =
      (t.arch.sees x).after m (o.cpu.de.effect p m (fun _ => x.data) (t.arch.sees x)) := by
  have word : (t.arch.sees x).word p image = o.cpu.de.base := att.word valid
  rw [Arch.turn, Arch.step, word]
  rfl

theorem turned (att : o.Attending p m image t) (valid : o.cpu.de.valid = true) (x : Outside) :
    t.arch.turned p m image x =
      (o.cpu.de.effect p m (fun _ => x.data) (t.arch.sees x)).event t.arch.pc o.cpu.de := by
  have word : (t.arch.sees x).word p image = o.cpu.de.base := att.word valid
  rw [Arch.turned, Arch.event, word]
  rfl

/-- What is pending for the CPU is pending for the machine. -/
theorem pends (att : o.Attending p m image t) :
    (o.cpu.exec p m i).intPending = t.arch.pends (o.cpu.outside i) ∧
      (o.cpu.exec p m i).intCause = (t.arch.csr.lined (o.cpu.outside i)).intCause :=
  CsrRegs.lined_eq att.csr rfl

/-! ## What the edge leaves -/

/-- In the idle state nothing is midway. -/
theorem idle_next (settles : (o.cpu.exec p m i).Settles) (rf : (o.next p m i).cpu.rf = t.arch.rf)
    (csr : (o.next p m i).cpu.csr.regs.untimed = t.arch.csr.untimed)
    (mem : bytesOf (o.next p m i).cpu.lsu.dmem.mem = t.arch.mem) (pc : (o.next p m i).pc = t.arch.pc)
    (asleep : (o.cpu.exec p m i).next.wfiHalt = t.asleep) (order : (o.next p m i).Inv p m image)
    (wake : (o.cpu.exec p m i).next.wfiHalt = true → (o.cpu.exec p m i).next.wfiNextPc = (o.next p m i).pc) :
    (o.next p m i).Attending p m image t := by
  have idle : (o.next p m i).cpu.lsu.core.ex.state = .IDLE := settles.state
  refine ⟨rf, csr, mem, pc, asleep, order, wake, ?_, ?_⟩
  all_goals
    intro other
    rw [idle] at other
    cases other

theorem wake_next (att : o.Attending p m image t) (tame : o.Tame p m image i)
    (halted : (o.next p m i).cpu.lsu.core.ex.wfiHalt = true) :
    (o.next p m i).cpu.lsu.core.ex.wfiNextPc = (o.next p m i).pc := by
  exact att.order.wake_iff.mpr tame.sleeps halted

/-! ## Cycles that show nothing -/

theorem shows_quiet (calm : (o.cpu.exec p m i).Calm) (inert : (o.cpu.exec p m i).Inert) : o.cpu.turns p m i = [] := by
  rw [Cpu.turns, inert.commit, calm.sync, calm.int]
  rfl

theorem quiet (att : o.Attending p m image t) (tame : o.Tame p m image i) (calm : (o.cpu.exec p m i).Calm)
    (inert : (o.cpu.exec p m i).Inert) (halt : (o.cpu.exec p m i).next.wfiHalt = t.asleep)
    (kept : (o.cpu.exec p m i).stallO = true ∨ (o.cpu.exec p m i).Settles) :
    (o.next p m i).Attending p m image t := by
  have csr : (o.next p m i).cpu.csr.regs.untimed = o.cpu.csr.regs.untimed :=
    CsrRegs.untimed_quiet (i := o.cpu.csrIn p m i) (ExCyc.trapWrite_off calm _) (ExCyc.csrWe_off inert.csr)
  have rf : (o.next p m i).cpu.rf = o.cpu.rf := by simp [Ordered.next, Cpu.next, RegFile.next, inert.wb]
  have pc : (o.next p m i).pc = o.pc := by simp [next, Cpu.pcNext, ExCyc.redirect_calm calm, inert.commit]
  have mem : bytesOf (o.next p m i).cpu.lsu.dmem.mem = bytesOf o.cpu.lsu.dmem.mem := by
    have bytes : bytesOf (o.next p m i).cpu.lsu.dmem.mem = _ := att.order.lsu.bytes_next (i := o.cpu.coreIn i)
    rw [bytes, Lsu.storesOf_events, Lsu.storesOf_inert inert]
  refine ⟨rf.trans att.rf, csr.trans att.csr, mem.trans att.mem, pc.trans att.pc, halt, att.order.next tame.ret,
    att.wake_next tame, ?_, ?_⟩
  · intro wait other
    rcases kept with stall | settles
    · have same : (o.next p m i).cpu.de = o.cpu.de := Core.de_stall (ExCyc.flush_calm calm inert.train) stall
      rw [same] at other ⊢
      exact CsrRegs.read_of_untimed other csr.symm
    · rw [show (o.next p m i).cpu.lsu.core.ex.state = .IDLE from settles.state] at wait
      cases wait
  · intro busy
    rcases kept with stall | settles
    · have same : (o.next p m i).cpu.de = o.cpu.de := Core.de_stall (ExCyc.flush_calm calm inert.train) stall
      rw [same]
      exact ExCyc.underway_next (e := o.cpu.exec p m i) att.order.lsu.core att.midDiv busy
    · rw [show (o.next p m i).cpu.lsu.core.ex.state = .IDLE from settles.state] at busy
      cases busy

/-! ## Cycles that perform an effect -/

/-- The CPU does `e`, and the machine with it. -/
theorem performed (att : o.Attending p m image t) (tame : o.Tame p m image i) (settles : (o.cpu.exec p m i).Settles)
    {asleep : Bool} (halt : (o.cpu.exec p m i).next.wfiHalt = asleep)
    (does : o.cpu.Performs p m i (t.arch.sees (o.cpu.outside i)) e) :
    (o.next p m i).Attending p m image ⟨(t.arch.sees (o.cpu.outside i)).after m e, asleep⟩ := by
  have port := does.port (t.arch.sees (o.cpu.outside i)).csr
  refine idle_next settles (does.rf_next att.rf) ?_ does.mem ?_ halt (att.order.next tame.ret) (att.wake_next tame)
  · exact CsrRegs.untimed_next (i := o.cpu.csrIn p m i)
      ⟨⟨_, _, does.trap, rfl, rfl⟩, port.1, fun wren => (port.2 wren).1, fun wren => (port.2 wren).2, rfl⟩
      (att.csr.trans (CsrRegs.untimed_sees _ _).symm)
  · have pc := does.pc
    rw [show (t.arch.sees (o.cpu.outside i)).pc = o.pc from att.pc.symm] at pc
    exact pc

end Attending

end Ordered

end YarvUc
