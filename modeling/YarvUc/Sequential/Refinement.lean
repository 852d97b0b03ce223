import YarvUc.Clocked.Simulation
import YarvUc.Sequential.Delay

/-!
# The pipeline refines sequential execution

Every cycle retires or traps the instruction at the machine's PC with its effect, or shows
nothing and brings the delay down. So, for any contents of the predictor, what the pipeline
shows is what the sequential machine does, one event after another, and the next one is at
most 42 cycles away.
-/

namespace YarvUc

/-- The machine at reset: the register file and the D-mem are what they were. -/
def Arch.start (boot : Word) (s : Cpu) : Arch where
  pc := boot
  rf := s.rf
  csr := .reset
  mem := bytesOf s.lsu.dmem.mem

namespace Cpu

variable {p : Params} {m : DmemParams} {image : ℕ → BitVec 64} {peri : PeriMem} {s : Cpu} {i : CpuIn} {a : Arch}
  {e : Effect}

/-! ## Cycles that show nothing -/

theorem shows_quiet (calm : (s.exec p m i).Calm) (inert : (s.exec p m i).Inert) : s.shows p m i = [] := by
  rw [shows, inert.commit, calm.sync]
  rfl

theorem Follows.quiet (follows : s.Follows p m image a) (plain : s.Plain p m i) (calm : (s.exec p m i).Calm)
    (inert : (s.exec p m i).Inert) : (s.next p m i).Follows p m image a := by
  have noMret : (s.exec p m i).mretReq = true → s.csr.regs.mepc.getLsbD 0 = false := fun _ => follows.mepc
  have noEntry : (s.exec p m i).trapIn.entry = true → (s.exec p m i).trapMepc = a.pc := by
    simp [ExCyc.trapIn, TrapIn.entry, calm.sync, calm.int]
  have same : (Ordered.mk s a.pc).next p m i = Ordered.mk (s.next p m i) a.pc := by
    simp [Ordered.next, pcNext, ExCyc.redirect_calm calm, inert.commit]
  refine ⟨⟨?_, ?_, ?_⟩, ?_, follows.mid.next plain follows.order.lsu, follows.mepc_next plain noEntry⟩
  · rw [← follows.agrees.rf]
    simp [Cpu.next, RegFile.next, inert.wb]
  · rw [← follows.agrees.csr]
    exact plain.uncounted_quiet follows.mid.low calm inert
  · rw [← follows.agrees.mem]
    have bytes : bytesOf (s.next p m i).lsu.dmem.mem = _ := follows.order.lsu.bytes_next (i := s.coreIn i)
    rw [bytes, Lsu.storesOf_events, Lsu.storesOf_inert inert]
  · rw [← same]
    exact follows.order.next noMret

/-! ## Cycles with an event -/

theorem Follows.performed (follows : s.Follows p m image a) (plain : s.Plain p m i) (does : s.Performs p m i a e)
    (saves : (s.exec p m i).trapIn.entry = true → (s.exec p m i).trapMepc = a.pc) :
    (s.next p m i).Follows p m image (a.after m e) := by
  have noMret : (s.exec p m i).mretReq = true → s.csr.regs.mepc.getLsbD 0 = false := fun _ => follows.mepc
  have same : (Ordered.mk s a.pc).next p m i = Ordered.mk (s.next p m i) (a.after m e).pc := by
    rw [← does.pc]
    rfl
  refine ⟨does.agrees follows.agrees plain, ?_, follows.mid.next plain follows.order.lsu,
    follows.mepc_next plain saves⟩
  rw [← same]
  exact follows.order.next noMret

/-- What `Outcome.trap` says of a cycle. -/
structure Traps (p : Params) (m : DmemParams) (s : Cpu) (i : CpuIn) : Prop where
  valid : s.de.valid = true
  why : s.lsu.core.ex.state = .IDLE ∧ (s.exec p m i).misalignedTrap = false ∧ s.de.Is .exc ∨
    (s.lsu.core.ex.state = .MEM_TRAP ∨ s.lsu.core.ex.state = .MEM_LAUNCH) ∧ (s.exec p m i).misalignedTrap = true ∧
      Captured s.de s.lsu.core.ex ∧ s.de.memMisalignedLive = true
  sync : (s.exec p m i).syncTrapReq = true
  mret : (s.exec p m i).mretReq = false
  int : (s.exec p m i).takeInterrupt = false
  inert : (s.exec p m i).Inert

namespace Traps

/-- The cause and `mtval` on the trap unit's port. -/
theorem fault (t : s.Traps p m i) : s.de.fault = some ((s.exec p m i).trapCause, (s.exec p m i).trapTval) := by
  rw [ExCyc.trapCause, ExCyc.trapTval, t.int, if_neg Bool.false_ne_true, if_neg Bool.false_ne_true, ExCyc.syncCause,
    ExCyc.syncTval]
  rcases t.why with ⟨-, aligned, is⟩ | ⟨-, misaligned, own, live⟩
  · rw [aligned]
    exact DeT.fault_exc is.exception
  · have mem : s.de.isMemOp = true := own.mem.elim (fun is => is.isMemOp) fun is => is.isMemOp
    have nonexc : s.de.exception = false := own.mem.elim (fun is => is.exception) fun is => is.exception
    rw [misaligned, if_pos rfl, if_pos rfl, DeT.fault_misaligned nonexc mem live, exec_q, own.addr]
    rfl

/-- The address it saves. -/
theorem mepc (t : s.Traps p m i) (follows : s.Follows p m image a) (inside : a.Inside p image) :
    (s.exec p m i).trapMepc = a.pc := by
  rw [ExCyc.trapMepc, exec_q, follows.mid.awake]
  exact follows.pc_de t.valid inside

theorem performs (t : s.Traps p m i) (follows : s.Follows p m image a) (inside : a.Inside p image) :
    s.Performs p m i a (s.de.effect p m peri a) := by
  have redirect : (s.exec p m i).trapRedirectReq = true := by simp [ExCyc.trapRedirectReq, t.sync]
  rw [DeT.effect_trap t.fault]
  refine ⟨?_, ?_, ?_, ?_, t.sync, t.int, t.mret, fun _ => rfl, fun _ => rfl,
    fun _ => t.mepc follows inside⟩
  · have base : s.csr.regs.mtvecBase = a.csr.mtvecBase := by
      rw [CsrRegs.mtvecBase, CsrRegs.mtvecBase, (CsrRegs.uncounted_eq follows.agrees.csr).2.2.2.1]
    have noMret : (s.exec p m i).trapIn.mret = false := t.mret
    have noInt : (s.exec p m i).trapIn.takeInterrupt = false := t.int
    rw [pcNext, redirect, if_pos rfl, trapRedirectAddr, TrapIn.redirectAddr, noMret, noInt]
    exact base
  · rw [gprWrite, t.inert.wb]
    rfl
  · rw [Cpu.csrWrite, ExCyc.csrWe_off t.inert.csr]
    rfl
  · have bytes : bytesOf (s.next p m i).lsu.dmem.mem = _ := follows.order.lsu.bytes_next (i := s.coreIn i)
    rw [bytes, Lsu.storesOf_events, Lsu.storesOf_inert t.inert, follows.agrees.mem]
    rfl

theorem shows (t : s.Traps p m i) (follows : s.Follows p m image a) (inside : a.Inside p image) :
    s.shows p m i = [(s.de.effect p m peri a).event a.pc s.de] := by
  rw [Cpu.shows, t.inert.commit, t.sync, t.mepc follows inside, DeT.effect_trap t.fault]
  rfl

end Traps

/-! ## The simulation -/

/-- One cycle of the pipeline against one instruction of the machine. -/
theorem follows (p : Params) (m : DmemParams) (image : ℕ → BitVec 64) (peri : PeriMem) :
    Clocked.Follows (next p m) (shows p m) (Arch.step p m image peri) (Arch.event p m image peri) delay 43
      (Follows p m image) (Plain p m) (Arch.Inside p image) := by
  refine ⟨fun s _ _ => s.delay_lt, ?_⟩
  intro s i a rel plain inside
  cases (show (s.exec p m i).Outcome from rel.order.lsu.core.outcome) with
  | bubble valid awake idle stall calm inert bus settles halt =>
    left
    exact ⟨shows_quiet calm inert, rel.quiet plain calm inert,
      delay_bubble rel.order.fetch valid stall (ExCyc.flush_calm calm inert.train)⟩
  | hold valid awake stall calm inert phase bus halt =>
    left
    exact ⟨shows_quiet calm inert, rel.quiet plain calm inert,
      delay_hold rel.mid plain rel.order.lsu valid stall calm inert bus⟩
  | asleep halted quiet idle stall calm inert bus settles halt nextPc =>
    have awake : (s.exec p m i).q.wfiHalt = false := rel.mid.awake
    rw [awake] at halted
    cases halted
  | interrupt idle pending why nonexc sync mret int inert bus settles halt =>
    have none : (s.exec p m i).intPending = false := CsrRegs.intPending_low rel.mid.low
    rw [none] at pending
    cases pending
  | trap valid why sync mret int inert bus settles halt =>
    right
    have t : s.Traps p m i := ⟨valid, why, sync, mret, int, inert⟩
    rw [rel.event valid, rel.step valid]
    exact ⟨t.shows rel inside, rel.performed plain (t.performs rel inside) fun _ => t.mepc rel inside⟩
  | commit k valid is nonexc state awake stall sync int mret commit wb csr train bus memory settles halt =>
    right
    have r : s.Retires p m i k := ⟨valid, is, nonexc, state, sync, int, mret, commit, wb, csr, bus, memory⟩
    have noEntry : (s.exec p m i).trapIn.entry = false := by simp [ExCyc.trapIn, TrapIn.entry, sync, int]
    rw [rel.event valid, rel.step valid]
    refine ⟨r.shows rel plain inside, rel.performed plain (r.performs rel plain) fun entry => ?_⟩
    rw [noEntry] at entry
    cases entry

theorem follows_start {boot : Word} (even : boot.getLsbD 0 = false) (s : Cpu) :
    (s.start boot).Follows p m s.fetch.ram.mem (.start boot s) :=
  ⟨⟨rfl, rfl, rfl⟩, Ordered.inv_start even s, midway_start boot s, BitVec.getLsbD_zero⟩

/-- The pipeline refines sequential execution: after `n` cycles without interrupt lines,
WFI, peripheral and counter accesses and odd writes to `mepc`, with every instruction on the
way inside the I-mem, what has retired and trapped is the sequential machine's first events,
the registers, CSRs and D-mem are the machine's behind them, and their number grows with the
cycles. The parameters and the predictor's contents are any. -/
theorem pipeline_refines (p : Params) (m : DmemParams) (peri : PeriMem) (boot : Word)
    (even : boot.getLsbD 0 = false) (s : Cpu) (ins : ℕ → CpuIn) (n : ℕ) :
    let c := Clocked.run (next p m) (s.start boot) ins
    let log := Clocked.log (next p m) (shows p m) (s.start boot) ins n
    let step := Arch.step p m s.fetch.ram.mem peri
    (∀ j < n, (c j).Plain p m (ins j)) →
      (∀ k ≤ log.length, (step^[k] (.start boot s)).Inside p s.fetch.ram.mem) →
        log = Clocked.eventsOf step (Arch.event p m s.fetch.ram.mem peri) (.start boot s) log.length ∧
          (c n).Agrees (step^[log.length] (.start boot s)) ∧ n < 43 * (log.length + 1) := by
  intro c log step plain inside
  have here := (follows p m s.fetch.ram.mem peri).run (follows_start even s) n plain inside
  exact ⟨here.log, here.rel.agrees, Nat.lt_of_le_of_lt (Nat.le_add_right n _) here.wait⟩

/-- `addi x1, x0, 5`, `sw x1, 0(x0)`, `lw x2, 0(x0)`, and zeros, which are illegal. -/
def storeLoad : Cpu := ofWords [0x00500093#32, 0x00102023#32, 0x00002103#32]

theorem pipeline_refines_storeLoad :
    let log := Clocked.log (next .board .board) (shows .board .board) (storeLoad.start 0) (msipFrom 99) 12
    let step := Arch.step .board .board storeLoad.fetch.ram.mem fun _ => 0
    log = Clocked.eventsOf step (Arch.event .board .board storeLoad.fetch.ram.mem fun _ => 0) (.start 0 storeLoad)
        log.length ∧
      (Clocked.run (next .board .board) (storeLoad.start 0) (msipFrom 99) 12).Agrees
        (step^[log.length] (.start 0 storeLoad)) ∧
      12 < 43 * (log.length + 1) :=
  pipeline_refines .board .board (fun _ => 0) 0 rfl storeLoad (msipFrom 99) 12 (by decide +kernel) (by decide +kernel)

end Cpu

end YarvUc
