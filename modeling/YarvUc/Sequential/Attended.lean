import YarvUc.Sequential.Attending

/-!
# The pipeline attends the sequential machine

With interrupts, sleep and peripherals: every cycle shows one turn of the machine under the
values that come in from outside in that cycle, or nothing. So a run of the CPU, whatever its
interrupt lines and its peripheral port do, is a run of the machine that the same values
reach, and the CPU is silent for 43 cycles only if it waits.
-/

namespace YarvUc

/-- The handler's address depends on `mtvec` alone. -/
theorem TrapIn.redirectAddr_mtvec {t : TrapIn} {r r' : CsrRegs} (entry : t.mret = false) (same : r.mtvec = r'.mtvec) :
    t.redirectAddr r = t.redirectAddr r' := by
  simp [TrapIn.redirectAddr, entry, CsrRegs.isVectored, CsrRegs.mtvecBase, same]

namespace Ordered

variable {p : Params} {m : DmemParams} {image : ℕ → BitVec 64} {o : Ordered} {i : CpuIn} {t : Sleeper} {k : OpKind}

namespace Attending

/-! ## Retirements -/

/-- A load's value is the D-mem's, or the answer of the peripheral port. -/
theorem value_load (att : o.Attending p m image t) (r : o.cpu.Retires p m i .load) :
    o.cpu.de.loadData (o.cpu.exec p m i).lsuRspWait.rdata o.cpu.lsu.core.ex.memAddr =
      o.cpu.de.loaded m (fun _ => (o.cpu.outside i).data) (t.arch.sees (o.cpu.outside i)) := by
  obtain ⟨own, -⟩ := r.memory (.inl rfl)
  have ea : o.cpu.de.lsuEa = o.cpu.de.effAddr := DeT.lsuEa_eq r.is r.is.isMemOp
  rw [DeT.loaded]
  cases port : o.cpu.de.isPeriLive with
  | true =>
    have peri : (o.cpu.exec p m i).isPeriRsp = true := own.peri.trans port
    rw [ExCyc.lsuRspWait, peri, if_pos rfl, if_pos rfl, own.addr]
    rfl
  | false =>
    have dmem : o.cpu.de.effAddr.getLsbD PERI_ADDR_BIT = false := by
      rw [← ea]
      exact port
    have wb := (att.order.lsu.wbData_load (i := o.cpu.coreIn i) r.commit r.is.memRead dmem).2
    have src : o.cpu.de.wbSrc = .MEM := r.is.wbSrc rfl
    have data : (o.cpu.exec p m i).wbData =
        o.cpu.de.loadData (o.cpu.exec p m i).lsuRspWait.rdata o.cpu.lsu.core.ex.memAddr := by
      rw [ExCyc.wbData, ExCyc.wbEarly, Cpu.exec_de, src]
      rfl
    rw [← data, if_neg Bool.false_ne_true, ea, show (t.arch.sees (o.cpu.outside i)).mem = t.arch.mem from rfl, ← att.mem]
    exact wb

/-- A CSR's value is the machine's, or what a timed CSR reads as. -/
theorem value_csr (att : o.Attending p m image t) (r : o.cpu.Retires p m i .csr) :
    (o.cpu.exec p m i).csrRdata = (t.arch.csr.sees (o.cpu.outside i)).read o.cpu.de.csrAddr := by
  by_cases timed : TimedAddr o.cpu.de.csrAddr
  · rw [CsrRegs.read_sees_timed timed]
    rfl
  · exact (att.midCsr r.state timed).trans
      (CsrRegs.read_of_untimed timed (att.csr.trans (CsrRegs.untimed_sees _ _).symm))

theorem gpr (att : o.Attending p m image t) (r : o.cpu.Retires p m i k) :
    o.cpu.gprWrite p m i =
      if o.cpu.de.regWrite && o.cpu.de.rd != 0 then
        some (o.cpu.de.rd,
          o.cpu.de.value p m (fun _ => (o.cpu.outside i).data) (t.arch.sees (o.cpu.outside i)))
      else none := by
  have enable : (o.cpu.exec p m i).wbEn = o.cpu.de.regWrite := r.wb.trans r.is.regWrite.symm
  rw [Cpu.gprWrite, enable]
  cases writes : o.cpu.de.regWrite with
  | false => rfl
  | true =>
    have value : (o.cpu.exec p m i).wbData =
        o.cpu.de.value p m (fun _ => (o.cpu.outside i).data) (t.arch.sees (o.cpu.outside i)) := by
      refine r.exec.wbData (r.is.regWrite.symm.trans writes) ?_ ?_ ?_
      · rintro rfl
        exact att.midDiv r.state
      · rintro rfl
        exact att.value_load r
      · rintro rfl
        exact att.value_csr r
    rw [value]

theorem csrWrite (att : o.Attending p m image t) (r : o.cpu.Retires p m i k) :
    o.cpu.csrWrite p m i =
      (o.cpu.de.csrWrite ((t.arch.sees (o.cpu.outside i)).csr.read o.cpu.de.csrAddr)).map
        fun v => (o.cpu.de.csrAddr, v) := by
  by_cases csr : k = .csr
  · subst csr
    have rdata := att.value_csr r
    have we := ExCyc.csrWe_eq r.csr
    rw [rdata] at we
    rw [Cpu.csrWrite, we]
    change (if _ then _ else _) = (o.cpu.de.csrWrite ((t.arch.csr.sees (o.cpu.outside i)).read _)).map _
    cases write : o.cpu.de.csrWrite ((t.arch.csr.sees (o.cpu.outside i)).read o.cpu.de.csrAddr) with
    | none =>
      rw [Cpu.exec_de, write]
      rfl
    | some v =>
      have new := ExCyc.csrNew_eq (e := o.cpu.exec p m i) (v := v) (by rw [rdata, Cpu.exec_de, write])
      rw [Cpu.exec_de, write, new]
      rfl
  · have off : (o.cpu.exec p m i).csrOpValid = false := by
      rw [r.csr]
      cases k <;> first | rfl | exact absurd rfl csr
    have none : k.flags.csrOp = false := by cases k <;> first | rfl | exact absurd rfl csr
    rw [r.is.csrWrite_none none, Cpu.csrWrite, ExCyc.csrWe_off off]
    rfl

theorem busWrite (r : o.cpu.Retires p m i k) :
    o.cpu.busWrite p m i = if o.cpu.de.memWrite then some o.cpu.de.storeAccess else none := by
  rw [Cpu.busWrite]
  rcases r.bus with ⟨rfl, x, one, mine⟩ | ⟨other, none⟩
  · have write : o.cpu.de.memWrite = true := r.is.memWrite
    have we : x.we = true := mine.we.trans write
    obtain ⟨wdata, wstrb⟩ := mine.lanes write
    have same : x = o.cpu.de.storeAccess := by
      cases x
      simp only at *
      rw [DeT.storeAccess, ← mine.peri, ← mine.addr, ← wdata, ← wstrb, we]
    rw [one, write, ← same]
    simp [we]
  · have read : o.cpu.de.memWrite = false := by
      rw [r.is.memWrite]
      cases k <;> first | rfl | exact absurd rfl other
    rw [none, read]
    rfl

theorem bytes (att : o.Attending p m image t) (r : o.cpu.Retires p m i k) :
    bytesOf (o.cpu.next p m i).lsu.dmem.mem =
      t.arch.mem.after m
        (if o.cpu.de.memWrite then some ⟨o.cpu.de.lsuEa, o.cpu.de.memSize, o.cpu.de.rs2Data⟩ else none) := by
  have next : bytesOf (o.cpu.next p m i).lsu.dmem.mem = _ := att.order.lsu.bytes_next (i := o.cpu.coreIn i)
  rw [next, Lsu.storesOf_events, Lsu.ending_commit r.commit r.valid r.sync r.int, att.mem]
  simp only [Lsu.storesOf, List.foldl_cons, List.foldl_nil, Lsu.retire]
  cases write : o.cpu.de.memWrite with
  | false =>
    rw [show o.cpu.lsu.core.dec.de.memWrite = false from write]
    rfl
  | true =>
    have mem : o.cpu.de.isMemOp = true := by rw [DeT.isMemOp, write, Bool.or_true]
    rw [show o.cpu.lsu.core.dec.de.memWrite = true from write, if_pos rfl, DeT.lsuEa_eq r.is mem, ByteMem.after]
    change (if (true && !o.cpu.de.effAddr.getLsbD PERI_ADDR_BIT) = true then _ else _) = _
    cases o.cpu.de.effAddr.getLsbD PERI_ADDR_BIT <;> rfl

theorem performs (att : o.Attending p m image t) (r : o.cpu.Retires p m i k) :
    o.cpu.Performs p m i (t.arch.sees (o.cpu.outside i))
      (o.cpu.de.effect p m (fun _ => (o.cpu.outside i).data) (t.arch.sees (o.cpu.outside i))) := by
  have isMret : o.cpu.de.isMretOp = k.flags.mret := r.is.isMretOp
  have gpr := att.gpr r
  have csr := att.csrWrite r
  have bytes := att.bytes r
  cases mret : k.flags.mret with
  | false =>
    rw [DeT.effect_retire r.clean (isMret.trans mret)]
    refine ⟨?_, gpr, csr, bytes, r.trapIn rfl rfl mret.symm⟩
    rw [r.pcNext, mret]
    rfl
  | true =>
    obtain rfl : k = .mret := by cases k <;> first | rfl | cases mret
    have noWrite : o.cpu.de.regWrite = false := r.is.regWrite
    have noStore : o.cpu.de.memWrite = false := r.is.memWrite
    rw [DeT.effect_mret r.clean isMret]
    refine ⟨?_, ?_, ?_, ?_, r.trapIn rfl rfl rfl⟩
    · rw [r.pcNext]
      exact (CsrRegs.untimed_eq att.csr).2.2.2.2.2.1
    · rw [gpr, noWrite]
      rfl
    · rw [csr, r.is.csrWrite_none rfl]
      rfl
    · rw [bytes, noStore]
      rfl

theorem shows_retired (att : o.Attending p m image t) (tame : o.Tame p m image i) (r : o.cpu.Retires p m i k) :
    o.cpu.turns p m i =
      [(o.cpu.outside i, .did ((o.cpu.de.effect p m (fun _ => (o.cpu.outside i).data)
        (t.arch.sees (o.cpu.outside i))).event t.arch.pc o.cpu.de))] := by
  have isMret : o.cpu.de.isMretOp = k.flags.mret := r.is.isMretOp
  have does := att.performs r
  rw [Cpu.turns, r.commit, if_pos rfl, att.pc_de tame r.valid, does.gpr, does.csr, busWrite r]
  cases mret : k.flags.mret with
  | false =>
    rw [DeT.effect_retire r.clean (isMret.trans mret)]
    simp only [Effect.event, Effect.gpr, Effect.csr]
    cases o.cpu.de.memWrite <;> rfl
  | true =>
    obtain rfl : k = .mret := by cases k <;> first | rfl | cases mret
    have noStore : o.cpu.de.memWrite = false := r.is.memWrite
    rw [DeT.effect_mret r.clean isMret, noStore]
    rfl

theorem instr_step (att : o.Attending p m image t) (tame : o.Tame p m image i) (valid : o.cpu.de.valid = true)
    (settles : (o.cpu.exec p m i).Settles) (halt : (o.cpu.exec p m i).next.wfiHalt = o.cpu.de.isWfiOp)
    (does : o.cpu.Performs p m i (t.arch.sees (o.cpu.outside i))
      (o.cpu.de.effect p m (fun _ => (o.cpu.outside i).data) (t.arch.sees (o.cpu.outside i))))
    (shows : o.cpu.turns p m i =
      [(o.cpu.outside i, .did ((o.cpu.de.effect p m (fun _ => (o.cpu.outside i).data)
        (t.arch.sees (o.cpu.outside i))).event t.arch.pc o.cpu.de))])
    (wakes : t.asleep = true → (o.cpu.exec p m i).intPending = true ∧
      (o.cpu.de.exception || o.cpu.de.isMretOp) = true)
    (gives : (o.cpu.exec p m i).intPending = true → o.cpu.de.yields = false) :
    ∃ x a u, o.cpu.turns p m i = [(x, a)] ∧ Turn p m image x t a u ∧ (o.next p m i).Attending p m image u := by
  have word := att.word valid
  have pends := att.pends (i := i).1
  have asleep : (o.cpu.exec p m i).next.wfiHalt = (t.arch.word p image).isWfiOp := by
    rw [word]
    exact halt
  have after := att.performed tame settles asleep does
  refine ⟨_, _, _, shows, ?_, after⟩
  rw [← att.turn valid, ← att.turned valid]
  refine .instr (fun sleeps => ?_) fun due => ?_
  · obtain ⟨due, passes⟩ := wakes sleeps
    rw [word]
    exact ⟨pends.symm.trans due, passes⟩
  · rw [word]
    exact gives (pends.trans due)

/-! ## Traps -/

/-- The address a trap saves. -/
theorem trap_mepc (att : o.Attending p m image t) (tame : o.Tame p m image i) (valid : o.cpu.de.valid = true) :
    (o.cpu.exec p m i).trapMepc = t.arch.pc := by
  rw [ExCyc.trapMepc, Cpu.exec_q]
  cases halted : o.cpu.lsu.core.ex.wfiHalt with
  | true =>
    rw [if_pos rfl, att.wake halted]
    exact att.pc
  | false =>
    rw [if_neg Bool.false_ne_true]
    exact att.pc_de tame valid

theorem performs_trap (att : o.Attending p m image t) (tame : o.Tame p m image i) (r : o.cpu.Traps p m i) :
    o.cpu.Performs p m i (t.arch.sees (o.cpu.outside i))
      (o.cpu.de.effect p m (fun _ => (o.cpu.outside i).data) (t.arch.sees (o.cpu.outside i))) := by
  have redirect : (o.cpu.exec p m i).trapRedirectReq = true := by simp [ExCyc.trapRedirectReq, r.sync]
  rw [DeT.effect_trap r.fault]
  refine ⟨?_, ?_, ?_, ?_, r.sync, r.int, r.mret, fun _ => rfl, fun _ => rfl, fun _ => att.trap_mepc tame r.valid⟩
  · have base : o.cpu.csr.regs.mtvecBase = t.arch.csr.mtvecBase := by
      rw [CsrRegs.mtvecBase, CsrRegs.mtvecBase, (CsrRegs.untimed_eq att.csr).2.2.2.1]
    have noMret : (o.cpu.exec p m i).trapIn.mret = false := r.mret
    have noInt : (o.cpu.exec p m i).trapIn.takeInterrupt = false := r.int
    rw [Cpu.pcNext, redirect, if_pos rfl, Cpu.trapRedirectAddr, TrapIn.redirectAddr, noMret, noInt]
    exact base
  · rw [Cpu.gprWrite, r.inert.wb]
    rfl
  · rw [Cpu.csrWrite, ExCyc.csrWe_off r.inert.csr]
    rfl
  · have bytes : bytesOf (o.cpu.next p m i).lsu.dmem.mem = _ := att.order.lsu.bytes_next (i := o.cpu.coreIn i)
    rw [bytes, Lsu.storesOf_events, Lsu.storesOf_inert r.inert, att.mem]
    rfl

theorem shows_trap (att : o.Attending p m image t) (tame : o.Tame p m image i) (r : o.cpu.Traps p m i) :
    o.cpu.turns p m i =
      [(o.cpu.outside i, .did ((o.cpu.de.effect p m (fun _ => (o.cpu.outside i).data)
        (t.arch.sees (o.cpu.outside i))).event t.arch.pc o.cpu.de))] := by
  rw [Cpu.turns, r.inert.commit, r.sync, att.trap_mepc tame r.valid, DeT.effect_trap r.fault]
  rfl

/-! ## Interrupts -/

/-- The pipe runs when it takes an interrupt awake. -/
theorem running_interrupt {e : ExCyc} (int : e.takeInterrupt = true) (awake : e.q.wfiHalt = false) :
    e.freeze = false := by
  simp only [ExCyc.takeInterrupt, ExCyc.normalIntEligible, awake, Bool.or_false, Bool.and_eq_true] at int
  simpa using int.2.2

theorem interrupt_asks (att : o.Attending p m image t) (tame : o.Tame p m image i)
    (why : o.cpu.lsu.core.ex.wfiHalt = true ∨ o.cpu.de.valid = true ∧ o.cpu.de.isWfiOp = false ∧
      o.cpu.de.isMemOp = false)
    (sync : (o.cpu.exec p m i).syncTrapReq = false) (mret : (o.cpu.exec p m i).mretReq = false)
    (int : (o.cpu.exec p m i).takeInterrupt = true) :
    (o.cpu.exec p m i).trapIn = t.arch.csr.interrupt (o.cpu.outside i) t.arch.pc := by
  have pc : (o.cpu.exec p m i).trapMepc = t.arch.pc := by
    cases halted : o.cpu.lsu.core.ex.wfiHalt with
    | true =>
      rw [ExCyc.trapMepc, Cpu.exec_q, halted, if_pos rfl, att.wake halted]
      exact att.pc
    | false => exact att.trap_mepc tame (why.resolve_left (by simp [halted])).1
  rw [ExCyc.trapIn, sync, mret, int, pc, ExCyc.trapCause, ExCyc.trapTval, int, if_pos rfl, if_pos rfl,
    att.pends (i := i).2]
  rfl

theorem interrupt_step (att : o.Attending p m image t) (tame : o.Tame p m image i)
    (pending : (o.cpu.exec p m i).intPending = true)
    (why : o.cpu.lsu.core.ex.wfiHalt = true ∨ o.cpu.de.valid = true ∧ o.cpu.de.isWfiOp = false ∧
      o.cpu.de.isMemOp = false)
    (nonexc : o.cpu.de.valid = true → o.cpu.de.exception = false) (idle : o.cpu.lsu.core.ex.state = .IDLE)
    (sync : (o.cpu.exec p m i).syncTrapReq = false) (mret : (o.cpu.exec p m i).mretReq = false)
    (int : (o.cpu.exec p m i).takeInterrupt = true) (inert : (o.cpu.exec p m i).Inert)
    (settles : (o.cpu.exec p m i).Settles) (halt : (o.cpu.exec p m i).next.wfiHalt = false) :
    ∃ x a u, o.cpu.turns p m i = [(x, a)] ∧ Turn p m image x t a u ∧ (o.next p m i).Attending p m image u := by
  have asks := att.interrupt_asks tame why sync mret int
  have shows : o.cpu.turns p m i =
      [(o.cpu.outside i, .interrupt t.arch.pc (t.arch.csr.lined (o.cpu.outside i)).intCause)] := by
    rw [Cpu.turns, inert.commit, sync, int]
    have pc := congrArg TrapIn.pc asks
    have cause := congrArg TrapIn.cause asks
    change (o.cpu.exec p m i).trapMepc = _ at pc
    change (o.cpu.exec p m i).trapCause = _ at cause
    rw [pc, cause]
    rfl
  have redirect : (o.cpu.exec p m i).trapRedirectReq = true := by simp [ExCyc.trapRedirectReq, int]
  refine ⟨_, _, ⟨t.arch.interrupted (o.cpu.outside i), false⟩, shows, ?_, ?_⟩
  · refine .interrupt (att.pends (i := i).1.symm.trans pending) ?_
    cases halted : o.cpu.lsu.core.ex.wfiHalt with
    | true => exact .inl (att.asleep.symm.trans halted)
    | false =>
      obtain ⟨valid, wfi, mem⟩ := why.resolve_left (by simp [halted])
      have running := running_interrupt int halted
      have plain : o.cpu.de.isMretOp = false := by
        simpa [ExCyc.mretReq, valid, running, ExCyc.inState, idle] using mret
      right
      rw [att.word valid]
      change o.cpu.de.interruptible = true
      simp [DeT.interruptible, wfi, nonexc valid, plain, mem]
  · refine idle_next settles ?_ ?_ ?_ ?_ halt (att.order.next tame.ret) (att.wake_next tame)
    · have rf : (o.next p m i).cpu.rf = o.cpu.rf := by simp [Ordered.next, Cpu.next, RegFile.next, inert.wb]
      exact rf.trans att.rf
    · refine CsrRegs.untimed_next (i := o.cpu.csrIn p m i)
        ⟨⟨_, t.arch.csr.interrupt (o.cpu.outside i) t.arch.pc, ?_, rfl, rfl⟩, ?_, ?_, ?_, rfl⟩ att.csr
      · rw [asks]
        exact ⟨rfl, rfl, rfl, fun _ => rfl, fun _ => rfl, fun _ => rfl⟩
      · exact ExCyc.csrWe_off inert.csr
      all_goals
        intro wren
        have none : (o.cpu.exec p m i).csrWe = false := ExCyc.csrWe_off inert.csr
        rw [show ({ o.cpu.csrIn p m i with lines := _ } : CsrIn).csrWren = (o.cpu.exec p m i).csrWe from rfl, none] at wren
        cases wren
    · have bytes : bytesOf (o.cpu.next p m i).lsu.dmem.mem = _ := att.order.lsu.bytes_next (i := o.cpu.coreIn i)
      change bytesOf (o.cpu.next p m i).lsu.dmem.mem = _
      rw [bytes, Lsu.storesOf_events, Lsu.storesOf_inert inert, att.mem]
      rfl
    · change o.cpu.pcNext p m i o.pc = _
      obtain ⟨-, -, -, mtvec, -⟩ := CsrRegs.untimed_eq att.csr
      rw [Cpu.pcNext, redirect, if_pos rfl, Cpu.trapRedirectAddr, asks]
      exact TrapIn.redirectAddr_mtvec rfl mtvec

end Attending

/-! ## How long the next turn can take -/

/-- A word that stays gets on, or waits for the peripheral port. -/
theorem delay_or_waits {s : Cpu} (inv : s.lsu.Inv p m)
    (div : s.lsu.core.ex.state = .DIV_BUSY → s.lsu.core.ex.alu.Underway s.de.aluComb)
    (valid : s.de.valid = true) (awake : s.lsu.core.ex.wfiHalt = false) (stall : (s.exec p m i).stallO = true)
    (calm : (s.exec p m i).Calm) (inert : (s.exec p m i).Inert)
    (bus : (s.exec p m i).accepted = [] ∧
        ((s.exec p m i).next.state = .MEM_WAIT ↔ s.lsu.core.ex.state = .MEM_WAIT) ∨
      ∃ a, (s.exec p m i).accepted = [a] ∧ a.For s.de ∧ s.de.Is .load ∧ s.de.memMisalignedLive = false ∧
        s.lsu.core.ex.state ≠ .MEM_WAIT ∧ (s.exec p m i).next.state = .MEM_WAIT) :
    (s.next p m i).delay < s.delay ∨ s.waits p m i = true := by
  have same : (s.next p m i).de = s.de := Core.de_stall (ExCyc.flush_calm calm inert.train) stall
  rw [Cpu.delay, Cpu.delay, same, valid, if_pos rfl, if_pos rfl]
  cases state : s.lsu.core.ex.state with
  | IDLE =>
    left
    have before : s.lsu.core.ex.delay = 36 := by rw [ExQ.delay, state]
    rw [before]
    exact ExQ.delay_busy (ExCyc.starts_idle (e := s.exec p m i) state awake rfl (Cpu.dmem_ready inv) stall)
  | MEM_LAUNCH =>
    have aligned : (s.exec p m i).misalignedTrap = false := by
      have sync := calm.sync
      simp only [ExCyc.syncTrapReq, Bool.or_eq_false_iff] at sync
      exact sync.2
    have drive : (s.exec p m i).capturedDrive = true := by
      simp [ExCyc.capturedDrive, ExCyc.memLaunchState, ExCyc.inState, state, valid, aligned]
    have live : (s.exec p m i).dmemLoadDrive = false := by
      simp [ExCyc.dmemLoadDrive, ExCyc.memReqPending, ExCyc.inState, state]
    have before : s.lsu.core.ex.delay = 2 := by rw [ExQ.delay, state]
    rcases bus with ⟨none, -⟩ | ⟨x, -, -, -, -, -, wait⟩
    · right
      cases peri : s.lsu.core.ex.memIsPeri with
      | true =>
        have refused : i.periRsp.wready = false := by
          cases ready : i.periRsp.wready with
          | false => rfl
          | true =>
            have ready' : (s.exec p m i).periRsp.wready = true := ready
            simp [ExCyc.accepted, ExCyc.periReq, live, ExCyc.isPeriRsp, peri, drive, ready'] at none
        simp [Cpu.waits, peri, ExCyc.inState, state, refused]
      | false =>
        simp [ExCyc.accepted, ExCyc.memReq, live, ExCyc.isPeriRsp, peri, ExCyc.dmemCapturedDrive, drive,
          Cpu.dmem_ready inv] at none
    · left
      have after : (s.next p m i).lsu.core.ex.delay = 1 := by
        rw [ExQ.delay, show (s.next p m i).lsu.core.ex.state = .MEM_WAIT from wait]
      rw [before, after]
      decide
  | DIV_BUSY =>
    left
    have is := inv.core.is_div state
    have going := ExCyc.div_going (e := s.exec p m i) valid is awake rfl calm inert
    exact (ExCyc.delay_div (e := s.exec p m i) (div state) state is going).2
  | MEM_WAIT =>
    right
    have going : (s.exec p m i).memDone = false := by
      rcases bus with ⟨-, stays⟩ | ⟨x, -, -, -, -, other, -⟩
      · cases done : (s.exec p m i).memDone with
        | false => rfl
        | true =>
          have idle : (s.exec p m i).next.state = .IDLE := by simp [ExCyc.next, ExCyc.stateD, state, done]
          rw [stays.mpr state] at idle
          cases idle
      · exact absurd state other
    cases peri : s.lsu.core.ex.memIsPeri with
    | false =>
      have done : (s.exec p m i).memDone = true := (inv.done (i := s.coreIn i) state peri).1
      rw [going] at done
      cases done
    | true =>
      have silent : i.periRsp.rvalid = false := by
        have port : (s.exec p m i).lsuRspWait = i.periRsp := by
          rw [ExCyc.lsuRspWait, ExCyc.isPeriRsp, Cpu.exec_q, peri]
          rfl
        simpa [ExCyc.memDone, ExCyc.inState, state, port] using going
      simp [Cpu.waits, peri, ExCyc.inState, state, silent]
  | MEM_TRAP =>
    exfalso
    have live : p.lsuLiveLoad = true := inv.core.liveLoad state
    have misaligned : (s.exec p m i).misalignedTrap = true := by
      simp [ExCyc.misalignedTrap, valid, live, ExCyc.inState, state]
    have sync := calm.sync
    simp [ExCyc.syncTrapReq, misaligned] at sync
  | CSR_WAIT =>
    exfalso
    have commit := (ExCyc.csr_wait (e := s.exec p m i) rfl inv.core state).2.2.commit
    rw [inert.commit] at commit
    cases commit

/-! ## The simulation -/

/-- A word that retires in one cycle passes over no pending interrupt. -/
theorem retires_gives {e : ExCyc} (valid : e.de.valid = true) (is : e.de.Is k) (nonexc : k ≠ .exc)
    (state : e.q.state = k.retiresFrom) (int : e.takeInterrupt = false) (sync : e.syncTrapReq = false)
    (mret : e.mretReq = k.flags.mret) (commit : e.opCommits = true) (due : e.intPending = true) :
    e.de.yields = false := by
  by_contra yields
  rw [Bool.not_eq_false] at yields
  have clean : e.de.exception = false := is.nonexc nonexc
  simp only [DeT.yields, Bool.and_eq_true, Bool.not_eq_true', is.isWfiOp, is.isMretOp, is.isMemOp, is.isDivOp,
    is.isCsrOp] at yields
  obtain ⟨⟨⟨⟨⟨wfi, -⟩, noMret⟩, mem⟩, div⟩, csr⟩ := yields
  have idle : e.q.state = .IDLE := by
    rw [state]
    cases k <;> simp_all [OpKind.flags, OpKind.retiresFrom]
  have running : e.freeze = false := by
    rw [ExCyc.opCommits, mret, noMret, Bool.false_or] at commit
    simp only [Bool.and_eq_true, Bool.not_eq_true'] at commit
    exact commit.1.1.2
  rw [noMret] at mret
  simp [ExCyc.takeInterrupt, due, sync, mret, ExCyc.normalIntEligible, valid, is.isWfiOp, wfi, clean, is.isMemOp, mem,
    ExCyc.inState, idle, running] at int

/-- What passes at a wake found its interrupt pending. -/
theorem wakes_pending {e : ExCyc} (running : e.freeze = false) (halted : e.q.wfiHalt = true) : e.intPending = true := by
  simp only [ExCyc.freeze, Bool.or_eq_false_iff, ExCyc.wfiStall, halted, Bool.true_and, Bool.not_eq_false'] at running
  exact running.2

/-- One cycle of the pipeline against one turn of the machine. -/
theorem attends (p : Params) (m : DmemParams) (image : ℕ → BitVec 64) :
    Clocked.Attends (next p m) (fun o i => o.cpu.turns p m i) (Turn p m image) (fun o => o.cpu.delay) 43
      (fun o i => o.cpu.waits p m i) (Attending p m image) (Tame p m image) := by
  refine ⟨fun o _ _ => o.cpu.delay_lt, ?_⟩
  intro o i t att tame
  cases (show (o.cpu.exec p m i).Outcome from att.order.lsu.core.outcome) with
  | bubble valid awake idle stall calm inert bus settles halt =>
    left
    refine ⟨Attending.shows_quiet calm inert, ?_, .inl ?_⟩
    · exact att.quiet tame calm inert (halt.trans (awake.symm.trans att.asleep)) (.inr settles)
    · exact Cpu.delay_bubble att.order.fetch valid stall (ExCyc.flush_calm calm inert.train)
  | asleep halted quiet idle stall calm inert bus settles halt nextPc =>
    left
    refine ⟨Attending.shows_quiet calm inert, ?_, .inr ?_⟩
    · exact att.quiet tame calm inert (halt.trans (halted.symm.trans att.asleep)) (.inl stall)
    · have sleeps : (o.cpu.exec p m i).wfiStall = true := by
        rw [ExCyc.wfiStall, halted, quiet]
        rfl
      rw [Cpu.waits, sleeps, Bool.true_or]
  | hold valid awake stall calm inert phase bus halt =>
    left
    refine ⟨Attending.shows_quiet calm inert, ?_, ?_⟩
    · exact att.quiet tame calm inert (halt.trans (awake.symm.trans att.asleep)) (.inl stall)
    · exact delay_or_waits att.order.lsu att.midDiv valid awake stall calm inert bus
  | interrupt idle pending why nonexc sync mret int inert bus settles halt =>
    right
    exact att.interrupt_step tame pending why nonexc idle sync mret int inert settles halt
  | trap valid why sync mret int inert bus settles halt =>
    right
    have r : o.cpu.Traps p m i := ⟨valid, why, sync, mret, int, inert⟩
    refine att.instr_step tame valid settles ?_ (att.performs_trap tame r) (att.shows_trap tame r) ?_ ?_
    · rw [halt]
      rcases why with ⟨-, -, is⟩ | ⟨-, -, own, -⟩
      · exact is.isWfiOp.symm
      · exact (own.mem.elim (fun is => is.isWfiOp) fun is => is.isWfiOp).symm
    · intro sleeps
      have halted := att.asleep.trans sleeps
      rcases why with ⟨-, aligned, is⟩ | ⟨-, -, own, -⟩
      · have exc : o.cpu.de.exception = true := is.exception
        refine ⟨wakes_pending ?_ halted, by rw [exc, Bool.true_or]⟩
        simp only [ExCyc.syncTrapReq, aligned, Bool.or_false, Bool.and_eq_true, Bool.not_eq_true'] at sync
        exact sync.1.1.2
      · rw [show o.cpu.lsu.core.ex.wfiHalt = false from own.awake] at halted
        cases halted
    · intro _
      rcases why with ⟨-, -, is⟩ | ⟨-, -, own, -⟩
      · have exc : o.cpu.de.exception = true := is.exception
        simp [DeT.yields, exc]
      · have mem : o.cpu.de.isMemOp = true := own.mem.elim (fun is => is.isMemOp) fun is => is.isMemOp
        simp [DeT.yields, mem]
  | commit k valid is nonexc state awake stall sync int mret commit wb csr train bus memory settles halt =>
    right
    have r : o.cpu.Retires p m i k := ⟨valid, is, nonexc, state, sync, int, mret, commit, wb, csr, bus, memory⟩
    refine att.instr_step tame valid settles (halt.trans is.isWfiOp.symm) (att.performs r) (att.shows_retired tame r)
      ?_ (retires_gives valid is nonexc state int sync mret commit)
    intro sleeps
    have halted := att.asleep.trans sleeps
    rcases awake with awake | rfl
    · rw [show o.cpu.lsu.core.ex.wfiHalt = false from awake] at halted
      cases halted
    · have returns : (o.cpu.exec p m i).mretReq = true := mret
      have isMret : o.cpu.de.isMretOp = true := is.isMretOp
      refine ⟨wakes_pending ?_ halted, by rw [isMret, Bool.or_true]⟩
      simp only [ExCyc.mretReq, Bool.and_eq_true, Bool.not_eq_true'] at returns
      exact returns.1.1.2

theorem attending_start {boot : Word} (even : boot.getLsbD 0 = false) (s : Cpu) :
    (start boot s).Attending p m s.fetch.ram.mem ⟨.start boot s, false⟩ := by
  refine ⟨rfl, rfl, rfl, rfl, rfl, inv_start even s, ?_, ?_, ?_⟩
  all_goals
    intro state
    cases state

end Ordered

namespace Cpu

/-- The CPU has what the machine has: the registers, the CSRs that wait for the program, the
D-mem, and whether it sleeps. -/
structure Has (s : Cpu) (t : Sleeper) : Prop where
  rf : s.rf = t.arch.rf
  csr : s.csr.regs.untimed = t.arch.csr.untimed
  mem : bytesOf s.lsu.dmem.mem = t.arch.mem
  asleep : s.lsu.core.ex.wfiHalt = t.asleep

/-- Cycle `n` of a run is `Ordered.Tame`. -/
def TameAt (p : Params) (m : DmemParams) (boot : Word) (s : Cpu) (ins : ℕ → CpuIn) (n : ℕ) : Prop :=
  (Clocked.run (Ordered.next p m) (.start boot s) ins n).Tame p m s.fetch.ram.mem (ins n)

instance (p : Params) (m : DmemParams) (boot : Word) (s : Cpu) (ins : ℕ → CpuIn) (n : ℕ) :
    Decidable (TameAt p m boot s ins n) :=
  inferInstanceAs (Decidable (Ordered.Tame p m _ _ _))

theorem log_ordered {α : Type} (p : Params) (m : DmemParams) (out : Cpu → CpuIn → List α) (boot : Word) (s : Cpu)
    (ins : ℕ → CpuIn) (n : ℕ) :
    Clocked.log (Ordered.next p m) (fun o i => out o.cpu i) (Ordered.start boot s) ins n =
      Clocked.log (next p m) out (s.start boot) ins n := by
  induction n with
  | zero => rfl
  | succ n ih => rw [Clocked.log_succ, Clocked.log_succ, ih, run_ordered]

/-- The pipeline attends the sequential machine, whatever the interrupt lines and the peripheral
port do: what it retires, traps and interrupts is a run of the machine under the values that
came in, with the machine's registers, CSRs, D-mem and sleep behind it, and in any 43 cycles
something shows or the CPU waits, for an interrupt or for the peripheral port. The run returns
to even addresses, sleeps on no second WFI and executes nothing astride the end of the I-mem. -/
theorem pipeline_attends (p : Params) (m : DmemParams) (boot : Word) (even : boot.getLsbD 0 = false) (s : Cpu)
    (ins : ℕ → CpuIn) (n : ℕ) (tame : ∀ k < n, TameAt p m boot s ins k) :
    let c := Clocked.run (next p m) (s.start boot) ins
    (∃ t, Clocked.Turns (Turn p m s.fetch.ram.mem) ⟨.start boot s, false⟩
        (Clocked.log (next p m) (turns p m) (s.start boot) ins n) t ∧ (c n).Has t) ∧
      ∀ j, j + 43 ≤ n → ∃ k < 43, (c (j + k)).turns p m (ins (j + k)) ≠ [] ∨ (c (j + k)).waits p m (ins (j + k)) = true := by
  intro c
  have attends := Ordered.attends p m s.fetch.ram.mem
  have start := Ordered.attending_start (p := p) (m := m) even s
  refine ⟨?_, fun j window => ?_⟩
  · obtain ⟨t, turns, att⟩ := attends.run start n tame
    rw [log_ordered] at turns
    have cpu : (Clocked.run (Ordered.next p m) (.start boot s) ins n).cpu = c n := run_ordered boot s ins n
    exact ⟨t, turns, cpu ▸ att.rf, cpu ▸ att.csr, cpu ▸ att.mem, cpu ▸ att.asleep⟩
  · obtain ⟨k, hk, stirs⟩ := attends.prompt start j fun l hl => tame l (by omega)
    have cpu : (Clocked.run (Ordered.next p m) (.start boot s) ins (j + k)).cpu = c (j + k) :=
      run_ordered boot s ins (j + k)
    rw [cpu] at stirs
    exact ⟨k, hk, stirs⟩

/-- `csrsi mie, 8`, `csrsi mstatus, 8`, a load from the timer, and a WFI. -/
def handled : Cpu := ofWords [0x30446073#32, 0x30046073#32, 0x100010B7#32, 0x0000A103#32, 0x10500073#32]

/-- The peripheral port always answers, and the software-interrupt line rises in cycle 14. -/
def answering (n : ℕ) : CpuIn where
  lines := { msip := decide (14 ≤ n), mtip := false, meip := false }
  periRsp := { wready := true, rvalid := true, rdata := 7 }

theorem pipeline_attends_handled :
    ∃ t, Clocked.Turns (Turn .board .board handled.fetch.ram.mem) ⟨.start 0 handled, false⟩
        (Clocked.log (next .board .board) (turns .board .board) (handled.start 0) answering 18) t ∧
      (Clocked.run (next .board .board) (handled.start 0) answering 18).Has t :=
  (pipeline_attends .board .board 0 rfl handled answering 18 (by decide +kernel)).1

end Cpu

end YarvUc
