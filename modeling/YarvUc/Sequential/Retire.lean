import YarvUc.Sequential.Cycle

/-!
# Retirements and traps perform the effect

Per class of instruction: the value written back, the CSR written and the request accepted
in the cycle of a retirement are those of `DeT.effect`, and a trap's cause and `mtval` are
those of `DeT.fault`.
-/

namespace YarvUc

namespace DeT

variable {p : Params} {m : DmemParams} {peri : PeriMem} {a : Arch} {de : DeT} {k : OpKind}

theorem fault_exc (exc : de.exception = true) : de.fault = some (de.exceptionCause, de.exceptionTval) := by
  simp [fault, exc]

theorem fault_none (nonexc : de.exception = false) (aligned : de.isMemOp = true → de.memMisalignedLive = false) :
    de.fault = none := by
  rw [fault, nonexc, if_neg Bool.false_ne_true]
  cases mem : de.isMemOp with
  | false => rfl
  | true => simp [aligned mem]

theorem fault_misaligned (nonexc : de.exception = false) (mem : de.isMemOp = true)
    (misaligned : de.memMisalignedLive = true) :
    de.fault = some (if de.memWrite then MCAUSE_SAD_MIS else MCAUSE_LAD_MIS, de.lsuEa) := by
  simp [fault, nonexc, mem, misaligned]

theorem effect_trap {cause tval : Word} (faults : de.fault = some (cause, tval)) :
    de.effect p m peri a = .trap cause tval := by
  rw [effect, faults]

theorem effect_mret (clean : de.fault = none) (mret : de.isMretOp = true) : de.effect p m peri a = .mret := by
  rw [effect, clean]
  simp [mret]

theorem effect_retire (clean : de.fault = none) (mret : de.isMretOp = false) :
    de.effect p m peri a = .retire de.nextPc
      (if de.regWrite && de.rd != 0 then some (de.rd, de.value p m peri a) else none)
      ((de.csrWrite (a.csr.read de.csrAddr)).map fun v => (de.csrAddr, v))
      (if de.memWrite then some ⟨de.lsuEa, de.memSize, de.rs2Data⟩ else none) := by
  rw [effect, clean]
  simp [mret]

/-- Only CSR instructions write CSRs. -/
theorem Is.csrWrite_none (is : de.Is k) (other : k.flags.csrOp = false) (old : Word) : de.csrWrite old = none := by
  have none : de.csrOp = .NONE := by simpa [other] using is.csrOp
  simp [csrWrite, none]

end DeT

/-! ## A cycle that retires -/

namespace ExCyc

/-- What `Outcome.commit` says of a cycle that retires an instruction of class `k`. -/
structure Retires (e : ExCyc) (k : OpKind) : Prop where
  valid : e.de.valid = true
  is : e.de.Is k
  nonexc : k ≠ .exc
  state : e.q.state = k.retiresFrom
  sync : e.syncTrapReq = false
  mret : e.mretReq = k.flags.mret
  commit : e.opCommits = true
  wb : e.wbEn = k.flags.regWrite
  csr : e.csrOpValid = k.flags.csrWren
  bus : k = .store ∧ (∃ a, e.accepted = [a] ∧ a.For e.de) ∨ k ≠ .store ∧ e.accepted = []
  memory : k = .load ∨ k = .store → Captured e.de e.q ∧ e.de.memMisalignedLive = false

namespace Retires

variable {e : ExCyc} {k : OpKind}

theorem clean (r : e.Retires k) : e.de.fault = none := by
  refine DeT.fault_none (r.is.nonexc r.nonexc) fun mem => ?_
  have kind : k = .load ∨ k = .store := by
    rw [r.is.isMemOp] at mem
    cases k <;> simp_all [OpKind.flags]
  exact (r.memory kind).2

/-- A retirement that is no mret has its result. -/
theorem ready (r : e.Retires k) (plain : k.flags.mret = false) : e.resultReady = true := by
  have commit := r.commit
  rw [opCommits, r.mret, plain, Bool.false_or] at commit
  simp only [Bool.and_eq_true] at commit
  exact commit.1.2

/-- A load retires with its data. -/
theorem rvalid (r : e.Retires .load) : e.lsuRspWait.rvalid = true := by
  have ready := r.ready rfl
  simpa [resultReady, r.is.isMemOp, OpKind.flags, memOpDone, r.is.memRead, memDone, inState, r.state,
    OpKind.retiresFrom] using ready

/-- The value written back: the ALU's, a link, or what the divider, the bus and the CSR file deliver. -/
theorem wbData (r : e.Retires k) (writes : k.flags.regWrite = true) {loaded csr : Word}
    (div : k = .div → e.q.alu.Underway e.de.aluComb)
    (load : k = .load → e.de.loadData e.lsuRspWait.rdata e.q.memAddr = loaded)
    (read : k = .csr → e.csrRdata = csr) :
    e.wbData =
      match e.de.wbSrc with
      | .ALU => e.de.aluValue e.p
      | .MEM => loaded
      | .PC4 => e.de.pcLink
      | .CSR => csr := by
  have src : e.de.wbSrc = k.flags.wb := r.is.wbSrc writes
  have notDiv : e.de.isDivOp = k.flags.div := r.is.isDivOp
  rw [ExCyc.wbData, wbEarly, src]
  cases k with
  | load => exact load rfl
  | csr => exact read rfl
  | div =>
    have isDiv : e.de.aluComb.isDivOp = true := notDiv
    have ready := r.ready rfl
    rw [resultReady, r.is.isMemOp, r.is.isCsrOp] at ready
    simp only [OpKind.flags, if_true, DeT.aluValue, notDiv]
    exact (div rfl).result isDiv ready _
  | jump => rfl
  | alu =>
    simp only [OpKind.flags, if_true, DeT.aluValue, notDiv]
    exact AluQ.result_reset (show e.de.aluComb.isDivOp = false from notDiv) _
  | exc | store | cond | wfi | mret | nop => cases writes

end Retires

end ExCyc

/-- The instruction at the PC lies in the I-mem. -/
def Fetched.inside : Fetched → Bool
  | .instr .. => true
  | .fault _ => false

def Arch.Inside (p : Params) (image : ℕ → BitVec 64) (a : Arch) : Prop :=
  (fetchAt p.imemAddrW image a.pc).inside = true

instance (p : Params) (image : ℕ → BitVec 64) (a : Arch) : Decidable (a.Inside p image) :=
  inferInstanceAs (Decidable (_ = _))

namespace Cpu

variable {p : Params} {m : DmemParams} {image : ℕ → BitVec 64} {peri : PeriMem} {s : Cpu} {i : CpuIn} {a : Arch}
  {k : OpKind}

theorem Follows.pc_de (follows : s.Follows p m image a) (valid : s.de.valid = true) (inside : a.Inside p image) :
    s.de.pc = a.pc := by
  have word := follows.order.word valid
  have pc : s.de.pc = s.de.base.pc := rfl
  rw [pc, word]
  cases fetched : fetchAt p.imemAddrW image a.pc with
  | fault t =>
    rw [Arch.Inside, fetched] at inside
    cases inside
  | instr pc w c =>
    obtain rfl := pc_fetchAt fetched
    rfl

/-! ## Retirements -/

/-- What `Outcome.commit` says of a cycle that retires an instruction of class `k`. -/
structure Retires (p : Params) (m : DmemParams) (s : Cpu) (i : CpuIn) (k : OpKind) : Prop where
  valid : s.de.valid = true
  is : s.de.Is k
  nonexc : k ≠ .exc
  state : s.lsu.core.ex.state = k.retiresFrom
  sync : (s.exec p m i).syncTrapReq = false
  int : (s.exec p m i).takeInterrupt = false
  mret : (s.exec p m i).mretReq = k.flags.mret
  commit : (s.exec p m i).opCommits = true
  wb : (s.exec p m i).wbEn = k.flags.regWrite
  csr : (s.exec p m i).csrOpValid = k.flags.csrWren
  bus : k = .store ∧ (∃ x, (s.exec p m i).accepted = [x] ∧ x.For s.de) ∨ k ≠ .store ∧ (s.exec p m i).accepted = []
  memory : k = .load ∨ k = .store → Captured s.de s.lsu.core.ex ∧ s.de.memMisalignedLive = false

namespace Retires

theorem exec (r : s.Retires p m i k) : (s.exec p m i).Retires k :=
  ⟨r.valid, r.is, r.nonexc, r.state, r.sync, r.mret, r.commit, r.wb, r.csr, r.bus, r.memory⟩

theorem clean (r : s.Retires p m i k) : s.de.fault = none := r.exec.clean

/-- A load was not captured for the peripherals. -/
theorem value_load (r : s.Retires p m i .load) (follows : s.Follows p m image a) (peri : PeriMem) :
    s.de.loadData (s.exec p m i).lsuRspWait.rdata s.lsu.core.ex.memAddr = s.de.loaded m peri a := by
  obtain ⟨own, aligned⟩ := r.memory (.inl rfl)
  have ea : s.de.lsuEa = s.de.effAddr := DeT.lsuEa_eq r.is r.is.isMemOp
  have port : s.de.isPeriLive = false := own.peri.symm.trans (follows.mid.dmem r.state)
  have dmem : s.de.effAddr.getLsbD PERI_ADDR_BIT = false := by
    rw [← ea]
    exact port
  have wb := (follows.order.lsu.wbData_load (i := s.coreIn i) r.commit r.is.memRead dmem).2
  have src : s.de.wbSrc = .MEM := r.is.wbSrc rfl
  have data : (s.exec p m i).wbData = s.de.loadData (s.exec p m i).lsuRspWait.rdata s.lsu.core.ex.memAddr := by
    rw [ExCyc.wbData, ExCyc.wbEarly, exec_de, src]
    rfl
  rw [← data, DeT.loaded, port, if_neg Bool.false_ne_true, ← follows.agrees.mem, ea]
  exact wb

theorem value_csr (r : s.Retires p m i .csr) (follows : s.Follows p m image a) (plain : s.Plain p m i) :
    (s.exec p m i).csrRdata = a.csr.read s.de.csrAddr := by
  have other := plain.counter r.csr
  exact (follows.mid.csr r.state other).trans (CsrRegs.read_of_uncounted other follows.agrees.csr)

theorem value (r : s.Retires p m i k) (follows : s.Follows p m image a) (plain : s.Plain p m i)
    (writes : k.flags.regWrite = true) (peri : PeriMem) : (s.exec p m i).wbData = s.de.value p m peri a := by
  refine r.exec.wbData writes ?_ ?_ ?_
  · rintro rfl
    exact follows.mid.div r.state
  · rintro rfl
    exact r.value_load follows peri
  · rintro rfl
    exact r.value_csr follows plain

theorem gpr (r : s.Retires p m i k) (follows : s.Follows p m image a) (plain : s.Plain p m i) (peri : PeriMem) :
    s.gprWrite p m i = if s.de.regWrite && s.de.rd != 0 then some (s.de.rd, s.de.value p m peri a) else none := by
  have enable : (s.exec p m i).wbEn = s.de.regWrite := r.wb.trans r.is.regWrite.symm
  rw [gprWrite, enable]
  cases writes : s.de.regWrite with
  | false => rfl
  | true => rw [r.value follows plain (r.is.regWrite.symm.trans writes) peri]

theorem csrWrite (r : s.Retires p m i k) (follows : s.Follows p m image a) (plain : s.Plain p m i) :
    s.csrWrite p m i = (s.de.csrWrite (a.csr.read s.de.csrAddr)).map fun v => (s.de.csrAddr, v) := by
  by_cases csr : k = .csr
  · subst csr
    have rdata := r.value_csr follows plain
    have we := ExCyc.csrWe_eq r.csr
    rw [rdata] at we
    rw [Cpu.csrWrite, we]
    cases write : s.de.csrWrite (a.csr.read s.de.csrAddr) with
    | none =>
      rw [exec_de, write]
      rfl
    | some v =>
      have new := ExCyc.csrNew_eq (e := s.exec p m i) (v := v) (by rw [rdata, exec_de, write])
      rw [exec_de, write, new]
      rfl
  · have off : (s.exec p m i).csrOpValid = false := by
      rw [r.csr]
      cases k <;> first | rfl | exact absurd rfl csr
    have none : k.flags.csrOp = false := by cases k <;> first | rfl | exact absurd rfl csr
    rw [r.is.csrWrite_none none, Cpu.csrWrite, ExCyc.csrWe_off off]
    rfl

theorem dmemWrite (r : s.Retires p m i k) (plain : s.Plain p m i) :
    s.dmemWrite p m i = if s.de.memWrite then some s.de.storeAccess else none := by
  rw [Cpu.dmemWrite]
  rcases r.bus with ⟨rfl, x, one, mine⟩ | ⟨other, none⟩
  · have write : s.de.memWrite = true := r.is.memWrite
    have dmem := ExCyc.accepted_dmem plain.peri (a := x) (by rw [one]; exact List.mem_singleton_self x)
    have we : x.we = true := mine.we.trans write
    obtain ⟨wdata, wstrb⟩ := mine.lanes write
    have same : x = s.de.storeAccess := by
      cases x
      simp only at *
      rw [DeT.storeAccess, ← mine.peri, ← mine.addr, ← wdata, ← wstrb, we]
    rw [one, write, ← same]
    simp [we, dmem]
  · have read : s.de.memWrite = false := by
      rw [r.is.memWrite]
      cases k <;> first | rfl | exact absurd rfl other
    rw [none, read]
    rfl

theorem bytes (r : s.Retires p m i k) (follows : s.Follows p m image a) :
    bytesOf (s.next p m i).lsu.dmem.mem =
      a.mem.after m (if s.de.memWrite then some ⟨s.de.lsuEa, s.de.memSize, s.de.rs2Data⟩ else none) := by
  have next : bytesOf (s.next p m i).lsu.dmem.mem = _ := follows.order.lsu.bytes_next (i := s.coreIn i)
  rw [next, Lsu.storesOf_events, Lsu.ending_commit r.commit r.valid r.sync r.int, follows.agrees.mem]
  simp only [Lsu.storesOf, List.foldl_cons, List.foldl_nil, Lsu.retire]
  cases write : s.de.memWrite with
  | false =>
    rw [show s.lsu.core.dec.de.memWrite = false from write]
    rfl
  | true =>
    have mem : s.de.isMemOp = true := by rw [DeT.isMemOp, write, Bool.or_true]
    rw [show s.lsu.core.dec.de.memWrite = true from write, if_pos rfl, DeT.lsuEa_eq r.is mem, ByteMem.after]
    change (if (true && !s.de.effAddr.getLsbD PERI_ADDR_BIT) = true then _ else _) = _
    cases s.de.effAddr.getLsbD PERI_ADDR_BIT <;> rfl

/-- The instruction's successor is the new oldest address, an mret's is `mepc`. -/
theorem pcNext (r : s.Retires p m i k) :
    s.pcNext p m i a.pc = if k.flags.mret then s.csr.regs.mepc else s.de.nextPc := by
  have redirect : (s.exec p m i).trapRedirectReq = k.flags.mret := by
    simp [ExCyc.trapRedirectReq, r.sync, r.int, r.mret]
  rw [Cpu.pcNext, redirect, r.commit]
  cases mret : k.flags.mret with
  | false => rfl
  | true =>
    have asks : (s.exec p m i).trapIn.mret = true := r.mret.trans mret
    rw [if_pos rfl, if_pos rfl, trapRedirectAddr, TrapIn.redirectAddr, if_pos asks]

theorem trapIn (r : s.Retires p m i k) {e : Effect} {pc : Word} (none : (e.trapIn pc).takeTrap = false)
    (quiet : (e.trapIn pc).takeInterrupt = false) (mret : (e.trapIn pc).mret = k.flags.mret) :
    (s.exec p m i).trapIn.Same (e.trapIn pc) := by
  have noEntry : (s.exec p m i).trapIn.entry = true → False := by
    simp [ExCyc.trapIn, TrapIn.entry, r.sync, r.int]
  exact ⟨r.sync.trans none.symm, r.int.trans quiet.symm, r.mret.trans mret.symm, fun h => (noEntry h).elim,
    fun h => (noEntry h).elim, fun h => (noEntry h).elim⟩

theorem performs (r : s.Retires p m i k) (follows : s.Follows p m image a) (plain : s.Plain p m i) :
    s.Performs p m i a (s.de.effect p m peri a) := by
  have isMret : s.de.isMretOp = k.flags.mret := r.is.isMretOp
  have gpr := r.gpr follows plain peri
  have csr := r.csrWrite follows plain
  have bytes := r.bytes follows
  cases mret : k.flags.mret with
  | false =>
    rw [DeT.effect_retire r.clean (isMret.trans mret)]
    refine ⟨?_, gpr, csr, bytes, r.trapIn rfl rfl mret.symm⟩
    rw [r.pcNext, mret]
    rfl
  | true =>
    obtain rfl : k = .mret := by cases k <;> first | rfl | cases mret
    have noWrite : s.de.regWrite = false := r.is.regWrite
    have noStore : s.de.memWrite = false := r.is.memWrite
    rw [DeT.effect_mret r.clean isMret]
    refine ⟨?_, ?_, ?_, ?_, r.trapIn rfl rfl rfl⟩
    · rw [r.pcNext]
      exact (CsrRegs.uncounted_eq follows.agrees.csr).2.2.2.2.2.1
    · rw [gpr, noWrite]
      rfl
    · rw [csr, r.is.csrWrite_none rfl]
      rfl
    · rw [bytes, noStore]
      rfl

theorem shows (r : s.Retires p m i k) (follows : s.Follows p m image a) (plain : s.Plain p m i)
    (inside : a.Inside p image) : s.shows p m i = [(s.de.effect p m peri a).event a.pc s.de] := by
  have isMret : s.de.isMretOp = k.flags.mret := r.is.isMretOp
  have does : s.Performs p m i a (s.de.effect p m peri a) := r.performs follows plain
  rw [Cpu.shows, r.commit, if_pos rfl, follows.pc_de r.valid inside, does.gpr, does.csr, r.dmemWrite plain]
  cases mret : k.flags.mret with
  | false =>
    rw [DeT.effect_retire r.clean (isMret.trans mret)]
    simp only [Effect.event, Effect.gpr, Effect.csr]
    cases s.de.memWrite <;> rfl
  | true =>
    obtain rfl : k = .mret := by cases k <;> first | rfl | cases mret
    have noStore : s.de.memWrite = false := r.is.memWrite
    rw [DeT.effect_mret r.clean isMret, noStore]
    rfl

end Retires

end Cpu

end YarvUc
