import YarvUc.Execute.PeriPort
import YarvUc.Sequential.Refinement

/-!
# Instructions that need the CPU alone

`Cpu.Plain` speaks of a cycle. Where the instruction at the machine's PC is no WFI, no access of
the peripherals or a counter and writes no odd `mepc`, every cycle of it is plain while the
interrupt lines are low.
-/

namespace YarvUc

/-- The D/E word needs no device and no clock. -/
structure DeT.Alone (de : DeT) (r : CsrRegs) : Prop where
  wfi : de.exception = false → de.isWfiOp = false
  port : de.exception = false → de.isMemOp = true → de.isPeriLive = false
  counter : de.csrWren = true → ¬ CounterAddr de.csrAddr
  mepc : de.csrWren = true → de.csrAddr = CSR_ADDR_MEPC →
    ∀ v, de.csrWrite (r.read CSR_ADDR_MEPC) = some v → v.getLsbD 0 = false

/-- The interrupt lines are low. -/
def CpuIn.Low (i : CpuIn) : Prop := i.lines.msip = false ∧ i.lines.mtip = false ∧ i.lines.meip = false

instance (i : CpuIn) : Decidable i.Low := inferInstanceAs (Decidable (_ ∧ _))

namespace Cpu

variable {p : Params} {m : DmemParams} {image : ℕ → BitVec 64} {s : Cpu} {a : Arch} {i : CpuIn}

/-- A WFI goes to sleep when it does not trap. -/
theorem Follows.wfiRetire (follows : s.Follows p m image a)
    (wfi : s.de.valid = true → s.de.exception = false → s.de.isWfiOp = false) : (s.exec p m i).wfiRetire = false := by
  cases sleeps : (s.exec p m i).wfiRetire with
  | false => rfl
  | true =>
    simp only [ExCyc.wfiRetire, Bool.and_eq_true, Bool.not_eq_true'] at sleeps
    obtain ⟨⟨⟨⟨valid, idle⟩, is⟩, stays⟩, stall⟩ := sleeps
    have awake : s.lsu.core.ex.wfiHalt = false := follows.mid.awake
    have runs : (s.exec p m i).freeze = false := by simp [ExCyc.freeze, ExCyc.wfiStall, stall, awake]
    cases exc : s.de.exception with
    | false =>
      have other := wfi valid exc
      rw [exec_de, other] at is
      cases is
    | true =>
      have traps : (s.exec p m i).syncTrapReq = true := by
        simp [ExCyc.syncTrapReq, exec_de, exc, runs, idle, show s.de.valid = true from valid]
      rw [ExCyc.trapRedirectReq, traps] at stays
      cases stays

/-- Only a captured access of the peripherals is driven there. -/
theorem Follows.periReq (follows : s.Follows p m image a)
    (port : s.de.valid = true → s.de.exception = false → s.de.isMemOp = true → s.de.isPeriLive = false) :
    (s.exec p m i).periReq.wvalid = false := by
  by_cases launch : s.lsu.core.ex.state = .MEM_LAUNCH
  · have own : Captured s.de s.lsu.core.ex := Phase.launched follows.order.lsu.core launch
    have is := DeT.accesses own.mem
    have dmem : (s.exec p m i).isPeriRsp = false := own.peri.trans (port own.valid is.exception is.isMemOp)
    simp [ExCyc.periReq, dmem]
  · exact ExCyc.periReq_other launch

/-- A CSR instruction retires with the CSR's value. -/
theorem Follows.csrRdata (follows : s.Follows p m image a) (access : (s.exec p m i).csrOpValid = true)
    (other : ¬ CounterAddr s.de.csrAddr) : (s.exec p m i).csrRdata = a.csr.read s.de.csrAddr := by
  have retires : s.lsu.core.ex.state = .CSR_WAIT := by
    cases (show (s.exec p m i).Outcome from follows.order.lsu.core.outcome) with
    | commit k valid is nonexc state awake stall sync int mret commit wb csr =>
      have kind : k = .csr := by
        rw [csr] at access
        cases k <;> first | rfl | cases access
      rw [kind] at state
      exact state
    | bubble valid awake idle stall calm inert => rw [inert.csr] at access; cases access
    | hold valid awake stall calm inert => rw [inert.csr] at access; cases access
    | asleep halted quiet idle stall calm inert => rw [inert.csr] at access; cases access
    | interrupt idle pending why nonexc sync mret int inert => rw [inert.csr] at access; cases access
    | trap valid why sync mret int inert => rw [inert.csr] at access; cases access
  exact (follows.mid.csr retires other).trans (CsrRegs.read_of_uncounted other follows.agrees.csr)

/-- A cycle of an instruction that needs the CPU alone. -/
theorem Follows.plain (follows : s.Follows p m image a) (alone : (a.word p image).Alone a.csr) (low : i.Low) :
    s.Plain p m i := by
  have mine : s.de.valid = true → s.de.base.Alone a.csr := fun valid => follows.word valid ▸ alone
  have accesses : (s.exec p m i).csrOpValid = true → s.de.base.Alone a.csr ∧ s.de.csrWren = true := by
    intro access
    simp only [ExCyc.csrOpValid, Bool.and_eq_true] at access
    exact ⟨mine access.1.1.1.1, access.1.1.1.2⟩
  have counter : (s.exec p m i).csrOpValid = true → ¬ CounterAddr s.de.csrAddr := fun access =>
    (accesses access).1.counter (accesses access).2
  refine ⟨low.1, low.2.1, low.2.2, follows.wfiRetire fun valid => (mine valid).wfi,
    follows.periReq fun valid => (mine valid).port, counter, fun we addr => ?_⟩
  have access : (s.exec p m i).csrOpValid = true := by
    rw [← Bool.not_eq_false]
    intro off
    rw [ExCyc.csrWe_off off] at we
    cases we
  have rdata := follows.csrRdata access (counter access)
  rw [ExCyc.csrWe_eq access, rdata, exec_de, Option.isSome_iff_exists] at we
  obtain ⟨v, write⟩ := we
  rw [ExCyc.csrNew_eq (v := v) (by rw [rdata, exec_de, write])]
  refine (accesses access).1.mepc (accesses access).2 addr v ?_
  rw [addr] at write
  exact write

end Cpu

end YarvUc
