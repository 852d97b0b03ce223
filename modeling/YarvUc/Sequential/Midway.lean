import YarvUc.Execute.MultiCycle
import YarvUc.Pipeline.CsrAccess

/-!
# Instructions of several cycles

A run without interrupts, sleep and peripherals: what the registers between two stages of a
CSR access, a division or a load hold of the instruction in D/E, and that the lines of `mip`
stay low.
-/

namespace YarvUc

/-! ## The CSRs without the counters -/

/-- `mcycle` or `minstret`. -/
def CounterAddr (a : BitVec 12) : Prop := a = CSR_ADDR_MCYCLE ∨ a = CSR_ADDR_MINSTRET

instance (a : BitVec 12) : Decidable (CounterAddr a) := inferInstanceAs (Decidable (_ ∨ _))

namespace CsrRegs

/-- All but the counters. -/
def uncounted (r : CsrRegs) : CsrRegs := { r with mcycle := 0, minstret := 0 }

/-- No machine interrupt is pending. -/
structure LinesLow (r : CsrRegs) : Prop where
  msip : r.mip.getLsbD 3 = false
  mtip : r.mip.getLsbD 7 = false
  meip : r.mip.getLsbD 11 = false

variable {r r' : CsrRegs} {i : CsrIn} {a : BitVec 12}

theorem read_uncounted (other : ¬ CounterAddr a) : r.uncounted.read a = r.read a := by
  obtain ⟨cycle, instret⟩ := not_or.mp other
  simp only [read, uncounted, if_neg cycle, if_neg instret]

theorem read_of_uncounted (other : ¬ CounterAddr a) (same : r.uncounted = r'.uncounted) : r.read a = r'.read a := by
  rw [← read_uncounted other, same, read_uncounted other]

theorem intPending_low (low : r.LinesLow) : r.intPending = false := by
  simp only [intPending, meiPending, msiPending, mtiPending, low.msip, low.mtip, low.meip, Bool.false_and, Bool.or_self,
    Bool.and_false]

/-- The lines' bits of `mip`. -/
theorem mipNext_lines (old : Word) (l : IrqLines) (wr : Option Word) :
    (mipNext old l wr).getLsbD 3 = l.msip ∧ (mipNext old l wr).getLsbD 7 = l.mtip ∧
      (mipNext old l wr).getLsbD 11 = l.meip := by
  have bit : ∀ b : Bool, (BitVec.ofBool b).getLsbD 0 = b := by decide
  refine ⟨?_, ?_, ?_⟩ <;> simp only [mipNext, BitVec.getLsbD_append] <;> exact bit _

theorem LinesLow.next (msip : i.lines.msip = false) (mtip : i.lines.mtip = false) (meip : i.lines.meip = false) :
    (r.next i).LinesLow := by
  obtain ⟨bit3, bit7, bit11⟩ := mipNext_lines r.mip i.lines
    (if i.csrWren && i.csrAddr == CSR_ADDR_MIP then some i.csrData else none)
  exact ⟨bit3.trans msip, bit7.trans mtip, bit11.trans meip⟩

/-- With the lines low, and low before, `mip` keeps its value. -/
theorem mipNext_low (low : r.LinesLow) :
    mipNext r.mip { msip := false, mtip := false, meip := false } none = r.mip := by
  apply BitVec.eq_of_getLsbD_eq
  intro k hk
  have cases : k < 3 ∨ k = 3 ∨ 3 < k ∧ k < 7 ∨ k = 7 ∨ 7 < k ∧ k < 11 ∨ k = 11 ∨ 11 < k := by omega
  simp only [mipNext, Option.getD_none, BitVec.getLsbD_append, BitVec.getLsbD_extractLsb, BitVec.ofBool_false]
  rcases cases with h | rfl | ⟨h, h'⟩ | rfl | ⟨h, h'⟩ | rfl | h
  · simp [h]
  · simpa using low.msip.symm
  · have : ¬ k < 3 := by omega
    have next : k - 3 ≠ 0 := by omega
    simp [this, next, show k - 3 - 1 < 3 by omega, show 4 + (k - 3 - 1) = k by omega]
  · simpa using low.mtip.symm
  · have h1 : ¬ k - 3 - 1 < 3 := by omega
    have h2 : k - 3 - 1 - 3 ≠ 0 := by omega
    simp [show ¬ k < 3 by omega, show k - 3 ≠ 0 by omega, h1, h2, show k - 3 - 1 - 3 - 1 < 3 by omega,
      show 8 + (k - 3 - 1 - 3 - 1) = k by omega]
  · simpa using low.meip.symm
  · simp [show ¬ k < 3 by omega, show k - 3 ≠ 0 by omega, show ¬ k - 3 - 1 < 3 by omega,
      show k - 3 - 1 - 3 ≠ 0 by omega, show ¬ k - 3 - 1 - 3 - 1 < 3 by omega,
      show k - 3 - 1 - 3 - 1 - 3 ≠ 0 by omega, show k - 3 - 1 - 3 - 1 - 3 - 1 < 20 by omega,
      show 12 + (k - 3 - 1 - 3 - 1 - 3 - 1) = k by omega]

theorem uncounted_quiet (off : i.trap.Off) (quiet : i.csrWren = false)
    (lines : i.lines = { msip := false, mtip := false, meip := false }) (low : r.LinesLow) :
    (r.next i).uncounted = r.uncounted := by
  simp [uncounted, CsrRegs.next, off.mepc, off.mcause, off.mtval, off.mstatus, quiet, lines, mipNext_low low]

end CsrRegs

/-! ## One cycle of execute -/

namespace ExCyc

variable {e : ExCyc}

/-- Without a request on the peripheral port only the D-mem is accessed. -/
theorem accepted_dmem (quiet : e.periReq.wvalid = false) {a : Access} (one : a ∈ e.accepted) : a.peri = false := by
  simp only [accepted, quiet, Bool.false_and, Bool.false_eq_true, if_false, List.append_nil] at one
  split at one
  · rw [List.mem_singleton] at one
    rw [one]
    rfl
  · cases one

end ExCyc

/-! ## In the CPU -/

namespace Cpu

/-- A cycle without interrupt lines, a WFI, a peripheral access, a counter access and an odd
write to `mepc`. -/
structure Plain (p : Params) (m : DmemParams) (s : Cpu) (i : CpuIn) : Prop where
  msip : i.lines.msip = false
  mtip : i.lines.mtip = false
  meip : i.lines.meip = false
  wfi : (s.exec p m i).wfiRetire = false
  peri : (s.exec p m i).periReq.wvalid = false
  counter : (s.exec p m i).csrOpValid = true → ¬ CounterAddr s.de.csrAddr
  mepc : (s.exec p m i).csrWe = true → s.de.csrAddr = CSR_ADDR_MEPC → (s.exec p m i).csrNew.getLsbD 0 = false

instance (p : Params) (m : DmemParams) (s : Cpu) (i : CpuIn) : Decidable (s.Plain p m i) :=
  decidable_of_iff
    (i.lines.msip = false ∧ i.lines.mtip = false ∧ i.lines.meip = false ∧ (s.exec p m i).wfiRetire = false ∧
      (s.exec p m i).periReq.wvalid = false ∧ ((s.exec p m i).csrOpValid = true → ¬ CounterAddr s.de.csrAddr) ∧
      ((s.exec p m i).csrWe = true → s.de.csrAddr = CSR_ADDR_MEPC → (s.exec p m i).csrNew.getLsbD 0 = false))
    ⟨fun ⟨msip, mtip, meip, wfi, peri, counter, mepc⟩ => ⟨msip, mtip, meip, wfi, peri, counter, mepc⟩,
      fun h => ⟨h.msip, h.mtip, h.meip, h.wfi, h.peri, h.counter, h.mepc⟩⟩

/-- What the instruction in D/E has so far: a CSR's value, some steps of a division, a
request on the D-mem's port. -/
structure Midway (s : Cpu) : Prop where
  low : s.csr.regs.LinesLow
  awake : s.lsu.core.ex.wfiHalt = false
  csr : s.lsu.core.ex.state = .CSR_WAIT → ¬ CounterAddr s.de.csrAddr →
    s.csr.csrRdataQ = s.csr.regs.read s.de.csrAddr
  div : s.lsu.core.ex.state = .DIV_BUSY → s.lsu.core.ex.alu.Underway s.de.aluComb
  dmem : s.lsu.core.ex.state = .MEM_WAIT → s.lsu.core.ex.memIsPeri = false

variable {p : Params} {m : DmemParams} {s : Cpu} {i : CpuIn}

theorem Plain.lines (plain : s.Plain p m i) : i.lines = { msip := false, mtip := false, meip := false } := by
  cases lines : i.lines with
  | mk msip mtip meip =>
    have h := plain.msip
    have h' := plain.mtip
    have h'' := plain.meip
    rw [lines] at h h' h''
    simp only at h h' h''
    rw [h, h', h'']

theorem Plain.low_next (plain : s.Plain p m i) : (s.next p m i).csr.regs.LinesLow :=
  CsrRegs.LinesLow.next plain.msip plain.mtip plain.meip

/-- A cycle that retires nothing and enters nothing changes no CSR. -/
theorem Plain.uncounted_quiet (plain : s.Plain p m i) (low : s.csr.regs.LinesLow) (calm : (s.exec p m i).Calm)
    (inert : (s.exec p m i).Inert) : (s.next p m i).csr.regs.uncounted = s.csr.regs.uncounted :=
  CsrRegs.uncounted_quiet (ExCyc.trapWrite_off calm _) (ExCyc.csrWe_off inert.csr) plain.lines low

theorem Plain.awake_next (plain : s.Plain p m i) (awake : s.lsu.core.ex.wfiHalt = false) :
    (s.next p m i).lsu.core.ex.wfiHalt = false := by
  simp [ExCyc.next, plain.wfi, awake]

/-- In the idle state nothing is midway. -/
theorem Midway.idle (plain : s.Plain p m i) (awake : s.lsu.core.ex.wfiHalt = false)
    (settles : (s.exec p m i).Settles) : (s.next p m i).Midway := by
  have idle : (s.next p m i).lsu.core.ex.state = .IDLE := settles.state
  refine ⟨plain.low_next, plain.awake_next awake, ?_, ?_, ?_⟩
  all_goals
    intro other
    rw [idle] at other
    cases other

/-- A word that stays gets further. -/
theorem Midway.hold (mid : s.Midway) (plain : s.Plain p m i) (inv : s.lsu.Inv p m)
    (stall : (s.exec p m i).stallO = true) (calm : (s.exec p m i).Calm)
    (inert : (s.exec p m i).Inert) (phase : Phase p s.de (s.exec p m i).next)
    (bus : (s.exec p m i).accepted = [] ∧
        ((s.exec p m i).next.state = .MEM_WAIT ↔ s.lsu.core.ex.state = .MEM_WAIT) ∨
      ∃ a, (s.exec p m i).accepted = [a] ∧ a.For s.de ∧ s.de.Is .load ∧ s.de.memMisalignedLive = false ∧
        s.lsu.core.ex.state ≠ .MEM_WAIT ∧ (s.exec p m i).next.state = .MEM_WAIT) : (s.next p m i).Midway := by
  have same : (s.next p m i).de = s.de := Core.de_stall (ExCyc.flush_calm calm inert.train) stall
  refine ⟨plain.low_next, plain.awake_next mid.awake, fun wait other => ?_, fun busy => ?_, fun wait => ?_⟩
  · rw [same] at other ⊢
    exact CsrRegs.read_of_uncounted other (plain.uncounted_quiet mid.low calm inert).symm
  · rw [same]
    exact ExCyc.underway_next (e := s.exec p m i) inv.core mid.div busy
  · have after : (s.exec p m i).next.state = .MEM_WAIT := wait
    rcases bus with ⟨-, before⟩ | ⟨a, one, mine, -⟩
    · have was := before.mp after
      have pending : (s.exec p m i).memReqPending = false := by simp [ExCyc.memReqPending, ExCyc.inState, was]
      have kept : (s.next p m i).lsu.core.ex.memIsPeri = s.lsu.core.ex.memIsPeri := by
        simp [ExCyc.next, pending]
      rw [kept]
      exact mid.dmem was
    · have port : (s.exec p m i).next.memIsPeri = s.de.isPeriLive := (phase.captured after).peri
      have dmem := ExCyc.accepted_dmem plain.peri (a := a) (by rw [one]; exact List.mem_singleton_self a)
      rw [show (s.next p m i).lsu.core.ex.memIsPeri = (s.exec p m i).next.memIsPeri from rfl, port, ← mine.peri]
      exact dmem

theorem Midway.next (mid : s.Midway) (plain : s.Plain p m i) (inv : s.lsu.Inv p m) : (s.next p m i).Midway := by
  cases (show (s.exec p m i).Outcome from inv.core.outcome) with
  | bubble _ _ _ _ _ _ _ settles => exact .idle plain mid.awake settles
  | asleep _ _ _ _ _ _ _ settles => exact .idle plain mid.awake settles
  | trap _ _ _ _ _ _ _ settles => exact .idle plain mid.awake settles
  | interrupt _ _ _ _ _ _ _ _ _ settles => exact .idle plain mid.awake settles
  | commit _ _ _ _ _ _ _ _ _ _ _ _ _ _ _ _ settles => exact .idle plain mid.awake settles
  | hold valid awake stall calm inert phase bus halt => exact mid.hold plain inv stall calm inert phase bus

theorem midway_start (boot : Word) (s : Cpu) : (s.start boot).Midway := by
  refine ⟨⟨BitVec.getLsbD_zero, BitVec.getLsbD_zero, BitVec.getLsbD_zero⟩, rfl, ?_, ?_, ?_⟩
  all_goals
    intro state
    cases state

end Cpu

end YarvUc
