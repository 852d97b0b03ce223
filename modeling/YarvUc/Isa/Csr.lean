import Mathlib.Tactic.IntervalCases
import YarvUc.Rtl.Csr

/-!
# The machine-mode CSRs as a program knows them

What stands at a CSR address, what a write leaves there, which interrupt is due, and what a trap
entry and an `mret` do, by addresses, bits and masks. The CSR file and the trap unit do just that.
-/

namespace YarvUc

/-- The lines at their places in `mip`. -/
def IrqLines.bits (l : IrqLines) : Word :=
  0#20 ++ BitVec.ofBool l.meip ++ 0#3 ++ BitVec.ofBool l.mtip ++ 0#3 ++ BitVec.ofBool l.msip ++ 0#3

def IrqLines.low : IrqLines := { msip := false, mtip := false, meip := false }

/-- No trap write. -/
structure TrapWrite.Off (t : TrapWrite) : Prop where
  mepc : t.weMepc = false
  mcause : t.weMcause = false
  mtval : t.weMtval = false
  mstatus : t.weMstatus = false

namespace CsrRegs

/-! ## By address -/

/-- The CSRs there are. -/
def table (r : CsrRegs) : List (BitVec 12 × Word) :=
  [(0x300, r.mstatus), (0x301, r.misa), (0x304, r.mie), (0x305, r.mtvec), (0x340, r.mscratch), (0x341, r.mepc),
    (0x342, r.mcause), (0x343, r.mtval), (0x344, r.mip), (0xB00, r.mcycle), (0xB02, r.minstret)]

/-- What a read of an address returns; 0 where no CSR is. -/
def contents (r : CsrRegs) (a : BitVec 12) : Word := (r.table.lookup a).getD 0

/-- A write of `v`. MPP of `mstatus` stays 3, bit 1 of `mtvec` stays 0, `misa` and the lines in
`mip` do not change. -/
def assign (r : CsrRegs) (a : BitVec 12) (v : Word) : CsrRegs where
  mstatus := if a = 0x300#12 then v ||| 0x1800#32 else r.mstatus
  misa := r.misa
  mie := if a = 0x304#12 then v else r.mie
  mtvec := if a = 0x305#12 then v &&& ~~~2#32 else r.mtvec
  mscratch := if a = 0x340#12 then v else r.mscratch
  mepc := if a = 0x341#12 then v else r.mepc
  mcause := if a = 0x342#12 then v else r.mcause
  mtval := if a = 0x343#12 then v else r.mtval
  mip := if a = 0x344#12 then v &&& ~~~0x888#32 ||| r.mip &&& 0x888#32 else r.mip
  mcycle := if a = 0xB00#12 then v else r.mcycle
  minstret := if a = 0xB02#12 then v else r.minstret

/-- A cycle goes by: the lines stand in `mip`, and the counters count it and what it retires. -/
def passed (r : CsrRegs) (l : IrqLines) (retires : Bool) : CsrRegs :=
  { r with mip := r.mip &&& ~~~0x888#32 ||| l.bits, mcycle := r.mcycle + 1,
           minstret := if retires then r.minstret + 1 else r.minstret }

/-! ## Interrupts and handlers -/

/-- An enabled interrupt is pending: the software's, the timer's or the external one. -/
def armed (r : CsrRegs) : Bool := [3, 7, 11].any fun k => r.mip.getLsbD k && r.mie.getLsbD k

/-- An interrupt is due: one is armed, and MIE is set. -/
def due (r : CsrRegs) : Bool := r.mstatus.getLsbD 3 && r.armed

/-- The number of the interrupt that goes first. -/
def firstDue (r : CsrRegs) : ℕ :=
  if r.mip.getLsbD 11 && r.mie.getLsbD 11 then 11 else if r.mip.getLsbD 3 && r.mie.getLsbD 3 then 3 else 7

/-- Its `mcause`. -/
def dueCause (r : CsrRegs) : Word := BitVec.ofNat 32 (2 ^ 31 + r.firstDue)

/-- `mstatus` in a handler: MIE is cleared and kept in MPIE, MPP is 3. -/
def masked (s : Word) : Word := s &&& ~~~0x1888#32 ||| 0x1800#32 ||| if s.getLsbD 3 then 0x80#32 else 0

/-- `mstatus` behind it: MIE is what MPIE was, MPIE is set, MPP is 3. -/
def unmasked (s : Word) : Word := s &&& ~~~0x8#32 ||| 0x1880#32 ||| if s.getLsbD 7 then 0x8#32 else 0

/-- The CSRs in a handler that is entered from `pc`. -/
def enter (r : CsrRegs) (pc cause tval : Word) : CsrRegs :=
  { r with mstatus := masked r.mstatus, mepc := pc, mcause := cause, mtval := tval }

/-- The CSRs behind an `mret`. -/
def leave (r : CsrRegs) : CsrRegs := { r with mstatus := unmasked r.mstatus }

/-- The handler of a trap, and of interrupt `k`, which has its own in the vectored mode. -/
def handler (r : CsrRegs) : Word := r.mtvec &&& ~~~3#32
def vectorOf (r : CsrRegs) (k : ℕ) : Word :=
  if r.mtvec.toNat % 4 = 1 then r.handler + BitVec.ofNat 32 (4 * k) else r.handler

/-! ## The circuit does so -/

variable {r : CsrRegs} {i : CsrIn} {a : BitVec 12}

theorem contents_eq (r : CsrRegs) (a : BitVec 12) : r.contents a = r.read a := by
  have at' : ∀ (k : BitVec 12) (v : Word) (l : List (BitVec 12 × Word)),
      (((k, v) :: l).lookup a).getD 0 = if a = k then v else (l.lookup a).getD 0 := by
    intro k v l
    by_cases h : a = k
    · simp [h]
    · simp [List.lookup_cons, h, beq_false_of_ne h]
  simp only [contents, table, at', List.lookup_nil, Option.getD_none]
  rfl

theorem warlMstatus_eq (v : Word) : warlMstatus v = v ||| 0x1800#32 := by
  apply BitVec.eq_of_getLsbD_eq
  intro k hk
  simp only [warlMstatus, BitVec.getLsbD_append, BitVec.getLsbD_extractLsb]
  interval_cases k <;> simp

theorem warlMtvec_eq (v : Word) : warlMtvec v = v &&& ~~~2#32 := by
  apply BitVec.eq_of_getLsbD_eq
  intro k hk
  simp only [warlMtvec, BitVec.getLsbD_append, BitVec.getLsbD_extractLsb]
  interval_cases k <;> simp

theorem mstatusEntry_eq (r : CsrRegs) : r.mstatusEntry = masked r.mstatus := by
  apply BitVec.eq_of_getLsbD_eq
  intro k hk
  simp only [mstatusEntry, masked, BitVec.getLsbD_append, BitVec.getLsbD_extractLsb]
  cases h : r.mstatus.getLsbD 3 <;> interval_cases k <;> simp_all

theorem mstatusMret_eq (r : CsrRegs) : r.mstatusMret = unmasked r.mstatus := by
  apply BitVec.eq_of_getLsbD_eq
  intro k hk
  simp only [mstatusMret, unmasked, BitVec.getLsbD_append, BitVec.getLsbD_extractLsb]
  cases h : r.mstatus.getLsbD 7 <;> interval_cases k <;> simp_all

theorem armed_eq (r : CsrRegs) : (r.meiPending || r.msiPending || r.mtiPending) = r.armed := by
  simp only [armed, meiPending, msiPending, mtiPending, List.any_cons, List.any_nil, Bool.or_false]
  ac_rfl

theorem intPending_eq (r : CsrRegs) : r.intPending = (r.mstatus.getLsbD 3 && r.armed) := by
  rw [intPending, armed_eq]
  rfl

theorem intCause_eq (r : CsrRegs) : r.intCause = r.dueCause := by
  rw [intCause, dueCause, firstDue, meiPending, msiPending]
  cases r.mip.getLsbD 11 && r.mie.getLsbD 11 <;> cases r.mip.getLsbD 3 && r.mie.getLsbD 3 <;> rfl

theorem mtvecBase_eq (r : CsrRegs) : r.mtvecBase = r.handler := by
  apply BitVec.eq_of_getLsbD_eq
  intro k hk
  simp only [mtvecBase, handler, BitVec.getLsbD_append, BitVec.getLsbD_extractLsb]
  interval_cases k <;> simp

theorem mipNext_eq (old : Word) (l : IrqLines) (write : Option Word) :
    mipNext old l write = write.getD old &&& ~~~0x888#32 ||| l.bits := by
  rw [mipNext]
  generalize write.getD old = d
  apply BitVec.eq_of_getLsbD_eq
  intro k hk
  simp only [BitVec.getLsbD_append, BitVec.getLsbD_extractLsb, BitVec.getLsbD_or, IrqLines.bits]
  interval_cases k <;> simp

/-- A write does not reach the lines' bits. -/
theorem line_bits (w : Word) (l : IrqLines) : (w &&& ~~~0x888#32 ||| l.bits) &&& 0x888#32 = l.bits := by
  have apart : ~~~0x888#32 &&& 0x888#32 = 0#32 := by decide
  have lines : l.bits &&& 0x888#32 = l.bits := by
    obtain ⟨msip, mtip, meip⟩ := l
    revert msip mtip meip
    decide
  rw [BitVec.and_or_distrib_right, BitVec.and_assoc, apart, BitVec.and_zero, BitVec.zero_or, lines]

/-- The first interrupt's number is in the low bits of its cause. -/
theorem redirectAddr_interrupt {t : TrapIn} {q : CsrRegs} (mret : t.mret = false) (int : t.takeInterrupt = true)
    (cause : t.cause = q.dueCause) : t.redirectAddr r = r.vectorOf q.firstDue := by
  have vectored : r.isVectored = decide (r.mtvec.toNat % 4 = 1) := by
    have low : (r.mtvec.extractLsb 1 0).toNat = r.mtvec.toNat % 4 := by
      rw [BitVec.extractLsb_toNat, Nat.shiftRight_zero]
    rw [isVectored, beq_eq_decide, ← low]
    exact decide_eq_decide.mpr BitVec.toNat_inj.symm
  have number : (0#24 ++ t.cause.extractLsb 5 0 ++ 0b00#2 : Word) = BitVec.ofNat 32 (4 * q.firstDue) := by
    rw [cause, dueCause, firstDue]
    split_ifs <;> rfl
  rw [TrapIn.redirectAddr, vectorOf, mret, int, vectored, number, mtvecBase_eq]
  simp

/-! What an edge does: it writes a CSR or none, enters a handler, or leaves it. -/

theorem next_quiet (off : i.trap.Off) (quiet : i.csrWren = false) : r.next i = r.passed i.lines i.instrRetire := by
  simp [next, passed, off.mepc, off.mcause, off.mtval, off.mstatus, quiet, mipNext_eq]

theorem next_assign (off : i.trap.Off) (write : i.csrWren = true) :
    r.next i = (r.passed i.lines i.instrRetire).assign i.csrAddr i.csrData := by
  have mip : (if i.csrAddr = CSR_ADDR_MIP then some i.csrData else none).getD r.mip &&& ~~~0x888#32 ||| i.lines.bits =
      if i.csrAddr = 0x344#12 then i.csrData &&& ~~~0x888#32 ||| i.lines.bits
      else r.mip &&& ~~~0x888#32 ||| i.lines.bits := by
    rw [CSR_ADDR_MIP]
    split_ifs <;> rfl
  simp only [next, assign, passed, off.mepc, off.mcause, off.mtval, off.mstatus, write, mipNext_eq, line_bits, mip,
    warlMstatus_eq, warlMtvec_eq, Bool.true_and, beq_iff_eq, if_false, Bool.false_eq_true]
  rfl

theorem next_enter {t : TrapIn} (trap : i.trap = t.trapWrite r) (entry : t.entry = true) (quiet : i.csrWren = false) :
    r.next i = (r.passed i.lines i.instrRetire).enter t.pc t.cause t.tval := by
  have status : (t.takeTrap || t.takeInterrupt || t.mret) = true := by
    rw [show (t.takeTrap || t.takeInterrupt) = true from entry, Bool.true_or]
  simp [next, enter, passed, trap, TrapIn.trapWrite, entry, status, quiet, mipNext_eq, mstatusEntry_eq]

theorem next_leave {t : TrapIn} (trap : i.trap = t.trapWrite r) (entry : t.entry = false) (mret : t.mret = true)
    (quiet : i.csrWren = false) : r.next i = (r.passed i.lines i.instrRetire).leave := by
  simp [next, leave, passed, trap, TrapIn.trapWrite, entry, mret, quiet, mipNext_eq, mstatusMret_eq]

end CsrRegs

end YarvUc
