import YarvUc.Pipeline.CsrAccess

/-!
# `minstret`

The counter steps one cycle after a commit, and an access reads it one cycle before it
commits itself. An instruction that commits right before the access reads is therefore
counted too late, and the value read is one short.
-/

namespace YarvUc

namespace Cpu

variable {p : Params} {m : DmemParams} {image : ℕ → BitVec 64} {s : Cpu} {i : CpuIn} {log : List Word}

/-- The instruction that commits in a cycle. -/
def retires (p : Params) (m : DmemParams) (s : Cpu) (i : CpuIn) : List Word :=
  if (s.exec p m i).opCommits then [s.de.pc] else []

/-- The instructions committed before cycle `n`. -/
def retired (p : Params) (m : DmemParams) (s : Cpu) (ins : ℕ → CpuIn) (n : ℕ) : List Word :=
  Clocked.log (next p m) (retires p m) s ins n

/-- A CSR instruction writes `minstret`. -/
def WritesInstret (p : Params) (m : DmemParams) (s : Cpu) (i : CpuIn) : Prop :=
  (s.exec p m i).csrWe = true ∧ s.de.csrAddr = CSR_ADDR_MINSTRET

instance (p : Params) (m : DmemParams) (s : Cpu) (i : CpuIn) : Decidable (s.WritesInstret p m i) :=
  inferInstanceAs (Decidable (_ ∧ _))

/-- The counter lags by the instruction whose retire flag is up. -/
def Counted (log : List Word) (s : Cpu) : Prop :=
  s.csr.regs.minstret + (if s.lsu.core.ex.exValid then 1 else 0) = BitVec.ofNat 32 log.length

theorem counted_next (counted : Counted log s) (unwritten : ¬ s.WritesInstret p m i) :
    Counted (log ++ s.retires p m i) (s.next p m i) := by
  have minstret : (s.next p m i).csr.regs.minstret = BitVec.ofNat 32 log.length := by
    have miss : ((s.exec p m i).csrWe && s.de.csrAddr == CSR_ADDR_MINSTRET) = false := by
      simpa [WritesInstret] using unwritten
    have next : (s.next p m i).csr.regs.minstret =
        if s.lsu.core.ex.exValid then s.csr.regs.minstret + 1 else s.csr.regs.minstret := by
      change (if ((s.exec p m i).csrWe && s.de.csrAddr == CSR_ADDR_MINSTRET) = true then _ else _) = _
      rw [miss]
      rfl
    rw [next, ← counted]
    split <;> simp
  have valid : (s.next p m i).lsu.core.ex.exValid = (s.exec p m i).opCommits := rfl
  rw [Counted, minstret, valid, retires, List.length_append, BitVec.ofNat_add]
  split <;> rfl

theorem counted_run (boot : Word) (s : Cpu) (ins : ℕ → CpuIn) (n : ℕ)
    (unwritten : ∀ k < n, ¬ (Clocked.run (next p m) (s.start boot) ins k).WritesInstret p m (ins k)) :
    Counted (retired p m (s.start boot) ins n) (Clocked.run (next p m) (s.start boot) ins n) := by
  induction n with
  | zero => rfl
  | succ n ih => exact counted_next (ih fun k hk => unwritten k (by omega)) (unwritten n (by omega))

/-- An instruction commits in the cycle before the one in which the access of cycle `n` reads. -/
def JustBefore (p : Params) (m : DmemParams) (c : ℕ → Cpu) (ins : ℕ → CpuIn) (n : ℕ) : Prop :=
  ∃ k, n = k + 2 ∧ ((c k).exec p m (ins k)).opCommits = true

theorem justBefore_iff (boot : Word) (s : Cpu) (ins : ℕ → CpuIn) (n : ℕ) :
    JustBefore p m (Clocked.run (next p m) (s.start boot) ins) ins (n + 1) ↔
      (Clocked.run (next p m) (s.start boot) ins n).lsu.core.ex.exValid = true := by
  constructor
  · rintro ⟨k, hk, commit⟩
    obtain rfl : n = k + 1 := by omega
    exact commit
  · intro valid
    cases n with
    | zero => cases valid
    | succ k => exact ⟨k, rfl, valid⟩

/-- An access that writes back is in `EX_CSR_WAIT`. -/
theorem Sound.wait_of_wb (sound : s.Sound p m image) (wb : (s.exec p m i).wbEn = true) (csr : s.de.isCsrOp = true) :
    s.lsu.core.ex.state = .CSR_WAIT := by
  simp only [ExCyc.wbEn, Bool.and_eq_true] at wb
  obtain ⟨⟨⟨⟨valid, -⟩, -⟩, ready⟩, -⟩ := wb
  obtain ⟨k, is⟩ := sound.lsu.core.formed valid
  obtain rfl := is.kind_csr csr
  have notMem : s.de.isMemOp = false := is.isMemOp
  simpa [ExCyc.resultReady, notMem, csr, ExCyc.csrReady, ExCyc.inState] using ready

/-- `minstret` is exact, or one short: in every run that does not write it, what a CSR
instruction that commits in cycle `n` writes to `rd` is the number of instructions that
committed before it exactly when none committed just before it read. -/
theorem minstret_read (p : Params) (m : DmemParams) (boot : Word) (s : Cpu) (ins : ℕ → CpuIn) (n : ℕ) :
    let c := Clocked.run (next p m) (s.start boot) ins
    (∀ k < n, ¬ (c k).WritesInstret p m (ins k)) →
    ((c n).exec p m (ins n)).wbEn = true → (c n).de.isCsrOp = true → (c n).de.csrAddr = CSR_ADDR_MINSTRET →
      (((c n).exec p m (ins n)).wbData = BitVec.ofNat 32 (retired p m (s.start boot) ins n).length ↔
        ¬ JustBefore p m c ins n) ∧
      (JustBefore p m c ins n →
        ((c n).exec p m (ins n)).wbData + 1 = BitVec.ofNat 32 (retired p m (s.start boot) ins n).length) := by
  intro c unwritten wb csr addr
  have sound : ∀ n, (c n).Sound p m s.fetch.ram.mem := fun n => sound_run boot s ins n
  have wait := (sound n).wait_of_wb wb csr
  cases n with
  | zero => cases wait
  | succ k =>
    have waits := (sound k).waits wait
    have is := (ExCyc.csr_wait (e := (c (k + 1)).exec p m (ins (k + 1))) rfl (sound (k + 1)).lsu.core wait).2.1
    have value : ((c (k + 1)).exec p m (ins (k + 1))).wbData = (c k).csr.regs.minstret := by
      have src : (c (k + 1)).de.wbSrc = .CSR := is.wbSrc rfl
      have read : (c (k + 1)).csr.csrRdataQ = (c k).csr.regs.read (c k).de.csrAddr :=
        (csrRdataQ_next p m (c k) (ins k)).trans (CsrRegs.contents_eq _ _)
      rw [show (c k).de.csrAddr = CSR_ADDR_MINSTRET by rw [← addr]; exact congrArg DeT.csrAddr waits.de.symm]
        at read
      simp only [ExCyc.wbData, ExCyc.wbEarly, exec_de, src, exec_csrRdata, read]
      rfl
    have same : retired p m (s.start boot) ins (k + 1) = retired p m (s.start boot) ins k := by
      rw [retired, Clocked.log_succ]
      change _ ++ (c k).retires p m (ins k) = _
      rw [retires, waits.unwritten.commit]
      exact List.append_nil _
    have counted := counted_run boot s ins k fun j hj => unwritten j (by omega)
    rw [Counted, show Clocked.run (next p m) (s.start boot) ins k = c k from rfl] at counted
    rw [value, same, justBefore_iff, ← counted]
    refine ⟨?_, fun valid => ?_⟩
    · cases valid : (c k).lsu.core.ex.exValid with
      | false => simp
      | true =>
        refine iff_of_false (fun eq => ?_) (by simp)
        have numbers := congrArg BitVec.toNat eq
        have one : (1 : Word).toNat = 1 := rfl
        rw [if_pos rfl, BitVec.toNat_add, one] at numbers
        omega
    · rw [if_pos valid]

/-- Four `nop`s and a `csrr x10, minstret`. -/
def nopsThenRead : Cpu :=
  ofWords [0x00000013#32, 0x00000013#32, 0x00000013#32, 0x00000013#32, 0xB0202573#32, 0x00000013#32]

/-- Behind four instructions that have committed the access reads 3. -/
theorem minstret_slip : ¬ ∀ (p : Params) (m : DmemParams) (boot : Word) (s : Cpu) (ins : ℕ → CpuIn) (n : ℕ),
    (∀ k < n, ¬ (Clocked.run (next p m) (s.start boot) ins k).WritesInstret p m (ins k)) →
    ((Clocked.run (next p m) (s.start boot) ins n).exec p m (ins n)).wbEn = true →
    (Clocked.run (next p m) (s.start boot) ins n).de.isCsrOp = true →
    (Clocked.run (next p m) (s.start boot) ins n).de.csrAddr = CSR_ADDR_MINSTRET →
    ((Clocked.run (next p m) (s.start boot) ins n).exec p m (ins n)).wbData =
      BitVec.ofNat 32 (retired p m (s.start boot) ins n).length := by
  intro h
  have := h .board .board 0 nopsThenRead (msipFrom 100) 8 (by decide +kernel) (by decide +kernel) (by decide +kernel)
    (by decide +kernel)
  exact absurd this (by decide +kernel)

/-- Two `nop`s and a jump to a `csrr x10, minstret`. -/
def jumpThenRead : Cpu :=
  ofWords [0x00000013#32, 0x00000013#32, 0x0080006F#32, 0x00000013#32, 0xB0202573#32, 0x00000013#32]

/-- Nothing commits while the jump's target is fetched: the access reads all three. -/
theorem minstret_read_jumped :
    let c := Clocked.run (next .board .board) (jumpThenRead.start 0) (msipFrom 100)
    ((c 8).exec .board .board (msipFrom 100 8)).wbData =
        BitVec.ofNat 32 (retired .board .board (jumpThenRead.start 0) (msipFrom 100) 8).length ∧
      ((c 8).exec .board .board (msipFrom 100 8)).wbData = 3 := by
  intro c
  refine ⟨(minstret_read .board .board 0 jumpThenRead (msipFrom 100) 8 (by decide +kernel) (by decide +kernel)
    (by decide +kernel) (by decide +kernel)).1.mpr ?_, by decide +kernel⟩
  rintro ⟨k, hk, commit⟩
  obtain rfl : k = 6 := by omega
  exact absurd commit (by decide +kernel)

end Cpu

end YarvUc
