import YarvUc.Execute.MultiCycle
import YarvUc.Isa.Csr
import YarvUc.Pipeline.Decoded

/-!
# CSR accesses

A CSR instruction reads in one cycle and writes in the next. Nothing can come between the
two: the cycle of the read retires nothing and enters no handler, and in `EX_CSR_WAIT`
neither a trap nor an interrupt is possible.
-/

namespace YarvUc

namespace CsrRegs

/-- Without `mip`, which follows the lines, and the counters, which run on. -/
def plain (r : CsrRegs) : CsrRegs := { r with mip := 0, mcycle := 0, minstret := 0 }

/-- The addresses of the CSRs that are left, from `mstatus` to `mtval`. -/
def PlainAddr (a : BitVec 12) : Prop :=
  a ∈ [0x300#12, 0x301#12, 0x304#12, 0x305#12, 0x340#12, 0x341#12, 0x342#12, 0x343#12]

instance (a : BitVec 12) : Decidable (PlainAddr a) := inferInstanceAs (Decidable (a ∈ _))

variable {r r' : CsrRegs} {i : CsrIn} {a : BitVec 12}

theorem contents_plain (plainAddr : PlainAddr a) : r.plain.contents a = r.contents a := by
  simp only [PlainAddr, List.mem_cons, List.not_mem_nil, or_false] at plainAddr
  rcases plainAddr with h | h | h | h | h | h | h | h <;> subst h <;> rfl

theorem contents_congr (plainAddr : PlainAddr a) (same : r.plain = r'.plain) : r.contents a = r'.contents a := by
  rw [← contents_plain plainAddr, same, contents_plain plainAddr]

theorem plain_next_quiet (off : i.trap.Off) (quiet : i.csrWren = false) : (r.next i).plain = r.plain := by
  rw [next_quiet off quiet]
  rfl

theorem plain_next_assign (off : i.trap.Off) (write : i.csrWren = true) :
    (r.next i).plain = (r.assign i.csrAddr i.csrData).plain := by
  rw [next_assign off write]
  rfl

end CsrRegs

/-! ## One access -/

/-- What a CSR instruction writes, from the old value; a set or clear of no bits does not write. -/
def DeT.csrWrite (de : DeT) (old : Word) : Option Word :=
  match de.csrOp with
  | .RW | .RWI => some de.csrSrc
  | .RS | .RSI => if de.csrSrc = 0 then none else some (old ||| de.csrSrc)
  | .RC | .RCI => if de.csrSrc = 0 then none else some (old &&& ~~~de.csrSrc)
  | .NONE => none

section

variable (de : DeT)

/-- The opcode is SYSTEM's, and the `funct3` one of the six CSR accesses: not 0, and not 4. -/
def DeT.isZicsr : Bool := de.instr.extractLsb 6 0 == 0b1110011#7 && de.instr.extractLsb 13 12 != 0b00#2

/-- Its CSR. -/
def DeT.zicsrAddr : BitVec 12 := de.instr.extractLsb 31 20

/-- Its source: the value of `rs1`, or the five bits that stand there. -/
def DeT.zicsrSrc : Word := if de.instr.getLsbD 14 then (de.instr.extractLsb 19 15).setWidth 32 else de.rs1Data

/-- What it makes of the old value: writes it over, sets bits, or clears bits; a set or clear of
no bits does not write. -/
def DeT.rewrites (old : Word) : Option Word :=
  if de.instr.extractLsb 13 12 = 0b01#2 then some de.zicsrSrc
  else if de.zicsrSrc = 0 then none
  else if de.instr.extractLsb 13 12 = 0b10#2 then some (old ||| de.zicsrSrc)
  else some (old &&& ~~~de.zicsrSrc)

end

/-- The `mret` instruction. -/
def DeT.isMret (de : DeT) : Bool := de.instr == 0x30200073#32

theorem decode_system {w : Word} (op : opcodeOf w = OPC_SYSTEM) : decodeUniform w = decSystem w := by
  simp only [decodeUniform, op]
  rfl

theorem low_funct3 (w : Word) : w.extractLsb 13 12 = (funct3Of w).extractLsb 1 0 := by
  apply BitVec.eq_of_getLsbD_eq
  intro k hk
  have within : k ≤ 2 := by omega
  simp [within]

/-- The six `funct3`s. -/
theorem DeT.zicsr_fields {de : DeT} (is : de.isZicsr = true) : opcodeOf de.instr = OPC_SYSTEM ∧
    (funct3Of de.instr = 0b001#3 ∨ funct3Of de.instr = 0b010#3 ∨ funct3Of de.instr = 0b011#3 ∨
      funct3Of de.instr = 0b101#3 ∨ funct3Of de.instr = 0b110#3 ∨ funct3Of de.instr = 0b111#3) := by
  simp only [isZicsr, Bool.and_eq_true, beq_iff_eq, bne_iff_ne] at is
  obtain ⟨op, access⟩ := is
  refine ⟨op, ?_⟩
  rw [low_funct3] at access
  rcases funct3_cases (funct3Of de.instr) with h | h | h | h | h | h | h | h <;> rw [h] at access ⊢
  case inl | inr.inr.inr.inr.inl => exact absurd rfl access
  all_goals decide

namespace DeT.Decoded

variable {de : DeT}

/-- A CSR instruction is one to execute, with its address and its effect. -/
theorem zicsr (known : de.Decoded) (is : de.isZicsr = true) :
    de.isCsrOp = true ∧ de.csrAddr = de.zicsrAddr ∧ ∀ old, de.rewrites old = de.csrWrite old := by
  obtain ⟨system, access⟩ := zicsr_fields is
  have b14 : de.instr.getLsbD 14 = (funct3Of de.instr).getLsbD 2 := by simp
  have low := low_funct3 de.instr
  have csrWren := known.csrWren
  have csrOp := known.csrOp
  have imm := known.imm
  rw [decode_system system, decSystem] at csrWren csrOp imm
  have all : de.csrWren = true ∧ isCsr de.instr = true ∧ ∀ old, de.rewrites old = de.csrWrite old := by
    simp only [rewrites, csrWrite, zicsrSrc, csrSrc, b14, low, csrOp, imm, csrWren, isCsr, system]
    rcases access with h | h | h | h | h | h <;> rw [h] <;> exact ⟨rfl, rfl, fun _ => rfl⟩
  obtain ⟨wren, csr, effect⟩ := all
  refine ⟨wren, ?_, effect⟩
  rw [known.csrAddr, csrAddrDec, if_pos csr]
  rfl

theorem mret (known : de.Decoded) (is : de.isMret = true) : de.isMretOp = true := by
  have instr : de.instr = 0x30200073#32 := beq_iff_eq.mp is
  rw [isMretOp, known.sysOp, instr]
  rfl

end DeT.Decoded

/-- A CSR instruction that has been fetched does not trap. -/
theorem DeT.Latched.zicsr_plain {de : DeT} (known : de.Latched) (fetched : de.isFault = false)
    (is : de.isZicsr = true) : de.exception = false := by
  obtain ⟨system, access⟩ := zicsr_fields is
  rw [Bool.eq_false_iff]
  intro traps
  have refused := known.traps traps fetched
  rw [decode_system system, decSystem] at refused
  rcases access with h | h | h | h | h | h <;> rw [h] at refused <;> rcases refused with none | none <;> cases none

/-- The CSRs after a CSR instruction. -/
def CsrRegs.update (r : CsrRegs) (de : DeT) : CsrRegs :=
  match de.rewrites (r.contents de.zicsrAddr) with
  | some v => r.assign de.zicsrAddr v
  | none => r

namespace ExCyc

variable {e : ExCyc}

theorem csrWe_eq (valid : e.csrOpValid = true) : e.csrWe = (e.de.csrWrite e.csrRdata).isSome := by
  unfold csrWe DeT.csrWrite
  cases e.de.csrOp <;> by_cases zero : e.de.csrSrc = 0#32 <;> simp [valid, zero]

theorem csrNew_eq {v : Word} (write : e.de.csrWrite e.csrRdata = some v) : e.csrNew = v := by
  unfold DeT.csrWrite at write
  unfold csrNew DeT.csrNew
  cases op : e.de.csrOp <;> rw [op] at write <;> by_cases zero : e.de.csrSrc = 0 <;> simp_all

theorem trapWrite_off (calm : e.Calm) (r : CsrRegs) : (e.trapIn.trapWrite r).Off := by
  constructor <;> simp [TrapIn.trapWrite, TrapIn.entry, trapIn, calm.sync, calm.int, calm.mret]

/-- The cycle in which a CSR instruction reads. -/
structure CsrReads (e : ExCyc) : Prop where
  idle : e.q.state = .IDLE
  valid : e.de.valid = true
  csr : e.de.isCsrOp = true
  calm : e.Calm
  inert : e.Inert
  stall : e.stallO = true

theorem Outcome.csrReads (h : e.Outcome) (next : e.next.state = .CSR_WAIT) : e.CsrReads := by
  obtain ⟨idle, start⟩ := csrStart_of next
  have csr : e.de.isCsrOp = true := by
    simp only [csrStart, Bool.and_eq_true] at start
    exact start.1.1.1.2
  cases h with
  | bubble _ _ _ _ _ _ _ settles => rw [settles.state] at next; cases next
  | asleep _ _ _ _ _ _ _ settles => rw [settles.state] at next; cases next
  | trap _ _ _ _ _ _ _ settles => rw [settles.state] at next; cases next
  | interrupt _ _ _ _ _ _ _ _ _ settles => rw [settles.state] at next; cases next
  | hold valid _ stall calm inert => exact ⟨idle, valid, csr, calm, inert, stall⟩
  | commit _ _ _ _ _ _ _ _ _ _ _ _ _ _ _ _ settles => rw [settles.state] at next; cases next

/-- In the idle state a CSR instruction is squashed, sleeps behind a WFI, or reads. -/
theorem csr_idle (free : e.stallI = false) (phase : Phase e.p e.de e.q) (is : e.de.Is .csr) (valid : e.de.valid = true)
    (idle : e.q.state = .IDLE) :
    e.takeInterrupt = true ∧ e.Inert ∨ e.wfiStall = true ∧ e.Calm ∧ e.Inert ∧ e.stallO = true ∧ e.Settles ∨
      e.CsrReads ∧ e.next.state = .CSR_WAIT := by
  have notMem : e.de.isMemOp = false := is.isMemOp
  have notDiv : e.de.isDivOp = false := is.isDivOp
  have csr : e.de.isCsrOp = true := is.isCsrOp
  cases ExCyc.outcome free phase with
  | bubble bubble => rw [bubble] at valid; cases valid
  | asleep halted quiet _ stall calm inert _ settles =>
    exact .inr (.inl ⟨by simp [wfiStall, halted, quiet], calm, inert, stall, settles⟩)
  | trap _ why =>
    rcases why with ⟨-, -, exc⟩ | ⟨-, -, own, -⟩
    · have := is.exception
      rw [exc.exception] at this
      cases this
    · have mem : e.de.isMemOp = true := own.mem.elim (fun h => h.isMemOp) fun h => h.isMemOp
      rw [notMem] at mem
      cases mem
  | interrupt _ pending why nonexc sync mret int inert => exact .inl ⟨int, inert⟩
  | hold _ awake stall calm inert _ =>
    have start : e.csrStart = true := by
      simp [csrStart, valid, csr, inState, idle, freeze, free, wfiStall, awake, redirect_calm calm]
    have pending : e.memReqPending = false := by simp [memReqPending, notMem]
    have next : e.next.state = .CSR_WAIT := by
      simp [ExCyc.next, stateD_idle idle, aluStart, notDiv, memMisalignedLaunch, memCapture, dmemLoadHs, dmemLoadDrive,
        pending, start]
    exact .inr (.inr ⟨⟨idle, valid, csr, calm, inert, stall⟩, next⟩)
  | commit k _ is' nonexc state =>
    rw [is'.kind_csr csr, idle] at state
    cases state

/-- It is in one of two states. -/
theorem csr_states (phase : Phase e.p e.de e.q) (is : e.de.Is .csr) : e.q.state = .IDLE ∨ e.q.state = .CSR_WAIT := by
  have notMem : ¬ (e.de.Is .load ∨ e.de.Is .store) := by
    rintro (mem | mem) <;> cases mem.kind_csr is.isCsrOp
  cases phase with
  | idle state => exact .inl state
  | launch _ own => exact absurd own.mem notMem
  | trap _ own => exact absurd own.mem notMem
  | wait _ own => exact absurd own.mem notMem
  | div _ _ is' => cases is'.kind_csr is.isCsrOp
  | csr state => exact .inr state

end ExCyc

/-! ## In the CPU -/

namespace Cpu

/-- Nothing of the word in D/E is written: neither a GPR nor a CSR, and it does not retire. -/
structure Unwritten (p : Params) (m : DmemParams) (s : Cpu) (i : CpuIn) : Prop where
  commit : (s.exec p m i).opCommits = false
  csrWe : (s.exec p m i).csrWe = false
  rf : (s.next p m i).rf = s.rf

/-- The word in D/E stays, and no CSR changes. -/
structure Waits (p : Params) (m : DmemParams) (s : Cpu) (i : CpuIn) : Prop where
  unwritten : s.Unwritten p m i
  csr : (s.next p m i).csr.regs.plain = s.csr.regs.plain
  de : (s.next p m i).de = s.de

/-- An interrupt squashes the CSR instruction. -/
structure CsrSquashed (p : Params) (m : DmemParams) (s : Cpu) (i : CpuIn) : Prop where
  interrupt : (s.exec p m i).takeInterrupt = true
  unwritten : s.Unwritten p m i
  gone : (s.next p m i).de = {}

/-- The CSR instruction reads; it will commit in the next cycle. -/
structure CsrSamples (p : Params) (m : DmemParams) (s : Cpu) (i : CpuIn) : Prop where
  waits : s.Waits p m i
  state : (s.next p m i).lsu.core.ex.state = .CSR_WAIT
  rdata : (s.next p m i).csr.csrRdataQ = s.csr.regs.contents s.de.zicsrAddr

/-- The CSR instruction commits: `rd` gets what the CSR holds in this cycle, and the CSR is
updated from that value at the same edge. -/
structure CsrCommits (p : Params) (m : DmemParams) (s : Cpu) (i : CpuIn) : Prop where
  commit : (s.exec p m i).opCommits = true
  calm : (s.exec p m i).Calm
  rd : (s.next p m i).rf =
    let rd := s.de.instr.extractLsb 11 7
    if rd = 0 then s.rf else Function.update s.rf rd (s.csr.regs.contents s.de.zicsrAddr)
  csr : (s.next p m i).csr.regs.plain = (s.csr.regs.update s.de).plain
  leaves : (s.exec p m i).stallO = false ∧ (s.next p m i).lsu.core.ex.state = .IDLE

variable {p : Params} {m : DmemParams} {image : ℕ → BitVec 64} {s : Cpu} {i : CpuIn}

theorem plain_quiet (calm : (s.exec p m i).Calm) (quiet : (s.exec p m i).csrWe = false) :
    (s.next p m i).csr.regs.plain = s.csr.regs.plain :=
  CsrRegs.plain_next_quiet (ExCyc.trapWrite_off calm _) quiet

theorem unwritten_of (inert : (s.exec p m i).Inert) : s.Unwritten p m i := by
  refine ⟨inert.commit, ExCyc.csrWe_off inert.csr, ?_⟩
  simp [Cpu.next, RegFile.next, inert.wb]

theorem waits_of (calm : (s.exec p m i).Calm) (inert : (s.exec p m i).Inert) (stall : (s.exec p m i).stallO = true) :
    s.Waits p m i :=
  ⟨unwritten_of inert, plain_quiet calm (ExCyc.csrWe_off inert.csr),
    Core.de_stall (ExCyc.flush_calm calm inert.train) stall⟩

/-- The CSR file is read in every cycle. -/
theorem csrRdataQ_next (p : Params) (m : DmemParams) (s : Cpu) (i : CpuIn) :
    (s.next p m i).csr.csrRdataQ = s.csr.regs.contents s.de.csrAddr := (CsrRegs.contents_eq _ _).symm

/-- In the cycle before `EX_CSR_WAIT` the word in D/E stays. -/
theorem Sound.waits (sound : s.Sound p m image) (wait : (s.next p m i).lsu.core.ex.state = .CSR_WAIT) :
    s.Waits p m i := by
  have reads := (show (s.exec p m i).Outcome from sound.lsu.core.outcome).csrReads wait
  exact waits_of reads.calm reads.inert reads.stall

theorem Sound.samples (sound : s.Sound p m image) (addr : s.de.csrAddr = s.de.zicsrAddr)
    (wait : (s.next p m i).lsu.core.ex.state = .CSR_WAIT) : s.CsrSamples p m i :=
  ⟨sound.waits wait, wait, addr ▸ csrRdataQ_next p m s i⟩

theorem Sound.commits (sound : s.Sound p m image) (known : s.de.Decoded) (zicsr : s.de.isZicsr = true)
    (wait : s.lsu.core.ex.state = .CSR_WAIT) (fresh : s.csr.csrRdataQ = s.csr.regs.contents s.de.zicsrAddr) :
    s.CsrCommits p m i := by
  obtain ⟨-, is, r⟩ := ExCyc.csr_wait (e := s.exec p m i) rfl sound.lsu.core wait
  obtain ⟨-, addr, effect⟩ := known.zicsr zicsr
  have value : (s.exec p m i).wbData = s.csr.regs.contents s.de.zicsrAddr := by
    have src : s.de.wbSrc = .CSR := is.wbSrc rfl
    simp [ExCyc.wbData, ExCyc.wbEarly, src, fresh]
  have rdata : (s.exec p m i).csrRdata = s.csr.regs.contents s.de.zicsrAddr := fresh
  refine ⟨r.commit, r.calm, ?_, ?_, r.stall, by simp [ExCyc.next, ExCyc.stateD, wait]⟩
  · have rf : (s.next p m i).rf = s.rf.next true s.de.rd (s.csr.regs.contents s.de.zicsrAddr) := by
      simp only [Cpu.next, r.wb, value]
      rfl
    have dest : s.de.rd = s.de.instr.extractLsb 11 7 := known.rd
    rw [rf, RegFile.next, dest]
    by_cases zero : s.de.instr.extractLsb 11 7 = 0#5 <;> simp [zero]
  · have we := ExCyc.csrWe_eq r.csr
    rw [CsrRegs.update, effect]
    cases write : s.de.csrWrite (s.csr.regs.contents s.de.zicsrAddr) with
    | none =>
      rw [exec_de, rdata, write] at we
      exact plain_quiet r.calm we
    | some v =>
      have new := ExCyc.csrNew_eq (e := s.exec p m i) (v := v) (by rw [exec_de, rdata, write])
      rw [exec_de, rdata, write] at we
      have next := CsrRegs.plain_next_assign (r := s.csr.regs) (i := s.csrIn p m i) (ExCyc.trapWrite_off r.calm _) we
      rw [show (s.csrIn p m i).csrData = v from new, show (s.csrIn p m i).csrAddr = s.de.zicsrAddr from addr] at next
      exact next

/-- A commit is a retirement or an mret; without one, and without an entry, no CSR changes. -/
theorem plain_kept (commit : (s.exec p m i).opCommits = false) (entry : (s.exec p m i).trapIn.entry = false) :
    (s.next p m i).csr.regs.plain = s.csr.regs.plain := by
  have calm : (s.exec p m i).Calm := by
    simp only [ExCyc.trapIn, TrapIn.entry, Bool.or_eq_false_iff] at entry
    simp only [ExCyc.opCommits, Bool.or_eq_false_iff] at commit
    exact ⟨entry.1, commit.1, entry.2⟩
  refine plain_quiet calm (ExCyc.csrWe_off ?_)
  cases valid : (s.exec p m i).csrOpValid with
  | false => rfl
  | true =>
    simp only [ExCyc.csrOpValid, Bool.and_eq_true] at valid
    obtain ⟨⟨⟨⟨valid, -⟩, running⟩, ready⟩, calm⟩ := valid
    have on : (s.exec p m i).opCommits = true := by
      simp only [ExCyc.opCommits, valid, running, ready, calm, Bool.or_true, Bool.and_self]
    rw [on] at commit
    cases commit

/-- What a cycle sees of the CSRs: the interrupt decision, an `mret`, and another CSR access. -/
structure Sees (p : Params) (m : DmemParams) (s : Cpu) (i : CpuIn) (r : CsrRegs) : Prop where
  interrupt : (s.exec p m i).intPending = CsrRegs.due { r with mip := s.csr.regs.mip }
  /-- An `mret` that commits sends fetch to `mepc`. -/
  mret : s.de.isMret = true → (s.exec p m i).opCommits = true →
    FetchMem.redirects (s.fetchIn p m i) = some r.mepc ∧ (s.next p m i).csr.regs.mstatus = CsrRegs.unmasked r.mstatus
  csr : s.de.valid = true → s.de.isFault = false → s.de.isZicsr = true → CsrRegs.PlainAddr s.de.zicsrAddr →
    (s.next p m i).csr.csrRdataQ = r.contents s.de.zicsrAddr

theorem Sound.sees (sound : s.Sound p m image) (known : s.de.valid = true → s.de.Latched) {r : CsrRegs}
    (same : s.csr.regs.plain = r.plain) : s.Sees p m i r := by
  have mstatus : s.csr.regs.mstatus = r.mstatus := show s.csr.regs.plain.mstatus = r.plain.mstatus by rw [same]
  have mie : s.csr.regs.mie = r.mie := show s.csr.regs.plain.mie = r.plain.mie by rw [same]
  have mepc : s.csr.regs.mepc = r.mepc := show s.csr.regs.plain.mepc = r.plain.mepc by rw [same]
  refine ⟨?_, fun isMret commits => ?_, fun valid fetched zicsr plainAddr => ?_⟩
  · simp only [exec_intPending, CsrRegs.intPending_eq, CsrRegs.due, CsrRegs.armed, mstatus, mie]
  · obtain ⟨sync, int, mret⟩ : (s.exec p m i).syncTrapReq = false ∧ (s.exec p m i).takeInterrupt = false ∧
        (s.exec p m i).mretReq = true := by
      cases show (s.exec p m i).Outcome from sound.lsu.core.outcome with
      | bubble _ _ _ _ _ inert => rw [inert.commit] at commits; cases commits
      | asleep _ _ _ _ _ inert => rw [inert.commit] at commits; cases commits
      | trap _ _ _ _ _ inert => rw [inert.commit] at commits; cases commits
      | interrupt _ _ _ _ _ _ _ inert => rw [inert.commit] at commits; cases commits
      | hold _ _ _ _ inert => rw [inert.commit] at commits; cases commits
      | commit k valid is nonexc _ _ _ sync int mret =>
        have plain : s.de.exception = false := is.exception.trans (by cases k <;> first | rfl | exact absurd rfl nonexc)
        exact ⟨sync, int, mret.trans (is.isMretOp.symm.trans (((known valid).decoded plain).mret isMret))⟩
    have trapIn : (s.exec p m i).trapIn.mret = true := mret
    have asks : (s.exec p m i).trapRedirectReq = true := by simp [ExCyc.trapRedirectReq, mret]
    constructor
    · have valid : (s.exec p m i).branchValidO = true := by simp [ExCyc.branchValidO, asks]
      have target : (s.exec p m i).branchAddrO (s.trapRedirectAddr p m i) = r.mepc := by
        rw [ExCyc.branchAddrO, if_pos asks, trapRedirectAddr, TrapIn.redirectAddr, if_pos trapIn, mepc]
      rw [FetchMem.redirects, fetchIn, valid, target]
      rfl
    · simp [Cpu.next, CsrQ.next, CsrRegs.next, csrIn, TrapIn.trapWrite, TrapIn.entry, ExCyc.trapIn, sync, int,
        mret, CsrRegs.mstatusMret_eq, mstatus]
  · have plain := (known valid).zicsr_plain fetched zicsr
    rw [csrRdataQ_next, (((known valid).decoded plain).zicsr zicsr).2.1]
    exact CsrRegs.contents_congr plainAddr same

/-- A CSR access is atomic: a CSR instruction in execute is squashed, sleeps, or reads in one
cycle and commits in the next with the value the CSR then still has; and until something
else commits or a handler is entered, every cycle behind it sees the updated CSRs. -/
theorem csr_atomic (p : Params) (m : DmemParams) (boot : Word) (s : Cpu) (ins : ℕ → CpuIn) (n : ℕ) :
    let c := Clocked.run (next p m) (s.start boot) ins
    (c n).de.valid = true → (c n).de.isFault = false → (c n).de.isZicsr = true →
      CsrRegs.PlainAddr (c n).de.zicsrAddr →
      ((c n).CsrSquashed p m (ins n) ∨
        (((c n).exec p m (ins n)).wfiStall = true ∧ (c n).Waits p m (ins n) ∧
          (c (n + 1)).lsu.core.ex.state = .IDLE) ∨
        ((c n).CsrSamples p m (ins n) ∧ (c (n + 1)).CsrCommits p m (ins (n + 1))) ∨
        ∃ k, n = k + 1 ∧ (c k).CsrSamples p m (ins k) ∧ (c n).CsrCommits p m (ins n)) ∧
      ((c n).CsrCommits p m (ins n) → ∀ k > n,
        (∀ j, n < j → j < k → ((c j).exec p m (ins j)).opCommits = false ∧
          ((c j).exec p m (ins j)).trapIn.entry = false) →
        (c k).Sees p m (ins k) ((c n).csr.regs.update (c n).de)) := by
  intro c valid fetched zicsr plainAddr
  have sound : ∀ n, (c n).Sound p m s.fetch.ram.mem := fun n => sound_run boot s ins n
  have known : ∀ n, (c n).de.valid = true → (c n).de.Latched := fun n => latched_run boot s ins n
  have decoded := (known n valid).decoded ((known n valid).zicsr_plain fetched zicsr)
  -- what was read is still there when it is written
  have commits : ∀ n, (c n).CsrSamples p m (ins n) → (c (n + 1)).de.Decoded → (c (n + 1)).de.isZicsr = true →
      CsrRegs.PlainAddr (c (n + 1)).de.zicsrAddr → (c (n + 1)).CsrCommits p m (ins (n + 1)) := by
    intro n samples decoded zicsr plainAddr
    have de : (c (n + 1)).de = (c n).de := samples.waits.de
    refine (sound (n + 1)).commits decoded zicsr samples.state ?_
    rw [show (c (n + 1)).csr.csrRdataQ = (c n).csr.regs.contents (c n).de.zicsrAddr from samples.rdata, ← de]
    exact CsrRegs.contents_congr plainAddr samples.waits.csr.symm
  refine ⟨?_, fun commits k hk quiet => (sound k).sees (known k) ?_⟩
  · have phase : Phase p (c n).de (c n).lsu.core.ex := (sound n).lsu.core
    obtain ⟨kind, is⟩ := (sound n).lsu.core.formed valid
    obtain ⟨csr, addr, -⟩ := decoded.zicsr zicsr
    obtain rfl := is.kind_csr csr
    by_cases wait : (c n).lsu.core.ex.state = .CSR_WAIT
    · right; right; right
      cases n with
      | zero => cases wait
      | succ k =>
        have de : (c (k + 1)).de = (c k).de := ((sound k).waits wait).de
        have samples := (sound k).samples (de ▸ addr) wait
        exact ⟨k, rfl, samples, commits k samples decoded zicsr plainAddr⟩
    · have idle := (ExCyc.csr_states (e := (c n).exec p m (ins n)) phase is).resolve_right wait
      rcases ExCyc.csr_idle (e := (c n).exec p m (ins n)) rfl phase is valid idle with
        ⟨int, inert⟩ | ⟨sleep, calm, inert, stall, settles⟩ | ⟨reads, next⟩
      · have redirect : ((c n).exec p m (ins n)).trapRedirectReq = true := by simp [ExCyc.trapRedirectReq, int]
        exact .inl ⟨int, unwritten_of inert, Core.de_flush (ExCyc.flush_redirect redirect)⟩
      · exact .inr (.inl ⟨sleep, waits_of calm inert stall, settles.state⟩)
      · have samples : (c n).CsrSamples p m (ins n) := (sound n).samples addr next
        have de : (c (n + 1)).de = (c n).de := samples.waits.de
        exact .inr (.inr (.inl ⟨samples, commits n samples (de ▸ decoded) (de ▸ zicsr) (de ▸ plainAddr)⟩))
  · obtain ⟨d, rfl⟩ := Nat.exists_eq_add_of_lt hk
    induction d with
    | zero => exact commits.csr
    | succ d ih =>
      have before := ih (by omega) fun j h h' => quiet j h (by omega)
      obtain ⟨commit, entry⟩ := quiet (n + d + 1) (by omega) (by omega)
      exact (plain_kept commit entry).trans before

/-- `csrwi mie, 8` is in D/E in cycle 3, reads 0 and commits in cycle 4. -/
theorem csr_atomic_mie :
    let c := Clocked.run (next .board .board) (wfiWfi.start 0) (msipFrom 9)
    (c 3).CsrSamples .board .board (msipFrom 9 3) ∧ (c 4).CsrCommits .board .board (msipFrom 9 4) := by
  intro c
  obtain ⟨access, -⟩ := csr_atomic .board .board 0 wfiWfi (msipFrom 9) 3 (by decide +kernel) (by decide +kernel)
    (by decide +kernel) (by decide +kernel)
  rcases access with squashed | ⟨sleeps, -⟩ | access | ⟨k, hk, -, commits⟩
  · exact absurd squashed.interrupt (by decide +kernel)
  · exact absurd sleeps (by decide +kernel)
  · exact access
  · exact absurd commits.commit (by decide +kernel)

end Cpu

end YarvUc
