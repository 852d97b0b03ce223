import YarvUc.Pipeline.Precise

/-!
# A trapped or squashed instruction leaves no trace

Over every run: in no cycle of its stay in execute has an instruction that ends in a
trap or is squashed by an interrupt written a register, a CSR, the predictor or the
retire flag, started the divider, or had a request accepted. The entry itself changes
the four trap CSRs and empties the pipeline.
-/

namespace YarvUc

/-- Nothing of the word in D/E shows outside in this cycle. -/
structure ExCyc.Traceless (e : ExCyc) : Prop where
  commit : e.opCommits = false
  wb : e.wbEn = false
  csr : e.csrWe = false
  bus : e.accepted = []
  div : e.aluStart = false
  train : e.bpTrain.valid = false

/-- A word in these states retires: its load has been accepted, or the divider runs on it. -/
def ExState.launched (s : ExState) : Bool := s == .MEM_WAIT || s == .DIV_BUSY

namespace ExCyc

variable {e : ExCyc}

theorem csrWe_off (off : e.csrOpValid = false) : e.csrWe = false := by
  unfold csrWe
  split <;> simp [off]

theorem Inert.traceless (inert : e.Inert) (bus : e.accepted = []) (div : e.aluStart = false) : e.Traceless :=
  ⟨inert.commit, inert.wb, csrWe_off inert.csr, bus, div, inert.train⟩

/-- A trap entry is traceless, and comes from no launched state. -/
theorem Outcome.entry (h : e.Outcome) (entry : e.trapIn.entry = true) :
    e.Traceless ∧ e.q.state.launched = false ∧ e.flushO = true ∧ e.Settles := by
  have calm : e.Calm → False := by
    intro calm
    simp [trapIn, TrapIn.entry, calm.sync, calm.int] at entry
  have redirect : e.trapRedirectReq = true := by
    simp only [trapIn, TrapIn.entry, Bool.or_eq_true] at entry
    rcases entry with h | h <;> simp [trapRedirectReq, h]
  have div := (redirect_wires redirect).start
  cases h with
  | bubble _ _ _ _ quiet => exact (calm quiet).elim
  | asleep _ _ _ _ quiet => exact (calm quiet).elim
  | hold _ _ _ quiet => exact (calm quiet).elim
  | commit _ _ _ _ _ _ _ sync int => simp [trapIn, TrapIn.entry, sync, int] at entry
  | trap valid why sync mret int inert bus settles halt =>
    refine ⟨inert.traceless (accepted_of_offered bus) div, ?_, flush_redirect redirect, settles⟩
    rcases why with ⟨h, -⟩ | ⟨h | h, -⟩ <;> rw [h] <;> rfl
  | interrupt idle pending why nonexc sync mret int inert bus settles halt =>
    refine ⟨inert.traceless (accepted_of_offered bus) div, ?_, flush_redirect redirect, settles⟩
    rw [idle]
    rfl

/-- The divider's word waits until the result is there. -/
theorem stall_div (free : e.stallI = false) (awake : e.q.wfiHalt = false) (state : e.q.state = .DIV_BUSY)
    (stall : e.stallO = true) : e.next.state = .DIV_BUSY := by
  have b := busy_wires (e := e) (by simp [state]) awake
  have running : e.aluResultValid = false := by
    simpa [stallO, b.start, b.pending, b.csrStart, divRunning, memLaunchState, memRunning, inState, state, free,
      wfiStall, awake] using stall
  simp [next, stateD, state, running]

/-- A word that stays leaves no trace either, or is launched. -/
theorem Outcome.stays (h : e.Outcome) (free : e.stallI = false) (kept : e.flushO = false) (stall : e.stallO = true) :
    (e.Traceless ∨ e.next.state.launched = true) ∧ (e.q.state.launched = true → e.next.state.launched = true) := by
  cases h with
  | bubble _ _ _ running => rw [running] at stall; cases stall
  | commit _ _ _ _ _ _ running => rw [running] at stall; cases stall
  | trap _ _ sync => rw [flush_redirect (by simp [trapRedirectReq, sync])] at kept; cases kept
  | interrupt _ _ _ _ _ _ int => rw [flush_redirect (by simp [trapRedirectReq, int])] at kept; cases kept
  | asleep halted quiet idle _ calm inert bus settles halt nextPc =>
    have frozen : e.freeze = true := by simp [freeze, wfiStall, halted, quiet]
    refine ⟨.inl (inert.traceless (accepted_of_offered bus) (frozen_wires frozen).start), fun launched => ?_⟩
    rw [idle] at launched
    cases launched
  | hold valid awake _ calm inert phase bus halt =>
    constructor
    · cases start : e.aluStart with
      | true =>
        right
        have idle : e.q.state = .IDLE := by
          simp only [aluStart, Bool.and_eq_true, inState, beq_iff_eq] at start
          exact start.1.1.2
        have busy : e.next.state = .DIV_BUSY := by simp [next, stateD_idle idle, start]
        rw [busy]
        rfl
      | false =>
        rcases bus with ⟨none, -⟩ | ⟨a, -, -, -, -, -, wait⟩
        · exact .inl (inert.traceless none start)
        · rw [wait]
          exact .inr rfl
    · intro launched
      simp only [ExState.launched, Bool.or_eq_true, beq_iff_eq] at launched ⊢
      rcases launched with wait | busy
      · rcases bus with ⟨-, same⟩ | ⟨a, -, -, -, -, other, -⟩
        · exact .inl (same.mpr wait)
        · exact absurd wait other
      · exact .inr (stall_div free awake busy stall)

end ExCyc

/-! ## The state after an entry -/

namespace CsrRegs

/-- A trap entry changes MIE, MPIE and MPP only. -/
theorem mstatusEntry_bit (r : CsrRegs) {k : ℕ} (mie : k ≠ 3) (mpie : k ≠ 7) (mpp : k ≠ 11) (mpp' : k ≠ 12) :
    r.mstatusEntry.getLsbD k = r.mstatus.getLsbD k := by
  unfold mstatusEntry
  by_cases hk : k < 32
  · have cases : k < 3 ∨ 3 < k ∧ k < 7 ∨ 7 < k ∧ k < 11 ∨ 12 < k := by omega
    simp only [BitVec.getLsbD_append, BitVec.getLsbD_extractLsb]
    rcases cases with h | ⟨h, h'⟩ | ⟨h, h'⟩ | h
    · simp [h]
    · have : ¬ k < 3 := by omega
      have h0 : k - 3 ≠ 0 := by omega
      simp [this, h0, show k - 3 - 1 < 3 by omega, show 4 + (k - 3 - 1) = k by omega]
    · have h1 : ¬ k - 3 - 1 < 3 := by omega
      have h2 : k - 3 - 1 - 3 ≠ 0 := by omega
      simp [show ¬ k < 3 by omega, show k - 3 ≠ 0 by omega, h1, h2, show k - 3 - 1 - 3 - 1 < 3 by omega,
        show 8 + (k - 3 - 1 - 3 - 1) = k by omega]
    · simp [show ¬ k < 3 by omega, show k - 3 ≠ 0 by omega, show ¬ k - 3 - 1 < 3 by omega,
        show k - 3 - 1 - 3 ≠ 0 by omega, show ¬ k - 3 - 1 - 3 - 1 < 3 by omega,
        show ¬ k - 3 - 1 - 3 - 1 - 3 < 2 by omega, show k - 3 - 1 - 3 - 1 - 3 - 2 < 19 by omega,
        show 13 + (k - 3 - 1 - 3 - 1 - 3 - 2) = k by omega]
  · rw [BitVec.getLsbD_of_ge _ _ (by omega), BitVec.getLsbD_of_ge _ _ (by omega)]

end CsrRegs

namespace Cpu

variable {p : Params} {m : DmemParams} {image : ℕ → BitVec 64} {s : Cpu} {i : CpuIn}

/-- What is kept in every run, whatever the program does. -/
structure Sound (p : Params) (m : DmemParams) (image : ℕ → BitVec 64) (s : Cpu) : Prop where
  fetch : FetchMem.Inv p image s.fetch
  delivers : ∃ a, FetchMem.Delivers p image a s.fetch
  lsu : s.lsu.Inv p m

theorem Sound.next (sound : s.Sound p m image) : (s.next p m i).Sound p m image := by
  obtain ⟨a, del⟩ := sound.delivers
  cases flush : (s.exec p m i).flushO with
  | true =>
    obtain ⟨fetch, del'⟩ := fetch_flush sound.fetch flush
    exact ⟨fetch, ⟨_, del'⟩, sound.lsu.next⟩
  | false =>
    cases fire : (s.decode p m i).predRedirectFire with
    | true =>
      obtain ⟨fetch, del'⟩ := fetch_predict sound.fetch flush fire
      exact ⟨fetch, ⟨_, del'⟩, sound.lsu.next⟩
    | false =>
      obtain ⟨fetch, del'⟩ := fetch_quiet sound.fetch del flush fire
      exact ⟨fetch, ⟨_, del'⟩, sound.lsu.next⟩

theorem sound_start (boot : Word) (s : Cpu) : (s.start boot).Sound p m s.fetch.ram.mem :=
  ⟨.reset boot s.fetch, ⟨boot, .reset boot s.fetch⟩, Core.inv_reset, rfl, rfl, by simp [start, RamQ.reset]⟩

theorem sound_run (boot : Word) (s : Cpu) (ins : ℕ → CpuIn) (n : ℕ) :
    (Clocked.run (next p m) (s.start boot) ins n).Sound p m s.fetch.ram.mem :=
  Clocked.run_invariant (Sound p m s.fetch.ram.mem) (fun _ _ => True) (sound_start boot s)
    (fun _ _ sound _ => sound.next) n fun _ _ => trivial

/-- All that an entry does: the trap CSRs are written, the counters and the interrupt lines
go on, and nothing is left in the pipeline. -/
structure EntryOnly (p : Params) (m : DmemParams) (image : ℕ → BitVec 64) (s : Cpu) (i : CpuIn) (s' : Cpu) : Prop where
  rf : s'.rf = s.rf
  dmem : s'.lsu.dmem.mem = s.lsu.dmem.mem
  csr : s'.csr.regs = { s.csr.regs with
    mepc := (s.exec p m i).trapMepc
    mcause := (s.exec p m i).trapCause
    mtval := (s.exec p m i).trapTval
    mstatus := s.csr.regs.mstatusEntry
    mip := CsrRegs.mipNext s.csr.regs.mip i.lines none
    mcycle := s.csr.regs.mcycle + 1
    minstret := if s.lsu.core.ex.exValid then s.csr.regs.minstret + 1 else s.csr.regs.minstret }
  mstatus : ∀ k, k ≠ 3 → k ≠ 7 → k ≠ 11 → k ≠ 12 → s'.csr.regs.mstatus.getLsbD k = s.csr.regs.mstatus.getLsbD k
  bp : s'.bp = s.bp
  retired : s'.lsu.core.ex.exValid = false
  divider : s'.lsu.core.ex.alu.divState = .IDLE
  de : s'.lsu.core.dec.de = {}
  hold : s'.lsu.core.dec.hold = false
  buffer : s'.fetch.fetch.count = 0
  stream : FetchMem.Delivers p image (s.trapRedirectAddr p m i) s'.fetch

theorem Sound.entry (sound : s.Sound p m image) (entry : (s.exec p m i).trapIn.entry = true) :
    s.EntryOnly p m image i (s.next p m i) := by
  obtain ⟨quiet, -, flush, settles⟩ := (show (s.exec p m i).Outcome from sound.lsu.core.outcome).entry entry
  have redirect : (s.exec p m i).trapRedirectReq = true := by
    simp only [ExCyc.trapIn, TrapIn.entry, Bool.or_eq_true] at entry
    rcases entry with h | h <;> simp [ExCyc.trapRedirectReq, h]
  have csr : (s.next p m i).csr.regs = { s.csr.regs with
      mepc := (s.exec p m i).trapMepc
      mcause := (s.exec p m i).trapCause
      mtval := (s.exec p m i).trapTval
      mstatus := s.csr.regs.mstatusEntry
      mip := CsrRegs.mipNext s.csr.regs.mip i.lines none
      mcycle := s.csr.regs.mcycle + 1
      minstret := if s.lsu.core.ex.exValid then s.csr.regs.minstret + 1 else s.csr.regs.minstret } := by
    have mstatus : ((s.exec p m i).trapIn.takeTrap || (s.exec p m i).trapIn.takeInterrupt ||
        (s.exec p m i).trapIn.mret) = true := by
      rw [show ((s.exec p m i).trapIn.takeTrap || (s.exec p m i).trapIn.takeInterrupt) = true from entry]
      rfl
    simp only [Cpu.next, CsrQ.next, CsrRegs.next, csrIn, TrapIn.trapWrite, entry, mstatus, quiet.csr, Bool.false_and,
      Bool.false_eq_true, if_true, if_false]
    rfl
  have target : (s.exec p m i).branchAddrO (s.trapRedirectAddr p m i) = s.trapRedirectAddr p m i :=
    ExCyc.branchAddrO_redirect redirect _
  have del := (fetch_flush sound.fetch flush).2
  rw [target] at del
  refine ⟨?_, ?_, csr, ?_, ?_, quiet.commit, settles.div, Core.de_flush flush, ?_, ?_, del⟩
  · simp [Cpu.next, RegFile.next, quiet.wb]
  · exact (Lsu.dmem_quiet (Lsu.launch_none quiet.bus)).2
  · intro k mie mpie mpp mpp'
    rw [csr]
    exact s.csr.regs.mstatusEntry_bit mie mpie mpp mpp'
  · simp [Cpu.next, BpQ.next, quiet.train]
  · simp [DecCyc.next, DecCyc.holdNext, flush]
  · have : (s.fetch.cyc p (s.fetchIn p m i)).redirect = true := by rw [redirect_eq, flush]; rfl
    simp [Cpu.next, FetchMem.next, FetchCyc.next, this]

/-- The word in D/E stays for another cycle. -/
def Keeps (p : Params) (m : DmemParams) (s : Cpu) (i : CpuIn) : Prop :=
  (s.exec p m i).flushO = false ∧ (s.exec p m i).stallO = true

/-- A trapped or squashed instruction leaves no trace: in every run, when a trap or an
interrupt is taken in cycle `n`, no cycle from which the word in D/E has stayed till then
shows anything of it, and the entry does nothing but enter. -/
theorem no_trace (p : Params) (m : DmemParams) (boot : Word) (s : Cpu) (ins : ℕ → CpuIn) (n : ℕ) :
    let c := Clocked.run (next p m) (s.start boot) ins
    ((c n).exec p m (ins n)).trapIn.entry = true →
      (∀ j ≤ n, (∀ l, j ≤ l → l < n → Keeps p m (c l) (ins l)) → ((c j).exec p m (ins j)).Traceless) ∧
        EntryOnly p m s.fetch.ram.mem (c n) (ins n) (c (n + 1)) := by
  intro c entry
  have outcome : ∀ j, ((c j).exec p m (ins j)).Outcome := fun j => (sound_run boot s ins j).lsu.core.outcome
  refine ⟨?_, (sound_run boot s ins n).entry entry⟩
  obtain ⟨none, notLaunched, -, -⟩ := (outcome n).entry entry
  -- backwards from the entry: the word was never launched
  have never : ∀ k j, j + k = n → (∀ l, j ≤ l → l < n → Keeps p m (c l) (ins l)) →
      (c j).lsu.core.ex.state.launched = false := by
    intro k
    induction k with
    | zero =>
      intro j hj _
      obtain rfl : j = n := hj
      exact notLaunched
    | succ k ih =>
      intro j hj keeps
      obtain ⟨kept, stall⟩ := keeps j le_rfl (by omega)
      have after := ih (j + 1) (by omega) fun l hl => keeps l (by omega)
      cases launched : (c j).lsu.core.ex.state.launched with
      | false => rfl
      | true =>
        have := ((outcome j).stays rfl kept stall).2 launched
        rw [show ((c j).exec p m (ins j)).next.state = (c (j + 1)).lsu.core.ex.state from rfl, after] at this
        cases this
  intro j hj keeps
  rcases Nat.eq_or_lt_of_le hj with rfl | lt
  · exact none
  · obtain ⟨kept, stall⟩ := keeps j le_rfl lt
    have after := never (n - (j + 1)) (j + 1) (by omega) fun l hl => keeps l (by omega)
    refine ((outcome j).stays rfl kept stall).1.resolve_right fun launched => ?_
    rw [show ((c j).exec p m (ins j)).next.state = (c (j + 1)).lsu.core.ex.state from rfl, after] at launched
    cases launched

/-- An interrupt squashes the instruction behind a WFI. -/
theorem no_trace_wake :
    ((Clocked.run (next .board .board) (wfiWfi.start 0) (msipFrom 7) 8).exec .board .board (msipFrom 7 8)).Traceless ∧
      (Clocked.run (next .board .board) (wfiWfi.start 0) (msipFrom 7) 9).rf =
        (Clocked.run (next .board .board) (wfiWfi.start 0) (msipFrom 7) 8).rf := by
  obtain ⟨traceless, entry⟩ := no_trace .board .board 0 wfiWfi (msipFrom 7) 8 (by decide +kernel)
  exact ⟨traceless 8 le_rfl fun l h h' => by omega, entry.rf⟩

end Cpu

end YarvUc
