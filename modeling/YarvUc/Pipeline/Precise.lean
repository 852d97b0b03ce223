import YarvUc.Pipeline.Run

/-!
# Precise traps and interrupts

A run seen from outside is a log of retirements and trap entries. `oldest` follows it
from the boot address and gives the address of the oldest instruction that has neither
retired nor trapped, as long as the retirements come one after another in program
order. They always do; an interrupt's `mepc` is that address unless a second WFI was in
D/E while the pipe slept, and a synchronous trap's is unless the instruction straddles
the end of the I-mem.
-/

namespace YarvUc

/-! ## Program order of a log -/

inductive OrderEvent where
  /-- The instruction at `pc` retires; `next` is its successor. -/
  | commit (pc next : Word)
  /-- A trap or interrupt goes to its handler. -/
  | entry (handler : Word)
deriving DecidableEq

/-- One event, at the oldest address so far. -/
def OrderEvent.step : Option Word → OrderEvent → Option Word
  | some old, .commit pc next => if pc = old then some next else none
  | some _, .entry handler => some handler
  | none, _ => none

/-- The oldest address after a log, when its retirements are in program order. -/
def oldest (boot : Word) (log : List OrderEvent) : Option Word := log.foldl OrderEvent.step (some boot)

theorem oldest_append (boot : Word) (a b : List OrderEvent) :
    oldest boot (a ++ b) = b.foldl OrderEvent.step (oldest boot a) := List.foldl_append

namespace Cpu

/-- What a cycle retires and enters. -/
def orderEvents (p : Params) (m : DmemParams) (s : Cpu) (i : CpuIn) : List OrderEvent :=
  (if (s.exec p m i).opCommits then
    [.commit s.de.pc (if (s.exec p m i).mretReq then s.trapRedirectAddr p m i else s.de.nextPc)] else []) ++
    (if (s.exec p m i).trapIn.entry then [.entry (s.trapRedirectAddr p m i)] else [])

/-- The pipe sleeps with a valid WFI in D/E: `wfi_retire` fires again. -/
def SleepsOnWfi (p : Params) (m : DmemParams) (s : Cpu) (i : CpuIn) : Prop :=
  (s.exec p m i).wfiStall = true ∧ (s.de.valid && s.de.isWfiOp) = true

instance (p : Params) (m : DmemParams) (s : Cpu) (i : CpuIn) : Decidable (s.SleepsOnWfi p m i) :=
  inferInstanceAs (Decidable (_ ∧ _))

/-- An `mret` of this cycle returns to an even address. -/
def EvenReturn (p : Params) (m : DmemParams) (s : Cpu) (i : CpuIn) : Prop :=
  (s.exec p m i).mretReq = true → s.csr.regs.mepc.getLsbD 0 = false

instance (p : Params) (m : DmemParams) (s : Cpu) (i : CpuIn) : Decidable (s.EvenReturn p m i) :=
  inferInstanceAs (Decidable (_ → _))

variable {p : Params} {m : DmemParams}

/-- The CPU of the run in program order is the CPU of the run. -/
theorem run_ordered (boot : Word) (s : Cpu) (ins : ℕ → CpuIn) (n : ℕ) :
    (Clocked.run (Ordered.next p m) (Ordered.start boot s) ins n).cpu =
      Clocked.run (next p m) (s.start boot) ins n := by
  induction n with
  | zero => rfl
  | succ n ih => rw [Clocked.run_succ, Clocked.run_succ, Ordered.next, ih]

end Cpu

namespace Ordered

variable {p : Params} {m : DmemParams} {image : ℕ → BitVec 64} {o : Ordered} {i : CpuIn}

/-! ## One cycle -/

/-- A cycle's events lead from its oldest address to the next one's. -/
theorem Inv.follows (inv : o.Inv p m image) :
    (o.cpu.orderEvents p m i).foldl OrderEvent.step (some o.pc) = some (o.next p m i).pc := by
  have pc : (o.next p m i).pc = o.cpu.pcNext p m i o.pc := rfl
  have quiet : (o.cpu.exec p m i).Calm → (o.cpu.exec p m i).Inert →
      (o.cpu.orderEvents p m i).foldl OrderEvent.step (some o.pc) = some (o.next p m i).pc := by
    intro calm inert
    simp [Cpu.orderEvents, inert.commit, ExCyc.trapIn, TrapIn.entry, calm.sync, calm.int, pc, Cpu.pcNext,
      ExCyc.redirect_calm calm]
  have entry : (o.cpu.exec p m i).opCommits = false → (o.cpu.exec p m i).trapIn.entry = true →
      (o.cpu.orderEvents p m i).foldl OrderEvent.step (some o.pc) = some (o.next p m i).pc := by
    intro inert entry
    have redirect : (o.cpu.exec p m i).trapRedirectReq = true := by
      simp only [ExCyc.trapIn, TrapIn.entry, Bool.or_eq_true] at entry
      rcases entry with h | h <;> simp [ExCyc.trapRedirectReq, h]
    simp [Cpu.orderEvents, inert, entry, pc, Cpu.pcNext, redirect, OrderEvent.step]
  cases inv.outcome (i := i) with
  | bubble valid awake idle stall calm inert bus settles halt => exact quiet calm inert
  | asleep halted sleeping idle stall calm inert bus settles halt nextPc => exact quiet calm inert
  | hold valid awake stall calm inert phase bus halt => exact quiet calm inert
  | trap valid why sync mret int inert bus settles halt =>
    exact entry inert.commit (by simp [ExCyc.trapIn, TrapIn.entry, sync])
  | interrupt idle pending why nonexc sync mret int inert bus settles halt =>
    exact entry inert.commit (by simp [ExCyc.trapIn, TrapIn.entry, int])
  | commit k valid is nonexc state awake stall sync int mret commit wb csr train bus memory settles halt =>
    obtain ⟨w, c, -, word⟩ := inv.instr valid (is.nonexc nonexc)
    have first : o.cpu.de.pc = o.pc := by rw [← DeT.base_pc, word]; rfl
    have none : (o.cpu.exec p m i).trapIn.entry = false := by simp [ExCyc.trapIn, TrapIn.entry, sync, int]
    have redirect : (o.cpu.exec p m i).trapRedirectReq = (o.cpu.exec p m i).mretReq := by
      simp [ExCyc.trapRedirectReq, sync, int]
    simp [Cpu.orderEvents, commit, none, pc, Cpu.pcNext, redirect, OrderEvent.step, first]

/-- The instruction that traps, and where its fault lies. -/
theorem Inv.trapped (inv : o.Inv p m image) (sync : (o.cpu.exec p m i).syncTrapReq = true) :
    o.cpu.de.valid = true ∧ o.cpu.de.isWfiOp = false ∧ (o.cpu.exec p m i).opCommits = false ∧
      (o.cpu.exec p m i).takeInterrupt = false := by
  cases inv.outcome (i := i) with
  | bubble _ _ _ _ calm => rw [calm.sync] at sync; cases sync
  | asleep _ _ _ _ calm => rw [calm.sync] at sync; cases sync
  | hold _ _ _ calm => rw [calm.sync] at sync; cases sync
  | interrupt _ _ _ _ none => rw [none] at sync; cases sync
  | commit _ _ _ _ _ _ _ none => rw [none] at sync; cases sync
  | trap valid why _ _ int inert =>
    refine ⟨valid, ?_, inert.commit, int⟩
    rcases why with ⟨-, -, is⟩ | ⟨-, -, own, -⟩
    · exact is.isWfiOp
    · exact own.mem.elim (fun is => is.isWfiOp) fun is => is.isWfiOp

/-- The address of the word in D/E: the oldest one, or the high half of an instruction that
straddles the end of the memory. -/
theorem Inv.pc_de (inv : o.Inv p m image) (valid : o.cpu.de.valid = true) :
    o.cpu.de.pc = o.pc ↔ ¬ Straddles p.imemAddrW image o.pc := by
  have word := inv.word valid
  cases fetched : fetchAt p.imemAddrW image o.pc with
  | instr pc w c =>
    obtain rfl := pc_fetchAt fetched
    rw [fetched] at word
    refine iff_of_true (by rw [← DeT.base_pc, word]; rfl) fun ⟨inside, span, past⟩ => ?_
    rw [fetchAt_straddle inside span past] at fetched
    cases fetched
  | fault t =>
    rw [fetched] at word
    have pc : o.cpu.de.pc = t := by rw [← DeT.base_pc, word]; rfl
    rw [pc]
    rcases (fault_fetchAt fetched).2 with ⟨same, plain⟩ | ⟨high, straddles⟩
    · exact iff_of_true same plain
    · rw [high]
      exact iff_of_false (add_two_ne _) (not_not.mpr straddles)

/-- The `mepc` a synchronous trap writes. -/
theorem Inv.sync_mepc (inv : o.Inv p m image) (sync : (o.cpu.exec p m i).syncTrapReq = true) :
    (o.cpu.next p m i).csr.regs.mepc = o.pc ↔
      ¬ (Straddles p.imemAddrW image o.pc ∧ o.cpu.lsu.core.ex.wfiHalt = false) := by
  obtain ⟨valid, notWfi, -, -⟩ := inv.trapped sync
  have entry : (o.cpu.exec p m i).trapIn.entry = true := by simp [ExCyc.trapIn, TrapIn.entry, sync]
  have mepc : (o.cpu.next p m i).csr.regs.mepc = (o.cpu.exec p m i).trapMepc := (CsrRegs.next_entry rfl entry).1
  rw [mepc, ExCyc.trapMepc, Cpu.exec_q, Cpu.exec_de]
  cases halted : o.cpu.lsu.core.ex.wfiHalt with
  | true =>
    rw [if_pos rfl]
    refine iff_of_true ((inv.sleep halted).resolve_right fun h => ?_) (by simp)
    rw [notWfi, Bool.and_false] at h
    cases h.1
  | false =>
    rw [if_neg (by simp), inv.pc_de valid]
    simp

/-- The `mtval` of an access fault. -/
theorem Inv.sync_mtval (inv : o.Inv p m image) (sync : (o.cpu.exec p m i).syncTrapReq = true)
    (access : (o.cpu.exec p m i).trapCause = MCAUSE_INSTR_ACC) :
    fetchAt p.imemAddrW image o.pc = .fault (o.cpu.next p m i).csr.regs.mtval := by
  obtain ⟨valid, -, -, int⟩ := inv.trapped sync
  have entry : (o.cpu.exec p m i).trapIn.entry = true := by simp [ExCyc.trapIn, TrapIn.entry, sync]
  have mtval : (o.cpu.next p m i).csr.regs.mtval = (o.cpu.exec p m i).syncTval := by
    rw [show (o.cpu.next p m i).csr.regs.mtval = (o.cpu.exec p m i).trapTval from (CsrRegs.next_entry rfl entry).2.2.1,
      ExCyc.trapTval, int, if_neg (by simp)]
  rw [ExCyc.trapCause, int, if_neg (by simp), ExCyc.syncCause] at access
  cases misaligned : (o.cpu.exec p m i).misalignedTrap with
  | true =>
    rw [misaligned, if_pos rfl] at access
    split at access <;> exact absurd access (by decide)
  | false =>
    rw [misaligned, if_neg (by simp)] at access
    rw [mtval, ExCyc.syncTval, misaligned, if_neg (by simp)]
    have word := inv.word valid
    have cause : o.cpu.de.base.exceptionCause = MCAUSE_INSTR_ACC := access
    have tval : (o.cpu.exec p m i).de.exceptionTval = o.cpu.de.base.exceptionTval := rfl
    rw [tval, word]
    cases fetched : fetchAt p.imemAddrW image o.pc with
    | fault t => rfl
    | instr pc w c =>
      rw [word, fetched] at cause
      simp only [Fetched.word, decodeWord] at cause
      split at cause
      · exact absurd cause (by decide)
      · exact absurd cause (excCause_uniform w).1

/-- The `mepc` an interrupt writes: the oldest address, or the address behind a second WFI. -/
theorem Inv.int_mepc (inv : o.Inv p m image) (int : (o.cpu.exec p m i).takeInterrupt = true) :
    (o.cpu.exec p m i).opCommits = false ∧
      ((o.cpu.next p m i).csr.regs.mepc = o.pc ↔
        (o.cpu.lsu.core.ex.wfiHalt = true → o.cpu.lsu.core.ex.wfiNextPc = o.pc)) := by
  have entry : (o.cpu.exec p m i).trapIn.entry = true := by simp [ExCyc.trapIn, TrapIn.entry, int]
  have mepc : (o.cpu.next p m i).csr.regs.mepc = (o.cpu.exec p m i).trapMepc := (CsrRegs.next_entry rfl entry).1
  rw [mepc, ExCyc.trapMepc, Cpu.exec_q, Cpu.exec_de]
  cases inv.outcome (i := i) with
  | bubble _ _ _ _ calm => rw [calm.int] at int; cases int
  | asleep _ _ _ _ calm => rw [calm.int] at int; cases int
  | hold _ _ _ calm => rw [calm.int] at int; cases int
  | trap _ _ _ _ none => rw [none] at int; cases int
  | commit _ _ _ _ _ _ _ _ none => rw [none] at int; cases int
  | interrupt idle pending why nonexc _ _ _ inert =>
    refine ⟨inert.commit, ?_⟩
    cases halted : o.cpu.lsu.core.ex.wfiHalt with
    | true => simp
    | false =>
      rw [if_neg (by simp)]
      refine iff_of_true ?_ (by simp)
      obtain ⟨valid, -, -⟩ := why.resolve_left (by simp [halted])
      obtain ⟨w, c, -, word⟩ := inv.instr valid (nonexc valid)
      rw [← DeT.base_pc, word]
      rfl

/-- The wake address is lost exactly in a cycle that sleeps on a WFI. -/
theorem Inv.wake_next (inv : o.Inv p m image) (halted : (o.next p m i).cpu.lsu.core.ex.wfiHalt = true) :
    (o.next p m i).cpu.lsu.core.ex.wfiNextPc = (o.next p m i).pc ↔ ¬ o.cpu.SleepsOnWfi p m i := by
  rcases inv.halted_next halted with ⟨asleep, pc, -, wake⟩ | ⟨awake, exact⟩
  · have wasHalted : o.cpu.lsu.core.ex.wfiHalt = true := by
      simp only [ExCyc.wfiStall, Bool.and_eq_true] at asleep
      exact asleep.1
    rw [pc, wake]
    cases wfi : o.cpu.de.valid && o.cpu.de.isWfiOp with
    | true =>
      obtain ⟨valid, isWfi⟩ := Bool.and_eq_true_iff.mp wfi
      have nonexc : o.cpu.de.exception = false := by
        obtain ⟨k, is⟩ := inv.lsu.core.formed valid
        refine is.nonexc fun hk => ?_
        have := is.isWfiOp
        rw [show o.cpu.lsu.core.dec.de.isWfiOp = true from isWfi, hk] at this
        cases this
      obtain ⟨w, c, -, word⟩ := inv.instr valid nonexc
      have first : o.cpu.de.pc = o.pc := by rw [← DeT.base_pc, word]; rfl
      rw [if_pos rfl, DeT.pcLink_eq, first]
      exact iff_of_false (lengthOf_ne _ _) (not_not.mpr ⟨asleep, wfi⟩)
    | false =>
      rw [if_neg (by simp)]
      refine iff_of_true ((inv.sleep wasHalted).resolve_right fun h => ?_) (by simp [Cpu.SleepsOnWfi, wfi])
      rw [wfi] at h
      cases h.1
  · exact iff_of_true exact (by simp [Cpu.SleepsOnWfi, awake])

theorem Inv.wake_iff (inv : o.Inv p m image) :
    ((o.next p m i).cpu.lsu.core.ex.wfiHalt = true →
        (o.next p m i).cpu.lsu.core.ex.wfiNextPc = (o.next p m i).pc) ↔ ¬ o.cpu.SleepsOnWfi p m i := by
  cases halted : (o.next p m i).cpu.lsu.core.ex.wfiHalt with
  | true =>
    rw [← inv.wake_next halted]
    simp
  | false =>
    refine iff_of_true (by simp) fun ⟨asleep, _⟩ => ?_
    have stays : (o.cpu.exec p m i).next.wfiHalt = true := by
      have held : ((o.cpu.exec p m i).q.wfiHalt && !(o.cpu.exec p m i).intPending) = true := asleep
      rw [ExCyc.next, held, Bool.or_true]
    rw [show (o.next p m i).cpu.lsu.core.ex.wfiHalt = true from stays] at halted
    cases halted

end Ordered

/-! ## Runs -/

namespace Cpu

/-- What a run has retired and entered before edge `n`. -/
def orderLog (p : Params) (m : DmemParams) (s : Cpu) (ins : ℕ → CpuIn) (n : ℕ) : List OrderEvent :=
  Clocked.log (next p m) (orderEvents p m) s ins n

variable {p : Params} {m : DmemParams} {boot : Word} {s : Cpu} {ins : ℕ → CpuIn}

theorem inv_run (even : boot.getLsbD 0 = false) {n : ℕ}
    (ret : ∀ k < n, EvenReturn p m (Clocked.run (next p m) (s.start boot) ins k) (ins k)) :
    (Clocked.run (Ordered.next p m) (.start boot s) ins n).Inv p m s.fetch.ram.mem := by
  refine Ordered.inv_run even s ins n fun k hk => ?_
  have := ret k hk
  rwa [← run_ordered] at this

/-- The run retires in program order. -/
theorem oldest_run (even : boot.getLsbD 0 = false) {n : ℕ}
    (ret : ∀ k < n, EvenReturn p m (Clocked.run (next p m) (s.start boot) ins k) (ins k)) :
    oldest boot (orderLog p m (s.start boot) ins n) =
      some (Clocked.run (Ordered.next p m) (.start boot s) ins n).pc := by
  induction n with
  | zero => rfl
  | succ n ih =>
    have before : ∀ k < n, EvenReturn p m (Clocked.run (next p m) (s.start boot) ins k) (ins k) :=
      fun k hk => ret k (by omega)
    rw [orderLog, Clocked.log_succ, oldest_append, ← orderLog, ih before, Clocked.run_succ, ← run_ordered]
    exact (inv_run even before).follows

/-- The pipe slept on a WFI in the cycle before. -/
def OverwroteWake (p : Params) (m : DmemParams) (s : Cpu) (ins : ℕ → CpuIn) (n : ℕ) : Prop :=
  ∃ k, n = k + 1 ∧ SleepsOnWfi p m (Clocked.run (next p m) s ins k) (ins k)

/-- Interrupts are precise: in every run whose `mret`s return to even addresses, instructions
retire in program order, each the one at the oldest address, and the `mepc` an interrupt
writes is that address exactly when the pipe did not just sleep with a second WFI in D/E. -/
theorem interrupt_precise (p : Params) (m : DmemParams) (boot : Word) (even : boot.getLsbD 0 = false) (s : Cpu)
    (ins : ℕ → CpuIn) (n : ℕ)
    (ret : ∀ k < n, EvenReturn p m (Clocked.run (next p m) (s.start boot) ins k) (ins k)) :
    let c := Clocked.run (next p m) (s.start boot) ins
    ∃ pc, oldest boot (orderLog p m (s.start boot) ins n) = some pc ∧
      ((c n).de.valid = true → (c n).de.base = (fetchAt p.imemAddrW s.fetch.ram.mem pc).word (c n).rf.read) ∧
      (((c n).exec p m (ins n)).takeInterrupt = true → ((c n).exec p m (ins n)).opCommits = false ∧
        ((c (n + 1)).csr.regs.mepc = pc ↔ ¬ OverwroteWake p m (s.start boot) ins n)) := by
  intro c
  have inv := inv_run (s := s) even ret
  have cpu := run_ordered (p := p) (m := m) boot s ins n
  refine ⟨_, oldest_run even ret, ?_, fun int => ?_⟩
  · rw [show c n = _ from cpu.symm]
    exact inv.word
  · have precise := inv.int_mepc (i := ins n) (by rw [cpu]; exact int)
    rw [cpu] at precise
    refine ⟨precise.1, precise.2.trans ?_⟩
    cases n with
    | zero =>
      refine iff_of_true (fun halted => ?_) fun ⟨k, h, _⟩ => by omega
      cases halted
    | succ n =>
      have before := inv_run (s := s) even fun k (hk : k < n) => ret k (by omega)
      have overwrote : OverwroteWake p m (s.start boot) ins (n + 1) ↔ SleepsOnWfi p m (c n) (ins n) := by
        constructor
        · rintro ⟨k, hk, asleep⟩
          obtain rfl : n = k := by omega
          exact asleep
        · exact fun asleep => ⟨n, rfl, asleep⟩
      rw [overwrote, show c n = _ from (run_ordered boot s ins n).symm, ← cpu]
      exact before.wake_iff

/-- Reset flops and tables over a program of 32-bit words. -/
def ofWords (words : List Word) : Cpu where
  fetch := .ofImage fun k => words.getD (2 * k + 1) 0 ++ words.getD (2 * k) 0
  lsu := .ofImage fun _ => 0
  rf := fun _ => 0
  csr := .reset
  bp := { pht := fun _ => 0, ghr := 0, ras := fun _ => 0, rasPtr := 0, rasCnt := 0 }

/-- `csrwi mie, 8`, `csrwi mstatus, 8`, and two WFIs one behind the other. -/
def wfiWfi : Cpu := ofWords [0x30445073#32, 0x30045073#32, 0x10500073#32, 0x10500073#32, 0x00000013#32]

/-- The software-interrupt line rises in cycle `rise`. -/
def msipFrom (rise n : ℕ) : CpuIn where
  lines := { msip := decide (rise ≤ n), mtip := false, meip := false }
  periRsp := {}

/-- The second WFI is skipped: `mepc` is the address behind it. -/
theorem wfi_slip : ¬ ∀ (p : Params) (m : DmemParams) (boot : Word) (s : Cpu) (ins : ℕ → CpuIn) (n : ℕ),
    boot.getLsbD 0 = false →
    ((Clocked.run (next p m) (s.start boot) ins n).exec p m (ins n)).takeInterrupt = true →
    oldest boot (orderLog p m (s.start boot) ins n) =
      some (Clocked.run (next p m) (s.start boot) ins (n + 1)).csr.regs.mepc := by
  intro h
  have := h .board .board 0 wfiWfi (msipFrom 9) 10 rfl (by decide +kernel)
  exact absurd this (by decide +kernel)

/-- Two cycles earlier the interrupt wakes the first WFI before the second has slept. -/
theorem interrupt_precise_wake : ∃ pc, oldest 0 (orderLog .board .board (wfiWfi.start 0) (msipFrom 7) 8) = some pc ∧
    (Clocked.run (next .board .board) (wfiWfi.start 0) (msipFrom 7) 9).csr.regs.mepc = pc := by
  obtain ⟨pc, order, -, int⟩ := interrupt_precise .board .board 0 rfl wfiWfi (msipFrom 7) 8 (by decide +kernel)
  refine ⟨pc, order, (int (by decide +kernel)).2.mpr ?_⟩
  rintro ⟨k, hk, asleep⟩
  obtain rfl : k = 7 := by omega
  exact absurd asleep (by decide +kernel)

/-- Synchronous traps are precise: in every run whose `mret`s return to even addresses,
instructions retire in program order, the instruction that traps is the one at the oldest
address, the `mepc` written is that address exactly when the instruction does not straddle
the end of the I-mem (or the trap is taken at a WFI's wake), and an access fault's `mtval`
is the first address outside. -/
theorem trap_precise (p : Params) (m : DmemParams) (boot : Word) (even : boot.getLsbD 0 = false) (s : Cpu)
    (ins : ℕ → CpuIn) (n : ℕ)
    (ret : ∀ k < n, EvenReturn p m (Clocked.run (next p m) (s.start boot) ins k) (ins k)) :
    let c := Clocked.run (next p m) (s.start boot) ins
    let image := s.fetch.ram.mem
    ∃ pc, oldest boot (orderLog p m (s.start boot) ins n) = some pc ∧
      (((c n).exec p m (ins n)).syncTrapReq = true →
        (c n).de.base = (fetchAt p.imemAddrW image pc).word (c n).rf.read ∧
        ((c n).exec p m (ins n)).opCommits = false ∧
        ((c (n + 1)).csr.regs.mepc = pc ↔
          ¬ (Straddles p.imemAddrW image pc ∧ (c n).lsu.core.ex.wfiHalt = false)) ∧
        (((c n).exec p m (ins n)).trapCause = MCAUSE_INSTR_ACC →
          fetchAt p.imemAddrW image pc = .fault (c (n + 1)).csr.regs.mtval)) := by
  intro c image
  have inv := inv_run (s := s) even ret
  have cpu := run_ordered (p := p) (m := m) boot s ins n
  refine ⟨_, oldest_run even ret, fun sync => ?_⟩
  have sync' : ((Clocked.run (Ordered.next p m) (.start boot s) ins n).cpu.exec p m (ins n)).syncTrapReq = true := by
    rw [cpu]
    exact sync
  have mepc := inv.sync_mepc sync'
  have mtval := inv.sync_mtval sync'
  obtain ⟨valid, -, commit, -⟩ := inv.trapped sync'
  have word := inv.word valid
  rw [cpu] at mepc mtval commit word
  exact ⟨word, commit, mepc, mtval⟩

/-- Every halfword begins a 32-bit instruction. -/
def lowHalves : Cpu := { wfiWfi with fetch := .ofImage fun _ => 0x0013001300130013#64 }

/-- The instruction in the I-mem's last halfword traps with the `mepc` of its high half. -/
theorem straddle_slip : ¬ ∀ (p : Params) (m : DmemParams) (boot : Word) (s : Cpu) (ins : ℕ → CpuIn) (n : ℕ),
    boot.getLsbD 0 = false →
    ((Clocked.run (next p m) (s.start boot) ins n).exec p m (ins n)).syncTrapReq = true →
    oldest boot (orderLog p m (s.start boot) ins n) =
      some (Clocked.run (next p m) (s.start boot) ins (n + 1)).csr.regs.mepc := by
  intro h
  have := h .board .board 0x3FFE#32 lowHalves (msipFrom 9) 4 rfl (by decide +kernel)
  exact absurd this (by decide +kernel)

/-- Run off the end of the I-mem at a word's boundary. -/
theorem trap_precise_runOff : ∃ pc, oldest 0x4000#32
      (orderLog .board .board (lowHalves.start 0x4000#32) (msipFrom 9) 2) = some pc ∧
    (Clocked.run (next .board .board) (lowHalves.start 0x4000#32) (msipFrom 9) 3).csr.regs.mepc = pc := by
  obtain ⟨pc, order, trap⟩ := trap_precise .board .board 0x4000#32 rfl lowHalves (msipFrom 9) 2 (by decide +kernel)
  have here : pc = 0x4000#32 := (Option.some.inj (order.symm.trans (by decide +kernel)))
  refine ⟨pc, order, (trap (by decide +kernel)).2.2.1.mpr fun h => ?_⟩
  rw [here] at h
  exact absurd h.1 (by decide +kernel)

end Cpu

end YarvUc
