import YarvUc.Clocked.Progress
import YarvUc.Execute.MultiCycle
import YarvUc.Rtl.Hart

/-!
# Who owns the states of execute

Outside `EX_IDLE` the instruction in D/E is the one with which the state machine left it:
nothing but a misaligned access flushes there, and decode holds the register until the
instruction retires or that trap is taken.
-/

namespace YarvUc

/-- The states of a memory access. -/
def ExState.IsMem (state : ExState) : Prop := state = .MEM_LAUNCH ∨ state = .MEM_WAIT ∨ state = .MEM_TRAP

theorem ExState.IsMem.busy {state : ExState} (mem : state.IsMem) : state ≠ .IDLE := by
  rcases mem with rfl | rfl | rfl <;> simp

/-- The cause of a misaligned access. -/
def DeT.misalignedCause (de : DeT) : Word := if de.memWrite then MCAUSE_SAD_MIS else MCAUSE_LAD_MIS

/-! ## The instruction of a phase -/

/-- The instruction in D/E is of class `k`, which does not branch, and the pipe does not sleep. -/
structure Owned (de : DeT) (q : ExQ) (k : OpKind) : Prop where
  valid : de.valid = true
  is : de.Is k
  awake : q.wfiHalt = false
  straight : k.flags.branch = false

theorem Captured.owned {de : DeT} {q : ExQ} (own : Captured de q) : ∃ k, Owned de q k := by
  rcases own.mem with is | is
  · exact ⟨.load, own.valid, is, own.awake, rfl⟩
  · exact ⟨.store, own.valid, is, own.awake, rfl⟩

namespace Phase

variable {p : Params} {de : DeT} {q : ExQ}

theorem accesses (phase : Phase p de q) (mem : q.state.IsMem) : Captured de q := by
  rcases mem with state | state | state
  · exact phase.launched state
  · exact phase.captured state
  · cases phase
    case trap _ own _ _ => exact own
    all_goals simp_all

theorem dividing (phase : Phase p de q) (busy : q.state = .DIV_BUSY) : de.valid = true ∧ q.wfiHalt = false := by
  cases phase
  case div _ valid _ awake _ => exact ⟨valid, awake⟩
  all_goals simp_all

/-- Only a memory instruction, a division or a CSR access has a state of its own. -/
theorem owned (phase : Phase p de q) (busy : q.state ≠ .IDLE) : ∃ k, Owned de q k := by
  cases phase with
  | idle state _ _ => exact absurd state busy
  | launch _ own _ => exact own.owned
  | trap _ own _ _ => exact own.owned
  | wait _ own _ _ => exact own.owned
  | div _ valid is awake _ => exact ⟨_, valid, is, awake, rfl⟩
  | csr _ valid is awake _ => exact ⟨_, valid, is, awake, rfl⟩

end Phase

/-! ## One cycle -/

namespace ExCyc

variable {e : ExCyc}

/-- What leaves the idle state starts something. -/
theorem starts_of (idle : e.q.state = .IDLE) (busy : e.next.state ≠ .IDLE) :
    e.aluStart = true ∨ e.memReqPending = true ∨ e.csrStart = true := by
  by_contra none
  simp only [not_or, Bool.not_eq_true] at none
  obtain ⟨start, pending, csr⟩ := none
  refine busy ?_
  simp [next, stateD_idle idle, start, memMisalignedLaunch, memCapture, dmemLoadHs, dmemLoadDrive, pending, csr]

theorem redirect_busy (busy : e.q.state ≠ .IDLE) (awake : e.q.wfiHalt = false) :
    e.trapRedirectReq = e.misalignedTrap := by
  have b := busy_wires busy awake
  rw [trapRedirectReq, b.sync, b.mret, b.int, Bool.or_false, Bool.or_false]

/-- Outside the idle state a misaligned access is all that flushes. -/
theorem flush_busy (phase : Phase e.p e.de e.q) (busy : e.q.state ≠ .IDLE) : e.flushO = e.misalignedTrap := by
  obtain ⟨k, own⟩ := phase.owned busy
  have train : e.cfResolving = false := by
    have straight : (e.de.branchType != .NONE) = false := own.is.branch.trans own.straight
    simp [cfResolving, straight]
  rw [flushO, branchValidO, mispredict, train, Bool.false_and, Bool.false_or, redirect_busy busy own.awake]

/-- The states that raise the trap. -/
theorem misalignedTrap_iff (phase : Phase e.p e.de e.q) : e.misalignedTrap = true ↔
    e.q.state = .MEM_TRAP ∨
      e.q.state = .MEM_LAUNCH ∧ e.p.lsuLiveLoad = false ∧ e.de.memMisalignedLive = true := by
  constructor
  · intro trap
    cases live : e.p.lsuLiveLoad with
    | true =>
      left
      exact (by simpa [misalignedTrap, live, inState] using trap : e.de.valid = true ∧ e.q.state = .MEM_TRAP).2
    | false =>
      right
      obtain ⟨-, state, misaligned⟩ : e.de.valid = true ∧ e.q.state = .MEM_LAUNCH ∧ e.memMisalignedQ = true := by
        simpa [misalignedTrap, live, inState] using trap
      rw [memMisalignedQ, (phase.launched state).addr] at misaligned
      exact ⟨state, rfl, misaligned⟩
  · rintro (state | ⟨state, live, misaligned⟩)
    · have own := phase.accesses (.inr (.inr state))
      simp [misalignedTrap, own.valid, phase.liveLoad state, inState, state]
    · have own := phase.launched state
      have latched : e.memMisalignedQ = true := by
        rw [memMisalignedQ, own.addr]
        exact misaligned
      simp [misalignedTrap, own.valid, live, inState, state, latched]

/-- What execute asks of the trap unit for a misaligned access. -/
theorem misaligned_trapIn (phase : Phase e.p e.de e.q) (trap : e.misalignedTrap = true) : e.trapIn =
    { takeTrap := true, takeInterrupt := false, mret := false, cause := e.de.misalignedCause, tval := e.de.effAddr,
      pc := e.de.pc } := by
  have mem : e.q.state.IsMem := by
    rcases (misalignedTrap_iff phase).mp trap with state | ⟨state, -, -⟩
    · exact .inr (.inr state)
    · exact .inl state
  have own := phase.accesses mem
  have b := busy_wires mem.busy own.awake
  have sync : e.syncTrapReq = true := b.sync.trans trap
  have addr : e.q.memAddr = e.de.effAddr := by
    rcases own.mem with is | is
    · exact own.addr.trans (DeT.lsuEa_eq is is.isMemOp)
    · exact own.addr.trans (DeT.lsuEa_eq is is.isMemOp)
  have cause : e.trapCause = e.de.misalignedCause := by
    rw [trapCause, b.int, if_neg (by simp), syncCause, trap, if_pos rfl, DeT.misalignedCause]
  have tval : e.trapTval = e.de.effAddr := by
    rw [trapTval, b.int, if_neg (by simp), syncTval, trap, if_pos rfl, addr]
  have pc : e.trapMepc = e.de.pc := by rw [trapMepc, own.awake, if_neg (by simp)]
  rw [trapIn, sync, b.int, b.mret, cause, tval, pc]

/-- A division that is under way commits, or gets on. -/
theorem div_busy (free : e.stallI = false) (phase : Phase e.p e.de e.q)
    (under : e.q.alu.Underway e.de.aluComb) (state : e.q.state = .DIV_BUSY) :
    e.opCommits = true ∨ e.opCommits = false ∧ e.next.state = .DIV_BUSY ∧ e.next.delay < e.q.delay := by
  obtain ⟨valid, awake⟩ := phase.dividing state
  have is := phase.is_div state
  cases outcome free phase with
  | bubble empty => rw [valid] at empty; cases empty
  | asleep halted => rw [awake] at halted; cases halted
  | interrupt idle => rw [state] at idle; cases idle
  | trap _ why =>
    rcases why with ⟨idle, -⟩ | ⟨idle | idle, -⟩ <;> rw [state] at idle <;> cases idle
  | hold _ _ _ calm inert =>
    exact .inr ⟨inert.commit, delay_div under state is (div_going valid is awake free calm inert)⟩
  | commit _ _ _ _ _ _ _ _ _ _ commit => exact .inl commit

/-- An illegal instruction retires nothing. -/
theorem illegal_inert (free : e.stallI = false) (phase : Phase e.p e.de e.q) (illegal : e.de.illegal = true) :
    e.Inert := by
  cases outcome free phase with
  | bubble _ _ _ _ _ inert => exact inert
  | asleep _ _ _ _ _ inert => exact inert
  | trap _ _ _ _ _ inert => exact inert
  | interrupt _ _ _ _ _ _ _ inert => exact inert
  | hold _ _ _ _ inert => exact inert
  | commit k _ is nonexc =>
    rw [is.illegal nonexc] at illegal
    cases illegal

theorem csrWe_le (none : e.csrOpValid = false) : e.csrWe = false := by
  unfold csrWe
  split <;> simp [none]

/-- What a load writes back is cut out of the response on the port of its address, at its address. -/
theorem load_wbData (phase : Phase e.p e.de e.q) (mem : e.q.state.IsMem)
    (wb : e.wbEn = true) : e.wbData = e.de.loadData e.lsuRspWait.rdata e.de.lsuEa := by
  have own := phase.accesses mem
  have regWrite : e.de.regWrite = true := by
    simp only [wbEn, Bool.and_eq_true] at wb
    exact wb.1.1.1.2
  have load : e.de.Is .load := by
    rcases own.mem with is | is
    · exact is
    · rw [is.regWrite] at regWrite
      cases regWrite
  have src : e.de.wbSrc = .MEM := load.wbSrc rfl
  simp [wbData, wbEarly, src, own.addr]

/-- A misaligned access is in a state that raises the trap in the cycle after its launch. -/
theorem launch_misaligned (phase : Phase e.p e.de e.q) (pending : e.memReqPending = true)
    (misaligned : e.de.memMisalignedLive = true) :
    e.next.state = if e.p.lsuLiveLoad then .MEM_TRAP else .MEM_LAUNCH := by
  obtain ⟨⟨⟨⟨⟨valid, mem⟩, idle⟩, -⟩, -⟩, -⟩ : ((((e.de.valid = true ∧ e.de.isMemOp = true) ∧
      e.q.state = .IDLE) ∧ e.freeze = false) ∧ e.de.exception = false) ∧ e.q.wfiHalt = false := by
    simpa [memReqPending, inState] using pending
  obtain ⟨k, is⟩ := phase.formed valid
  have notDiv : e.de.isDivOp = false := by
    rw [is.isMemOp] at mem
    rw [is.isDivOp]
    cases k <;> first | rfl | cases mem
  change e.stateD = _
  rw [stateD_idle idle]
  cases live : e.p.lsuLiveLoad <;>
    simp [aluStart, notDiv, memMisalignedLaunch, memCapture, dmemLoadDrive, live, pending, misaligned]

end ExCyc

/-! ## The invariant -/

/-- Decode keeps the register as long as execute is busy. -/
theorem Core.Inv.keeps {p : Params} {c : Core} {i : CoreIn} (inv : c.Inv p)
    (busy : (c.exec p i).next.state ≠ .IDLE) : (c.next p i).dec.de = c.dec.de := by
  cases inv.outcome (i := i) with
  | bubble _ _ _ _ _ _ _ settles => exact absurd settles.state busy
  | asleep _ _ _ _ _ _ _ settles => exact absurd settles.state busy
  | trap _ _ _ _ _ _ _ settles => exact absurd settles.state busy
  | interrupt _ _ _ _ _ _ _ _ _ settles => exact absurd settles.state busy
  | hold _ _ stall calm inert => exact Core.de_stall (ExCyc.flush_calm calm inert.train) stall
  | commit _ _ _ _ _ _ _ _ _ _ _ _ _ _ _ _ settles => exact absurd settles.state busy

namespace Hart

variable {p : Params} {h : Hart} {i : HartIn}

/-- Execute's state knows the word in D/E, and how far its division is. -/
structure Inv (p : Params) (h : Hart) : Prop where
  phase : h.core.Inv p
  div : h.core.ex.state = .DIV_BUSY → h.core.ex.alu.Underway h.de.aluComb

theorem inv_reset : Inv p .reset := ⟨Core.inv_reset, nofun⟩

theorem Inv.keeps (inv : h.Inv p) (busy : (h.next p i).core.ex.state ≠ .IDLE) : (h.next p i).de = h.de :=
  Core.Inv.keeps (i := h.coreIn i) inv.phase busy

theorem Inv.next (inv : h.Inv p) : (h.next p i).Inv p := by
  refine ⟨Core.Inv.next (i := h.coreIn i) inv.phase, fun busy => ?_⟩
  rw [inv.keeps (by rw [busy]; simp)]
  exact ExCyc.underway_next (e := h.exec p i) inv.phase inv.div busy

/-! ## A misaligned access traps -/

/-- The cycle in which a misaligned access traps: the CSRs take the trap of this instruction, fetch goes to the
handler, and nothing else happens. -/
structure Traps (p : Params) (h : Hart) (i : HartIn) : Prop where
  entry : (h.exec p i).trapIn =
    { takeTrap := true, takeInterrupt := false, mret := false, cause := h.de.misalignedCause, tval := h.de.effAddr,
      pc := h.de.pc }
  mepc : (h.next p i).csr.regs.mepc = h.de.pc
  mcause : (h.next p i).csr.regs.mcause = h.de.misalignedCause
  mtval : (h.next p i).csr.regs.mtval = h.de.effAddr
  mstatus : (h.next p i).csr.regs.mstatus = h.csr.regs.mstatusEntry
  flush : (h.exec p i).flushO = true
  redirect : (h.exec p i).branchAddrO (h.trapRedirectAddr p i) = h.csr.regs.mtvecBase
  inert : (h.exec p i).Inert
  bus : (h.exec p i).offered = []
  state : (h.next p i).core.ex.state = .IDLE
  empty : (h.next p i).de = {}

theorem Inv.traps (inv : h.Inv p) (trap : (h.exec p i).misalignedTrap = true) : h.Traps p i := by
  have sync : (h.exec p i).syncTrapReq = true := by simp [ExCyc.syncTrapReq, trap]
  have redirect : (h.exec p i).trapRedirectReq = true := by simp [ExCyc.trapRedirectReq, sync]
  have flush : (h.exec p i).flushO = true := ExCyc.flush_redirect redirect
  have not : ¬ (h.exec p i).syncTrapReq = false := by simp [sync]
  have asks := ExCyc.misaligned_trapIn (e := h.exec p i) inv.phase trap
  have entry : (h.exec p i).trapIn.entry = true := by rw [asks]; rfl
  obtain ⟨mepc, mcause, mtval, mstatus⟩ := CsrRegs.next_entry (r := h.csr.regs) (i := h.csrIn p i) rfl entry
  rw [asks] at mepc mcause mtval
  cases ExCyc.outcome (e := h.exec p i) rfl inv.phase with
  | bubble _ _ _ _ calm => exact absurd calm.sync not
  | asleep _ _ _ _ calm => exact absurd calm.sync not
  | interrupt _ _ _ _ none => exact absurd none not
  | hold _ _ _ calm => exact absurd calm.sync not
  | commit _ _ _ _ _ _ _ none => exact absurd none not
  | trap _ _ _ _ _ inert bus settles =>
    refine ⟨asks, mepc, mcause, mtval, mstatus, flush, ?_, inert, bus, settles.state, Core.de_flush flush⟩
    rw [ExCyc.branchAddrO, redirect, if_pos rfl, trapRedirectAddr, asks]
    rfl

/-! ## Runs -/

variable (p : Params) (ins : ℕ → HartIn)

/-- The state before edge `n`, and its cycle. -/
def stateAt (n : ℕ) : Hart := Clocked.run (next p) reset ins n
def cycleAt (n : ℕ) : ExCyc := (stateAt p ins n).exec p (ins n)

/-- Execute was last idle in cycle `m` before `n`, and what is in D/E now was there then. -/
def Kept (m n : ℕ) : Prop :=
  Clocked.Since (fun k => (cycleAt p ins k).q.state = .IDLE) (fun k => (cycleAt p ins k).de) m n

/-- In cycle `n` a memory state owns the instruction in D/E. -/
structure Owns (n : ℕ) : Prop where
  launched : ∃ m, Kept p ins m n ∧ (cycleAt p ins m).memReqPending = true
  valid : (cycleAt p ins n).de.valid = true
  mem : (cycleAt p ins n).de.isMemOp = true
  running : (cycleAt p ins n).freeze = false
  awake : (cycleAt p ins n).q.wfiHalt = false
  addr : (cycleAt p ins n).q.memAddr = (cycleAt p ins n).de.lsuEa
  ea : (cycleAt p ins n).de.lsuEa = (cycleAt p ins n).de.effAddr
  target : (cycleAt p ins n).lsuRspWait =
    if (cycleAt p ins n).de.isPeriLive then (cycleAt p ins n).periRsp else (cycleAt p ins n).memRsp
  bytes : (cycleAt p ins n).wbEn = true → (cycleAt p ins n).wbData =
    (cycleAt p ins n).de.loadData (cycleAt p ins n).lsuRspWait.rdata (cycleAt p ins n).de.lsuEa
  flush : (cycleAt p ins n).flushO = true ↔ (cycleAt p ins n).q.state = .MEM_TRAP ∨
    (cycleAt p ins n).q.state = .MEM_LAUNCH ∧ p.lsuLiveLoad = false ∧ (cycleAt p ins n).de.memMisalignedLive = true
  raised : (cycleAt p ins n).misalignedTrap = (cycleAt p ins n).flushO
  trap : (cycleAt p ins n).misalignedTrap = true → (stateAt p ins n).Traps p (ins n)

/-- In cycle `n` a state has the instruction that `start` was for, and keeps it until it commits. -/
structure Holds (start : ExCyc → Bool) (n : ℕ) : Prop where
  launched : ∃ m, Kept p ins m n ∧ start (cycleAt p ins m) = true
  valid : (cycleAt p ins n).de.valid = true
  commits : ∃ m ≥ n, (cycleAt p ins m).opCommits = true ∧ ∀ k, n ≤ k → k ≤ m →
    (cycleAt p ins k).q.state = (cycleAt p ins n).q.state ∧ (cycleAt p ins k).de = (cycleAt p ins n).de ∧
      (cycleAt p ins k).flushO = false ∧ ((cycleAt p ins k).opCommits = true → k = m)

variable {p ins}

theorem inv_run (n : ℕ) : (stateAt p ins n).Inv p :=
  Clocked.run_invariant (Inv p) (fun _ _ => True) inv_reset (fun _ _ inv _ => inv.next) n fun _ _ => trivial

theorem phase_at (n : ℕ) : Phase p (cycleAt p ins n).de (cycleAt p ins n).q := (inv_run n).phase

theorem de_kept {n : ℕ} (busy : (cycleAt p ins (n + 1)).q.state ≠ .IDLE) :
    (cycleAt p ins (n + 1)).de = (cycleAt p ins n).de := (inv_run n).keeps busy

/-- A busy state was entered by what was started when execute was last idle. -/
theorem started {n : ℕ} (busy : (cycleAt p ins n).q.state ≠ .IDLE) : ∃ m, Kept p ins m n ∧
    ((cycleAt p ins m).aluStart = true ∨ (cycleAt p ins m).memReqPending = true ∨
      (cycleAt p ins m).csrStart = true) := by
  obtain ⟨m, kept⟩ : ∃ m, Kept p ins m n := by
    refine Clocked.since ?_ (fun _ => de_kept) busy
    rfl
  exact ⟨m, kept, ExCyc.starts_of kept.idle (kept.busy (m + 1) (Nat.lt_succ_self m) kept.before)⟩

theorem Kept.de {m n : ℕ} (kept : Kept p ins m n) : (cycleAt p ins m).de = (cycleAt p ins n).de :=
  kept.same m (le_refl m) (Nat.le_of_lt kept.before)

/-- The start of the instruction that is in D/E now. -/
theorem started_is {n : ℕ} {k : OpKind} (busy : (cycleAt p ins n).q.state ≠ .IDLE) (is : (cycleAt p ins n).de.Is k) :
    ∃ m, Kept p ins m n ∧ ((cycleAt p ins m).aluStart = true ∧ k.flags.div = true ∨
      (cycleAt p ins m).memReqPending = true ∧ (k.flags.memRead || k.flags.memWrite) = true ∨
        (cycleAt p ins m).csrStart = true ∧ k.flags.csrWren = true) := by
  obtain ⟨m, kept, start⟩ := started busy
  have was : (cycleAt p ins m).de.Is k := kept.de ▸ is
  refine ⟨m, kept, ?_⟩
  rcases start with start | pending | start
  · exact .inl ⟨start, was.isDivOp.symm.trans (ExCyc.start_is start)⟩
  · exact .inr (.inl ⟨pending, was.isMemOp.symm.trans (ExCyc.memReq_is pending)⟩)
  · exact .inr (.inr ⟨start, was.isCsrOp.symm.trans (ExCyc.csr_is start)⟩)

/-! ### Memory accesses -/

theorem owns {n : ℕ} (mem : (cycleAt p ins n).q.state.IsMem) : Owns p ins n := by
  have own := (phase_at n).accesses mem
  have flush := ExCyc.flush_busy (phase_at n) mem.busy
  have isMem : (cycleAt p ins n).de.isMemOp = true := (DeT.accesses own.mem).isMemOp
  obtain ⟨k, is, access⟩ : ∃ k, (cycleAt p ins n).de.Is k ∧ (k = .load ∨ k = .store) :=
    own.mem.elim (fun is => ⟨_, is, .inl rfl⟩) fun is => ⟨_, is, .inr rfl⟩
  obtain ⟨m, kept, start⟩ := started_is mem.busy is
  have pending : (cycleAt p ins m).memReqPending = true := by
    rcases start with ⟨-, other⟩ | ⟨pending, -⟩ | ⟨-, other⟩
    · rcases access with rfl | rfl <;> cases other
    · exact pending
    · rcases access with rfl | rfl <;> cases other
  refine ⟨⟨m, kept, pending⟩, own.valid, isMem, ?_, own.awake, own.addr, DeT.lsuEa_eq is isMem, ?_,
    ExCyc.load_wbData (phase_at n) mem, ?_, flush.symm, (inv_run n).traps⟩
  · have free : (cycleAt p ins n).stallI = false := rfl
    simp [ExCyc.freeze, ExCyc.wfiStall, free, own.awake]
  · rw [ExCyc.lsuRspWait, ExCyc.isPeriRsp, own.peri]
  · rw [flush, ExCyc.misalignedTrap_iff (phase_at n)]
    rfl

/-- A misaligned access traps in the cycle after its launch. -/
theorem misaligned_traps {n : ℕ} (pending : (cycleAt p ins n).memReqPending = true)
    (misaligned : (cycleAt p ins n).de.memMisalignedLive = true) :
    (cycleAt p ins (n + 1)).misalignedTrap = true := by
  have state : (cycleAt p ins (n + 1)).q.state = if p.lsuLiveLoad then .MEM_TRAP else .MEM_LAUNCH :=
    ExCyc.launch_misaligned (phase_at n) pending misaligned
  rw [ExCyc.misalignedTrap_iff (phase_at (n + 1))]
  cases live : p.lsuLiveLoad with
  | true =>
    rw [live, if_pos rfl] at state
    exact .inl state
  | false =>
    rw [live, if_neg (by simp)] at state
    refine .inr ⟨state, live, ?_⟩
    rw [de_kept (by simp [state])]
    exact misaligned

/-! ### Divisions and CSR accesses -/

/-- A cycle in `EX_DIV_BUSY` that does not retire the division is followed by another. -/
theorem div_stays {n : ℕ} (state : (cycleAt p ins n).q.state = .DIV_BUSY)
    (waits : (cycleAt p ins n).opCommits ≠ true) :
    (cycleAt p ins (n + 1)).q.state = .DIV_BUSY ∧ (cycleAt p ins (n + 1)).q.delay < (cycleAt p ins n).q.delay := by
  rcases ExCyc.div_busy (e := cycleAt p ins n) rfl (phase_at n) ((inv_run n).div state) state with commit | ⟨-, more⟩
  · exact absurd commit waits
  · exact more

theorem div_commits : Clocked.LeadsTo (fun n => (cycleAt p ins n).q.state = .DIV_BUSY)
    fun n => (cycleAt p ins n).opCommits = true := by
  intro n state
  cases commit : (cycleAt p ins n).opCommits with
  | true => exact ⟨n, le_refl n, commit⟩
  | false =>
    have waits : (cycleAt p ins n).opCommits ≠ true := by simp [commit]
    refine Clocked.LeadsTo.descend (P := fun n => (cycleAt p ins n).q.state = .DIV_BUSY ∧
      (cycleAt p ins n).opCommits ≠ true) (fun n => (cycleAt p ins n).q.delay) (fun n h => ?_) n ⟨state, waits⟩
    obtain ⟨more, less⟩ := div_stays h.1 h.2
    by_cases done : (cycleAt p ins (n + 1)).opCommits = true
    · exact .inl done
    · exact .inr ⟨⟨more, done⟩, less⟩

theorem div_holds {n : ℕ} (state : (cycleAt p ins n).q.state = .DIV_BUSY) : Holds p ins ExCyc.aluStart n := by
  have busy : (cycleAt p ins n).q.state ≠ .IDLE := by simp [state]
  have is := (phase_at n).is_div state
  obtain ⟨m, kept, start⟩ := started_is busy is
  have start : (cycleAt p ins m).aluStart = true := by
    rcases start with ⟨start, -⟩ | ⟨-, other⟩ | ⟨-, other⟩
    · exact start
    · cases other
    · cases other
  refine ⟨⟨m, kept, start⟩, ((phase_at n).dividing state).1, ?_⟩
  have stays : ∀ k, (cycleAt p ins k).q.state = .DIV_BUSY ∧ (cycleAt p ins k).de = (cycleAt p ins n).de →
      ¬ (cycleAt p ins k).opCommits = true →
      (cycleAt p ins (k + 1)).q.state = .DIV_BUSY ∧ (cycleAt p ins (k + 1)).de = (cycleAt p ins n).de := by
    intro k h waits
    have more := (div_stays h.1 waits).1
    exact ⟨more, (de_kept (by simp [more])).trans h.2⟩
  have calm : ∀ k, (cycleAt p ins k).q.state = .DIV_BUSY → (cycleAt p ins k).flushO = false := by
    intro k h
    rw [ExCyc.flush_busy (phase_at k) (by simp [h])]
    simp [ExCyc.misalignedTrap, ExCyc.inState, h]
  obtain ⟨k, later, last, commit, before⟩ := Clocked.LeadsTo.first
    (P := fun k => (cycleAt p ins k).q.state = .DIV_BUSY ∧ (cycleAt p ins k).de = (cycleAt p ins n).de)
    (fun k h => div_commits k h.1) stays ⟨state, rfl⟩
  refine ⟨k, later, commit, fun j hn hk => ?_⟩
  rcases Nat.lt_or_eq_of_le hk with lt | rfl
  · obtain ⟨⟨same, de⟩, waits⟩ := before j hn lt
    exact ⟨same.trans state.symm, de, calm j same, fun commits => absurd commits waits⟩
  · exact ⟨last.1.trans state.symm, last.2, calm j last.1, fun _ => rfl⟩

theorem csr_holds {n : ℕ} (state : (cycleAt p ins n).q.state = .CSR_WAIT) : Holds p ins ExCyc.csrStart n := by
  have busy : (cycleAt p ins n).q.state ≠ .IDLE := by simp [state]
  obtain ⟨valid, is, retires⟩ := ExCyc.csr_wait (e := cycleAt p ins n) rfl (phase_at n) state
  obtain ⟨m, kept, start⟩ := started_is busy is
  have start : (cycleAt p ins m).csrStart = true := by
    rcases start with ⟨-, other⟩ | ⟨-, other⟩ | ⟨start, -⟩
    · cases other
    · cases other
    · exact start
  refine ⟨⟨m, kept, start⟩, valid, n, le_refl n, retires.commit, fun k hn hk => ?_⟩
  obtain rfl : k = n := by omega
  refine ⟨rfl, rfl, ?_, fun _ => rfl⟩
  rw [ExCyc.flush_busy (phase_at k) busy]
  simp [ExCyc.misalignedTrap, ExCyc.inState, state]

/-! ### All of it -/

/-- The states of execute own the instruction in D/E, whatever the slaves and the interrupt lines do. In the states of a
memory access it is the one that was launched when execute was last idle, the pipe runs, the latched address is its
effective address, and only its own misaligned trap flushes, which is taken at once. `EX_DIV_BUSY` and `EX_CSR_WAIT`
keep theirs until it commits, and an illegal instruction retires nothing in any state. -/
theorem lsu_owns (p : Params) (ins : ℕ → HartIn) (n : ℕ) :
    ((cycleAt p ins n).q.state.IsMem → Owns p ins n) ∧
    ((cycleAt p ins n).memReqPending = true → (cycleAt p ins n).de.memMisalignedLive = true →
      (cycleAt p ins (n + 1)).misalignedTrap = true) ∧
    ((cycleAt p ins n).q.state = .DIV_BUSY → Holds p ins ExCyc.aluStart n) ∧
    ((cycleAt p ins n).q.state = .CSR_WAIT → Holds p ins ExCyc.csrStart n) ∧
    ((cycleAt p ins n).de.illegal = true → (cycleAt p ins n).opCommits = false ∧ (cycleAt p ins n).wbEn = false ∧
      (cycleAt p ins n).csrOpValid = false ∧ (cycleAt p ins n).csrWe = false) := by
  refine ⟨owns, misaligned_traps, div_holds, csr_holds, fun illegal => ?_⟩
  have inert := ExCyc.illegal_inert (e := cycleAt p ins n) rfl (phase_at n) illegal
  exact ⟨inert.commit, inert.wb, inert.csr, ExCyc.csrWe_le inert.csr⟩

/-- `lw x1, 4(x2)` again and again, on a D-mem that takes it and does not answer. -/
def loads : HartIn where
  fe := { valid := true, instr := 0x00412083, pc := 0, fault := false, predLo := false, predHi := false, ghr := 0,
          nextValid := false, nextInstr := 0, nextPc := 0, nextFault := false, nextPredHi := false,
          nextGhr := 0 }
  regRead := fun _ => 0x80
  bpLookup := fun _ => { phtTaken := false, rasValid := false, rasTop := 0, phtIndex := 0 }
  lines := { msip := false, mtip := false, meip := false }
  memRsp := { wready := true }
  periRsp := {}

theorem lsu_owns_load : (cycleAt .board (fun _ => loads) 2).q.memAddr = 0x84#32 ∧ Owns .board (fun _ => loads) 2 :=
  ⟨by decide, (lsu_owns .board (fun _ => loads) 2).1 (.inr (.inl (by decide)))⟩

end Hart

namespace Cpu

variable (p : Params) (m : DmemParams) (boot : Word) (s : Cpu) (ins : ℕ → CpuIn)

/-- The inputs of the hart in a run of the CPU. -/
def hartIns (n : ℕ) : HartIn := (Clocked.run (next p m) (s.reset boot) ins n).hartIn p m (ins n)

/-- In a run of the CPU its hart runs on them, -/
theorem cycleAt_hart (n : ℕ) : Hart.cycleAt p (hartIns p m boot s ins) n =
    (Clocked.run (next p m) (s.reset boot) ins n).exec p m (ins n) := by
  rw [← hart_exec, hart_run]
  rfl

/-- and so the states of execute own their instruction there. -/
theorem owns_run (n : ℕ) (mem : (Clocked.run (next p m) (s.reset boot) ins n).lsu.core.ex.state.IsMem) :
    Hart.Owns p (hartIns p m boot s ins) n := by
  refine Hart.owns ?_
  rw [cycleAt_hart]
  exact mem

end Cpu

end YarvUc
