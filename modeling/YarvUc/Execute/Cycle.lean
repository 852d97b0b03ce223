import YarvUc.Execute.Word

/-!
# One cycle of execute

The states of the multi-cycle machine own the instruction in D/E: `Phase` says what
each of them knows of it. From a phase a cycle has one of six outcomes, and `outcome`
is the one place where the enables of `execute_stage` are evaluated; everything later
about execute is read off `Outcome`.
-/

namespace YarvUc

/-- An access a port offers or takes. -/
structure Access where
  peri : Bool
  we : Bool
  addr : Word
  wdata : Word
  wstrb : BitVec 4
deriving DecidableEq

def MemReq.access (r : MemReq) (peri : Bool) : Access :=
  { peri := peri, we := r.we, addr := r.addr, wdata := r.wdata, wstrb := r.wstrb }

/-- The access is the instruction's: its port, direction, address, and a store's data and strobes. -/
structure Access.For (a : Access) (de : DeT) : Prop where
  peri : a.peri = de.isPeriLive
  we : a.we = de.memWrite
  addr : a.addr = de.lsuEa
  lanes : de.memWrite = true → a.wdata = de.storeWdata ∧ a.wstrb = de.storeWstrb

/-- What loads and stores have in common. -/
structure DeT.Accesses (de : DeT) : Prop where
  isMemOp : de.isMemOp = true
  exception : de.exception = false
  isDivOp : de.isDivOp = false
  isCsrOp : de.isCsrOp = false

theorem DeT.accesses {de : DeT} (mem : de.Is .load ∨ de.Is .store) : de.Accesses := by
  rcases mem with is | is
  · exact ⟨is.isMemOp, is.exception, is.isDivOp, is.isCsrOp⟩
  · exact ⟨is.isMemOp, is.exception, is.isDivOp, is.isCsrOp⟩

/-- The request flops hold the memory instruction in D/E. -/
structure Captured (de : DeT) (q : ExQ) : Prop where
  valid : de.valid = true
  mem : de.Is .load ∨ de.Is .store
  awake : q.wfiHalt = false
  div : q.alu.divState = .IDLE
  addr : q.memAddr = de.lsuEa
  peri : q.memIsPeri = de.isPeriLive
  wdata : q.memWdata = de.storeWdata
  wstrb : q.memWstrb = de.storeWstrb

/-- What each state knows of the instruction in D/E. -/
inductive Phase (p : Params) (de : DeT) (q : ExQ) : Prop
  | idle (state : q.state = .IDLE) (div : q.alu.divState = .IDLE) (formed : de.valid = true → de.Formed)
  | launch (state : q.state = .MEM_LAUNCH) (own : Captured de q)
      (live : p.lsuLiveLoad = true → de.memMisalignedLive = false ∧ (de.memRead = true → de.isPeriLive = true))
  | trap (state : q.state = .MEM_TRAP) (own : Captured de q) (live : p.lsuLiveLoad = true)
      (misaligned : de.memMisalignedLive = true)
  | wait (state : q.state = .MEM_WAIT) (own : Captured de q) (load : de.Is .load)
      (aligned : de.memMisalignedLive = false)
  | div (state : q.state = .DIV_BUSY) (valid : de.valid = true) (is : de.Is .div) (awake : q.wfiHalt = false)
      (running : q.alu.divState ≠ .IDLE)
  | csr (state : q.state = .CSR_WAIT) (valid : de.valid = true) (is : de.Is .csr) (awake : q.wfiHalt = false)
      (div : q.alu.divState = .IDLE)

namespace Phase

variable {p : Params} {de : DeT} {q : ExQ}

theorem div_idle (phase : Phase p de q) (idle : q.state = .IDLE) : q.alu.divState = .IDLE := by
  cases phase
  case idle _ div _ => exact div
  all_goals simp_all

theorem launched (phase : Phase p de q) (launch : q.state = .MEM_LAUNCH) : Captured de q := by
  cases phase
  case launch _ own _ => exact own
  all_goals simp_all

theorem waiting (phase : Phase p de q) (wait : q.state = .MEM_WAIT) :
    Captured de q ∧ de.Is .load ∧ de.memMisalignedLive = false := by
  cases phase
  case wait _ own load aligned => exact ⟨own, load, aligned⟩
  all_goals simp_all

theorem is_load (phase : Phase p de q) (wait : q.state = .MEM_WAIT) : de.Is .load := (phase.waiting wait).2.1

theorem captured (phase : Phase p de q) (wait : q.state = .MEM_WAIT) : Captured de q := (phase.waiting wait).1

theorem is_div (phase : Phase p de q) (busy : q.state = .DIV_BUSY) : de.Is .div := by
  cases phase
  case div _ _ is _ _ => exact is
  all_goals simp_all

theorem reading (phase : Phase p de q) (wait : q.state = .CSR_WAIT) :
    de.valid = true ∧ de.Is .csr ∧ q.wfiHalt = false ∧ q.alu.divState = .IDLE := by
  cases phase
  case csr _ valid is awake div => exact ⟨valid, is, awake, div⟩
  all_goals simp_all

/-- `EX_MEM_TRAP` is there with the live load only. -/
theorem liveLoad (phase : Phase p de q) (trap : q.state = .MEM_TRAP) : p.lsuLiveLoad = true := by
  cases phase
  case trap _ _ live _ => exact live
  all_goals simp_all

end Phase

/-- The state an instruction retires from. -/
def OpKind.retiresFrom : OpKind → ExState
  | .load => .MEM_WAIT
  | .store => .MEM_LAUNCH
  | .csr => .CSR_WAIT
  | .div => .DIV_BUSY
  | _ => .IDLE

theorem OpKind.retiresFrom_wait {k : OpKind} : k.retiresFrom = .MEM_WAIT ↔ k = .load := by
  cases k <;> simp [retiresFrom]

namespace ExCyc

variable (e : ExCyc)

/-- The requests offered on the two ports. -/
def offered : List Access :=
  (if e.memReq.wvalid then [e.memReq.access false] else []) ++
    (if e.periReq.wvalid then [e.periReq.access true] else [])

/-- The requests accepted this cycle. -/
def accepted : List Access :=
  (if e.memReq.wvalid && e.memRsp.wready then [e.memReq.access false] else []) ++
    (if e.periReq.wvalid && e.periRsp.wready then [e.periReq.access true] else [])

/-- No trap entry and no mret. -/
structure Calm : Prop where
  sync : e.syncTrapReq = false
  mret : e.mretReq = false
  int : e.takeInterrupt = false

/-- Nothing retires: no writeback, no CSR write, no training. -/
structure Inert : Prop where
  commit : e.opCommits = false
  wb : e.wbEn = false
  csr : e.csrOpValid = false
  train : e.cfResolving = false

/-- Back in the idle state after the edge, the divider with it. -/
structure Settles : Prop where
  state : e.next.state = .IDLE
  div : e.next.alu.divState = .IDLE

/-- What becomes of the instruction in D/E in one cycle. -/
inductive Outcome : Prop
  /-- There is none. -/
  | bubble (valid : e.de.valid = false) (awake : e.q.wfiHalt = false) (idle : e.q.state = .IDLE)
      (stall : e.stallO = false) (calm : e.Calm) (inert : e.Inert) (bus : e.offered = []) (settles : e.Settles)
      (halt : e.next.wfiHalt = false)
  /-- The pipe sleeps behind a WFI. -/
  | asleep (halted : e.q.wfiHalt = true) (quiet : e.intPending = false) (idle : e.q.state = .IDLE)
      (stall : e.stallO = true) (calm : e.Calm) (inert : e.Inert) (bus : e.offered = []) (settles : e.Settles)
      (halt : e.next.wfiHalt = true)
      (nextPc : e.next.wfiNextPc = if e.de.valid && e.de.isWfiOp then e.de.pcLink else e.q.wfiNextPc)
  /-- It traps. -/
  | trap (valid : e.de.valid = true)
      (why : e.q.state = .IDLE ∧ e.misalignedTrap = false ∧ e.de.Is .exc ∨
        (e.q.state = .MEM_TRAP ∨ e.q.state = .MEM_LAUNCH) ∧ e.misalignedTrap = true ∧ Captured e.de e.q ∧
          e.de.memMisalignedLive = true)
      (sync : e.syncTrapReq = true) (mret : e.mretReq = false) (int : e.takeInterrupt = false) (inert : e.Inert)
      (bus : e.offered = []) (settles : e.Settles) (halt : e.next.wfiHalt = false)
  /-- An interrupt takes its place, or wakes the pipe. -/
  | interrupt (idle : e.q.state = .IDLE) (pending : e.intPending = true)
      (why : e.q.wfiHalt = true ∨ e.de.valid = true ∧ e.de.isWfiOp = false ∧ e.de.isMemOp = false)
      (nonexc : e.de.valid = true → e.de.exception = false) (sync : e.syncTrapReq = false) (mret : e.mretReq = false)
      (int : e.takeInterrupt = true) (inert : e.Inert) (bus : e.offered = []) (settles : e.Settles)
      (halt : e.next.wfiHalt = false)
  /-- It needs another cycle: its request was not taken yet, is taken now, or it waits. -/
  | hold (valid : e.de.valid = true) (awake : e.q.wfiHalt = false) (stall : e.stallO = true) (calm : e.Calm)
      (inert : e.Inert) (phase : Phase e.p e.de e.next)
      (bus : e.accepted = [] ∧ (e.next.state = .MEM_WAIT ↔ e.q.state = .MEM_WAIT) ∨
        ∃ a, e.accepted = [a] ∧ a.For e.de ∧ e.de.Is .load ∧ e.de.memMisalignedLive = false ∧
          e.q.state ≠ .MEM_WAIT ∧ e.next.state = .MEM_WAIT)
      (halt : e.next.wfiHalt = false)
  /-- It retires. -/
  | commit (k : OpKind) (valid : e.de.valid = true) (is : e.de.Is k) (nonexc : k ≠ .exc)
      (state : e.q.state = k.retiresFrom) (awake : e.q.wfiHalt = false ∨ k = .mret)
      (stall : e.stallO = false) (sync : e.syncTrapReq = false) (int : e.takeInterrupt = false)
      (mret : e.mretReq = k.flags.mret) (commit : e.opCommits = true) (wb : e.wbEn = k.flags.regWrite)
      (csr : e.csrOpValid = k.flags.csrWren) (train : e.cfResolving = k.flags.branch)
      (bus : k = .store ∧ (∃ a, e.accepted = [a] ∧ a.For e.de) ∨ k ≠ .store ∧ e.accepted = [])
      (memory : k = .load ∨ k = .store → Captured e.de e.q ∧ e.de.memMisalignedLive = false)
      (settles : e.Settles) (halt : e.next.wfiHalt = k.flags.wfi)

section Undriven

variable {e}

/-- Neither a live load nor a captured request: nothing on either port. -/
theorem offered_undriven (live : e.dmemLoadDrive = false) (captured : e.capturedDrive = false) : e.offered = [] := by
  cases hp : e.isPeriRsp <;> simp [offered, memReq, periReq, live, dmemCapturedDrive, captured, hp]

/-- The captured request is driven in `EX_MEM_LAUNCH` only. -/
theorem capturedDrive_other (other : e.q.state ≠ .MEM_LAUNCH) : e.capturedDrive = false := by
  simp [capturedDrive, memLaunchState, inState, other]

end Undriven

/-! ## Idle -/

section Idle

variable {e}

theorem stateD_idle (idle : e.q.state = .IDLE) : e.stateD =
    if e.aluStart then .DIV_BUSY
    else if e.memMisalignedLaunch then .MEM_TRAP
    else if e.memCapture then .MEM_LAUNCH
    else if e.dmemLoadHs then .MEM_WAIT
    else if e.csrStart then .CSR_WAIT
    else .IDLE := by
  simp [stateD, idle]

/-- The wires of the other states are low. -/
structure IdleWires (e : ExCyc) : Prop where
  misaligned : e.misalignedTrap = false
  drive : e.capturedDrive = false
  done : e.memOpDone = false
  store : e.storeDone = false
  div : e.divRunning = false
  mem : e.memRunning = false
  csr : e.csrReady = false
  launch : e.memLaunchState = false

theorem idle_wires (idle : e.q.state = .IDLE) : IdleWires e := by
  constructor <;>
    simp [misalignedTrap, capturedDrive, memLaunchState, memOpDone, memDone, storeDone, capturedHs, divRunning,
      memRunning, csrReady, inState, idle]

/-- No access pending: no request on either port. -/
theorem offered_idle (idle : e.q.state = .IDLE) (calm : e.memReqPending = false) : e.offered = [] := by
  refine offered_undriven ?_ (idle_wires idle).drive
  simp [dmemLoadDrive, calm]

theorem accepted_of_offered (h : e.offered = []) : e.accepted = [] := by
  simp only [offered, List.append_eq_nil_iff, ite_eq_right_iff, List.cons_ne_nil, imp_false] at h
  simp [accepted, h.1, h.2]

theorem alu_stays_idle (div : e.q.alu.divState = .IDLE) (start : e.aluStart = false) :
    (e.q.alu.next e.aluIn).divState = .IDLE := by
  simp [AluQ.next, div, aluIn, start]

theorem settles_idle (idle : e.q.state = .IDLE) (div : e.q.alu.divState = .IDLE) (start : e.aluStart = false)
    (pending : e.memReqPending = false) (csr : e.csrStart = false) : e.Settles := by
  refine ⟨?_, alu_stays_idle div start⟩
  simp [next, stateD_idle idle, start, memMisalignedLaunch, memCapture, dmemLoadHs, dmemLoadDrive, pending, csr]

/-- A frozen pipe starts nothing. -/
structure FrozenWires (e : ExCyc) : Prop where
  pending : e.memReqPending = false
  start : e.aluStart = false
  csrStart : e.csrStart = false
  inert : e.Inert

theorem frozen_wires (frozen : e.freeze = true) : FrozenWires e := by
  refine ⟨?_, ?_, ?_, ?_, ?_, ?_, ?_⟩ <;>
    simp [memReqPending, aluStart, csrStart, opCommits, mretReq, wbEn, csrOpValid, cfResolving, frozen]

theorem outcome_asleep (idle : e.q.state = .IDLE) (div : e.q.alu.divState = .IDLE) (free : e.stallI = false)
    (halted : e.q.wfiHalt = true) (quiet : e.intPending = false) : e.Outcome := by
  have stalled : e.wfiStall = true := by simp [wfiStall, halted, quiet]
  have frozen : e.freeze = true := by simp [freeze, stalled]
  have w := idle_wires idle
  have f := frozen_wires frozen
  have calm : e.Calm := by
    constructor <;> simp [syncTrapReq, mretReq, takeInterrupt, frozen, w.misaligned, quiet]
  have redirect : e.trapRedirectReq = false := by simp [trapRedirectReq, calm.sync, calm.mret, calm.int]
  have retire : e.wfiRetire = (e.de.valid && e.de.isWfiOp) := by
    simp [wfiRetire, inState, idle, redirect, free]
  refine .asleep halted quiet idle (by simp [stallO, stalled]) calm f.inert (offered_idle idle f.pending)
    (settles_idle idle div f.start f.pending f.csrStart) (by simp [next, halted, quiet]) ?_
  simp only [next, retire]

theorem outcome_bubble (idle : e.q.state = .IDLE) (div : e.q.alu.divState = .IDLE) (free : e.stallI = false)
    (awake : e.q.wfiHalt = false) (bubble : e.de.valid = false) : e.Outcome := by
  have w := idle_wires idle
  have pending : e.memReqPending = false := by simp [memReqPending, bubble]
  have start : e.aluStart = false := by simp [aluStart, bubble]
  have csrStart : e.csrStart = false := by simp [csrStart, bubble]
  have calm : e.Calm := by
    constructor <;> simp [syncTrapReq, mretReq, takeInterrupt, normalIntEligible, bubble, w.misaligned, awake]
  have inert : e.Inert := by
    constructor <;> simp [opCommits, calm.mret, wbEn, csrOpValid, cfResolving, bubble]
  refine .bubble bubble awake idle ?_ calm inert (offered_idle idle pending)
    (settles_idle idle div start pending csrStart) (by simp [next, wfiRetire, bubble, awake])
  simp [stallO, start, w.div, pending, w.launch, inState, idle, w.mem, csrStart, free, wfiStall, awake]

/-- A redirect of the trap unit: nothing starts and nothing but mret retires. -/
structure RedirectWires (e : ExCyc) : Prop where
  start : e.aluStart = false
  csrStart : e.csrStart = false
  wb : e.wbEn = false
  csr : e.csrOpValid = false
  train : e.cfResolving = false
  commit : e.opCommits = e.mretReq
  retire : e.wfiRetire = false

theorem redirect_wires (redirect : e.trapRedirectReq = true) : RedirectWires e := by
  constructor <;> simp [aluStart, csrStart, wbEn, csrOpValid, cfResolving, opCommits, wfiRetire, redirect]

/-- An excepting word traps, also at a wake. -/
theorem outcome_exc (idle : e.q.state = .IDLE) (div : e.q.alu.divState = .IDLE) (running : e.freeze = false)
    (valid : e.de.valid = true) (is : e.de.Is .exc) (wake : e.q.wfiHalt = true → e.intPending = true) : e.Outcome := by
  have w := idle_wires idle
  have exc : e.de.exception = true := is.exception
  have sync : e.syncTrapReq = true := by simp [syncTrapReq, valid, running, inState, idle, exc]
  have mret : e.mretReq = false := by simp [mretReq, is.isMretOp, OpKind.flags]
  have int : e.takeInterrupt = false := by simp [takeInterrupt, sync]
  have r := redirect_wires (e := e) (by simp [trapRedirectReq, sync])
  have pending : e.memReqPending = false := by simp [memReqPending, exc]
  refine .trap valid (.inl ⟨idle, w.misaligned, is⟩) sync mret int ⟨r.commit.trans mret, r.wb, r.csr, r.train⟩
    (offered_idle idle pending) (settles_idle idle div r.start pending r.csrStart) ?_
  cases hh : e.q.wfiHalt <;> simp_all [next, r.retire]

/-- An mret retires, also at a wake, where it takes the interrupt's place. -/
theorem outcome_mret (idle : e.q.state = .IDLE) (div : e.q.alu.divState = .IDLE) (free : e.stallI = false)
    (running : e.freeze = false) (valid : e.de.valid = true) (is : e.de.Is .mret)
    (wake : e.q.wfiHalt = true → e.intPending = true) : e.Outcome := by
  have w := idle_wires idle
  have exc : e.de.exception = false := is.exception
  have sync : e.syncTrapReq = false := by simp [syncTrapReq, exc, w.misaligned]
  have mret : e.mretReq = true := by
    simp [mretReq, valid, running, inState, idle, is.isMretOp, OpKind.flags]
  have int : e.takeInterrupt = false := by simp [takeInterrupt, mret]
  have r := redirect_wires (e := e) (by simp [trapRedirectReq, mret])
  have pending : e.memReqPending = false := by simp [memReqPending, is.isMemOp, OpKind.flags]
  have stalled : e.wfiStall = false := by simpa [freeze, free] using running
  refine .commit .mret valid is (by simp) idle (.inr rfl) ?_ sync int mret (r.commit.trans mret) r.wb r.csr r.train
    (.inr ⟨by simp, accepted_of_offered (offered_idle idle pending)⟩) (by simp)
    (settles_idle idle div r.start pending r.csrStart) ?_
  · simp [stallO, r.start, w.div, pending, w.launch, inState, idle, w.mem, r.csrStart, free, stalled]
  · cases hh : e.q.wfiHalt <;> simp_all [next, r.retire, OpKind.flags]

theorem outcome_interrupt (idle : e.q.state = .IDLE) (div : e.q.alu.divState = .IDLE) (free : e.stallI = false)
    (sync : e.syncTrapReq = false) (mret : e.mretReq = false) (int : e.takeInterrupt = true) : e.Outcome := by
  have r := redirect_wires (e := e) (by simp [trapRedirectReq, int])
  obtain ⟨pending, why⟩ : e.intPending = true ∧ (e.normalIntEligible = true ∨ e.q.wfiHalt = true) := by
    simpa [takeInterrupt, sync, mret] using int
  have running : e.freeze = false := by simp [freeze, free, wfiStall, pending]
  have launch : e.memReqPending = false := by
    rcases why with h | h
    · have mem : e.de.isMemOp = false := by
        simp only [normalIntEligible, Bool.and_eq_true, Bool.not_eq_true'] at h
        exact h.1.1.2
      simp [memReqPending, mem]
    · simp [memReqPending, h]
  refine .interrupt idle pending ?_ ?_ sync mret int ⟨r.commit.trans mret, r.wb, r.csr, r.train⟩
    (offered_idle idle launch) (settles_idle idle div r.start launch r.csrStart) (by simp [next, r.retire, pending])
  · rcases why with h | h
    · simp only [normalIntEligible, Bool.and_eq_true, Bool.not_eq_true'] at h
      exact .inr ⟨h.1.1.1.1.1, h.1.1.1.1.2, h.1.1.2⟩
    · exact .inl h
  · intro valid
    simpa [syncTrapReq, valid, running, inState, idle, (idle_wires idle).misaligned] using sync

/-! ## An awake instruction that nothing takes the place of -/

/-- The instruction goes ahead. -/
structure Proceeds (e : ExCyc) : Prop where
  valid : e.de.valid = true
  awake : e.q.wfiHalt = false
  free : e.stallI = false
  calm : e.Calm

namespace Proceeds

variable (g : Proceeds e)
include g

theorem running : e.freeze = false := by simp [freeze, g.free, wfiStall, g.awake]

theorem redirect : e.trapRedirectReq = false := by simp [trapRedirectReq, g.calm.sync, g.calm.mret, g.calm.int]

theorem commit : e.opCommits = e.resultReady := by
  simp [opCommits, g.calm.mret, g.valid, g.running, g.redirect]

theorem wb : e.wbEn = (e.de.regWrite && e.resultReady) := by
  simp [wbEn, g.valid, g.running, g.redirect]

theorem csr : e.csrOpValid = (e.de.csrWren && e.resultReady) := by
  simp [csrOpValid, g.valid, g.running, g.redirect]

theorem train {k : OpKind} (is : e.de.Is k) (nonexc : k ≠ .exc) : e.cfResolving = k.flags.branch := by
  simp [cfResolving, g.valid, g.running, g.redirect, is.branch, is.illegal nonexc]

theorem stall : e.stallO = (e.aluStart || e.divRunning || ((e.memReqPending || e.memLaunchState) && !e.storeDone) ||
    e.inState .MEM_TRAP || e.memRunning || e.csrStart) := by
  simp [stallO, g.free, wfiStall, g.awake]

/-- An instruction that is not ready retires nothing. -/
theorem inert {k : OpKind} (is : e.de.Is k) (nonexc : k ≠ .exc) (straight : k.flags.branch = false)
    (waits : e.resultReady = false) : e.Inert := by
  refine ⟨?_, ?_, ?_, ?_⟩
  · rw [g.commit, waits]
  · rw [g.wb, waits, Bool.and_false]
  · rw [g.csr, waits, Bool.and_false]
  · rw [g.train is nonexc, straight]

theorem halt {k : OpKind} (is : e.de.Is k) : e.next.wfiHalt = (k.flags.wfi && e.inState .IDLE) := by
  simp [next, wfiRetire, g.valid, g.redirect, g.free, g.awake, is.isWfiOp, Bool.and_comm]

theorem mem_inert (mem : e.de.Is .load ∨ e.de.Is .store) (waits : e.resultReady = false) : e.Inert := by
  rcases mem with is | is
  · exact g.inert is (by simp) rfl waits
  · exact g.inert is (by simp) rfl waits

theorem mem_halt (mem : e.de.Is .load ∨ e.de.Is .store) : e.next.wfiHalt = false := by
  rcases mem with is | is
  · exact g.halt is
  · exact g.halt is

end Proceeds

/-- Single-cycle classes. -/
theorem outcome_single (g : Proceeds e) (idle : e.q.state = .IDLE) (div : e.q.alu.divState = .IDLE) {k : OpKind}
    (is : e.de.Is k) (single : k = .cond ∨ k = .jump ∨ k = .wfi ∨ k = .alu ∨ k = .nop) : e.Outcome := by
  have w := idle_wires idle
  have pending : e.memReqPending = false := by
    rcases single with rfl | rfl | rfl | rfl | rfl <;> simp [memReqPending, is.isMemOp, OpKind.flags]
  have start : e.aluStart = false := by
    rcases single with rfl | rfl | rfl | rfl | rfl <;> simp [aluStart, is.isDivOp, OpKind.flags]
  have csrStart : e.csrStart = false := by
    rcases single with rfl | rfl | rfl | rfl | rfl <;> simp [ExCyc.csrStart, is.isCsrOp, OpKind.flags]
  have ready : e.resultReady = true := by
    rcases single with rfl | rfl | rfl | rfl | rfl <;>
      simp [resultReady, is.isMemOp, is.isCsrOp, OpKind.flags, aluResultValid, AluQ.resultValid,
        show e.de.aluComb.isDivOp = e.de.isDivOp from rfl, is.isDivOp]
  refine .commit k g.valid is (by rcases single with rfl | rfl | rfl | rfl | rfl <;> simp)
    (by rcases single with rfl | rfl | rfl | rfl | rfl <;> exact idle) (.inl g.awake) ?_ g.calm.sync g.calm.int
    ?_ (by rw [g.commit, ready]) ?_ ?_ (g.train is ?_) (.inr ⟨?_, accepted_of_offered (offered_idle idle pending)⟩) ?_
    (settles_idle idle div start pending csrStart) ?_
  · simp [g.stall, start, w.div, pending, w.launch, inState, idle, w.mem, csrStart]
  · rw [g.calm.mret]
    rcases single with rfl | rfl | rfl | rfl | rfl <;> rfl
  · rw [g.wb, ready, Bool.and_true, is.regWrite]
  · rw [g.csr, ready, Bool.and_true]
    exact is.isCsrOp
  · rcases single with rfl | rfl | rfl | rfl | rfl <;> simp
  · rcases single with rfl | rfl | rfl | rfl | rfl <;> simp
  · rcases single with rfl | rfl | rfl | rfl | rfl <;> simp
  · simp [g.halt is, inState, idle]

/-- A division starts. -/
theorem outcome_divStart (g : Proceeds e) (idle : e.q.state = .IDLE) (div : e.q.alu.divState = .IDLE)
    (is : e.de.Is .div) : e.Outcome := by
  have start : e.aluStart = true := by
    simp [aluStart, g.valid, is.isDivOp, OpKind.flags, inState, idle, g.running, g.redirect]
  have pending : e.memReqPending = false := by simp [memReqPending, is.isMemOp, OpKind.flags]
  have isDiv : e.de.aluComb.isDivOp = true := is.isDivOp
  have ready : e.resultReady = false := by
    simp [resultReady, is.isMemOp, is.isCsrOp, OpKind.flags, aluResultValid, AluQ.resultValid, isDiv, div]
  have isDiv' : e.aluIn.isDivOp = true := isDiv
  have running : e.next.alu.divState = .RUN := by
    simp [next, AluQ.next, div, isDiv', show e.aluIn.start = true from start]
  have state : e.next.state = .DIV_BUSY := by simp [next, stateD_idle idle, start]
  have halt : e.next.wfiHalt = false := by simp [g.halt is, OpKind.flags]
  exact .hold g.valid g.awake (by simp [g.stall, start]) g.calm (g.inert is (by simp) rfl ready)
    (.div state g.valid is halt (by simp [running]))
    (.inl ⟨accepted_of_offered (offered_idle idle pending), by simp [state, idle]⟩) halt

/-- A CSR access starts. -/
theorem outcome_csrStart (g : Proceeds e) (idle : e.q.state = .IDLE) (div : e.q.alu.divState = .IDLE)
    (is : e.de.Is .csr) : e.Outcome := by
  have start : e.csrStart = true := by
    simp [csrStart, g.valid, is.isCsrOp, OpKind.flags, inState, idle, g.running, g.redirect]
  have pending : e.memReqPending = false := by simp [memReqPending, is.isMemOp, OpKind.flags]
  have aluStart : e.aluStart = false := by simp [ExCyc.aluStart, is.isDivOp, OpKind.flags]
  have ready : e.resultReady = false := by
    simp [resultReady, is.isMemOp, is.isCsrOp, OpKind.flags, (idle_wires idle).csr]
  have state : e.next.state = .CSR_WAIT := by
    simp [next, stateD_idle idle, aluStart, memMisalignedLaunch, memCapture, dmemLoadHs, dmemLoadDrive, pending, start]
  have halt : e.next.wfiHalt = false := by simp [g.halt is, OpKind.flags]
  exact .hold g.valid g.awake (by simp [g.stall, start]) g.calm (g.inert is (by simp) rfl ready)
    (.csr state g.valid is halt (alu_stays_idle div aluStart))
    (.inl ⟨accepted_of_offered (offered_idle idle pending), by simp [state, idle]⟩) halt

/-- A memory access at its start: it is captured at the edge, whichever path it takes. -/
structure MemStart (e : ExCyc) : Prop where
  idle : e.q.state = .IDLE
  pending : e.memReqPending = true
  mem : e.de.Is .load ∨ e.de.Is .store
  own : Captured e.de e.next
  stall : e.stallO = true
  inert : e.Inert
  state : e.next.state = if e.memMisalignedLaunch then .MEM_TRAP else if e.memCapture then .MEM_LAUNCH
    else if e.dmemLoadHs then .MEM_WAIT else .IDLE

theorem memStart (g : Proceeds e) (idle : e.q.state = .IDLE) (div : e.q.alu.divState = .IDLE)
    (mem : e.de.Is .load ∨ e.de.Is .store) : e.MemStart := by
  have w := idle_wires idle
  have accesses := DeT.accesses mem
  have pending : e.memReqPending = true := by
    simp [memReqPending, g.valid, accesses.isMemOp, inState, idle, g.running, accesses.exception, g.awake]
  have start : e.aluStart = false := by simp [aluStart, accesses.isDivOp]
  have csrStart : e.csrStart = false := by simp [ExCyc.csrStart, accesses.isCsrOp]
  have own : Captured e.de e.next :=
    ⟨g.valid, mem, g.mem_halt mem, alu_stays_idle div start, by simp [next, pending], by simp [next, pending],
      by simp [next, pending], by simp [next, pending]⟩
  have waits : e.resultReady = false := by simp [resultReady, accesses.isMemOp, w.done]
  refine ⟨idle, pending, mem, own, by simp [g.stall, pending, w.store], g.mem_inert mem waits, ?_⟩
  rw [show e.next.state = e.stateD from rfl, stateD_idle idle]
  simp only [start, csrStart, Bool.false_eq_true, if_false]

/-- A misaligned access makes no request. -/
theorem outcome_misaligned (g : Proceeds e) (s : e.MemStart) (launch : e.memMisalignedLaunch = true) : e.Outcome := by
  obtain ⟨⟨live, -⟩, misaligned⟩ : (e.p.lsuLiveLoad = true ∧ e.memReqPending = true) ∧
      e.de.memMisalignedLive = true := by simpa [memMisalignedLaunch] using launch
  have drive : e.dmemLoadDrive = false := by simp [dmemLoadDrive, misaligned]
  have state : e.next.state = .MEM_TRAP := by simp [s.state, launch]
  have bus : e.offered = [] := offered_undriven drive (idle_wires s.idle).drive
  exact .hold g.valid g.awake s.stall g.calm s.inert (.trap state s.own live misaligned)
    (.inl ⟨accepted_of_offered bus, by simp [state, s.idle]⟩) s.own.awake

/-- A live load asks at once, and again in the next cycle if it is not accepted. -/
theorem outcome_live (g : Proceeds e) (s : e.MemStart) (launch : e.memMisalignedLaunch = false)
    (drive : e.dmemLoadDrive = true) : e.Outcome := by
  obtain ⟨⟨⟨⟨live, -⟩, aligned⟩, dmem⟩, read⟩ : (((e.p.lsuLiveLoad = true ∧ e.memReqPending = true) ∧
      e.de.memMisalignedLive = false) ∧ e.de.isPeriLive = false) ∧ e.de.memRead = true := by
    simpa [dmemLoadDrive] using drive
  have is : e.de.Is .load := by
    rcases s.mem with is | is
    · exact is
    · rw [is.memRead] at read
      cases read
  have write : e.de.memWrite = false := is.memWrite
  have capture : e.memCapture = false := by simp [memCapture, drive]
  have accepted : e.accepted = if e.memRsp.wready then
      [{ peri := false, we := false, addr := e.de.lsuEa, wdata := 0, wstrb := 0 }] else [] := by
    simp [ExCyc.accepted, memReq, periReq, drive, MemReq.access]
  have state : e.next.state = if e.memRsp.wready then .MEM_WAIT else .IDLE := by
    simp [s.state, launch, capture, dmemLoadHs, drive]
  cases taken : e.memRsp.wready with
  | true =>
    rw [taken, if_pos rfl] at accepted state
    exact .hold g.valid g.awake s.stall g.calm s.inert (.wait state s.own is aligned)
      (.inr ⟨_, accepted, ⟨dmem.symm, write.symm, rfl, by simp [write]⟩, is, aligned, by simp [s.idle], state⟩)
      s.own.awake
  | false =>
    rw [taken, if_neg (by simp)] at accepted state
    exact .hold g.valid g.awake s.stall g.calm s.inert (.idle state s.own.div fun _ => ⟨_, is⟩)
      (.inl ⟨accepted, by simp [state, s.idle]⟩) s.own.awake

/-- Every other access waits for the launch state. -/
theorem outcome_capture (g : Proceeds e) (s : e.MemStart) (launch : e.memMisalignedLaunch = false)
    (drive : e.dmemLoadDrive = false) : e.Outcome := by
  have capture : e.memCapture = true := by simp [memCapture, s.pending, drive, launch]
  have state : e.next.state = .MEM_LAUNCH := by simp [s.state, launch, capture]
  have bus : e.offered = [] := offered_undriven drive (idle_wires s.idle).drive
  refine .hold g.valid g.awake s.stall g.calm s.inert (.launch state s.own fun live => ?_)
    (.inl ⟨accepted_of_offered bus, by simp [state, s.idle]⟩) s.own.awake
  have aligned : e.de.memMisalignedLive = false := by simpa [memMisalignedLaunch, live, s.pending] using launch
  refine ⟨aligned, fun read => ?_⟩
  simpa [dmemLoadDrive, live, s.pending, aligned, read] using drive

/-- A memory access starts. -/
theorem outcome_memStart (g : Proceeds e) (idle : e.q.state = .IDLE) (div : e.q.alu.divState = .IDLE)
    (mem : e.de.Is .load ∨ e.de.Is .store) : e.Outcome := by
  have s := memStart g idle div mem
  cases launch : e.memMisalignedLaunch with
  | true => exact outcome_misaligned g s launch
  | false =>
    cases drive : e.dmemLoadDrive with
    | true => exact outcome_live g s launch drive
    | false => exact outcome_capture g s launch drive

/-- The outcomes of the idle state. -/
theorem outcome_idle (free : e.stallI = false) (idle : e.q.state = .IDLE) (div : e.q.alu.divState = .IDLE)
    (formed : e.de.valid = true → e.de.Formed) : e.Outcome := by
  by_cases asleep : e.q.wfiHalt = true ∧ e.intPending = false
  · exact outcome_asleep idle div free asleep.1 asleep.2
  have wake : e.q.wfiHalt = true → e.intPending = true := by simpa using asleep
  have running : e.freeze = false := by
    cases hh : e.q.wfiHalt <;> simp_all [freeze, wfiStall]
  cases valid : e.de.valid with
  | false =>
    cases hh : e.q.wfiHalt with
    | false => exact outcome_bubble idle div free hh valid
    | true =>
      have w := idle_wires idle
      have sync : e.syncTrapReq = false := by simp [syncTrapReq, valid, w.misaligned]
      have mret : e.mretReq = false := by simp [mretReq, valid]
      exact outcome_interrupt idle div free sync mret (by simp [takeInterrupt, sync, mret, hh, wake hh])
  | true =>
    obtain ⟨k, is⟩ := formed valid
    by_cases hexc : k = .exc
    · exact outcome_exc idle div running valid (hexc ▸ is) wake
    by_cases hmret : k = .mret
    · exact outcome_mret idle div free running valid (hmret ▸ is) wake
    have sync : e.syncTrapReq = false := by
      have : e.de.exception = false := by rw [is.exception]; cases k <;> first | rfl | contradiction
      simp [syncTrapReq, this, (idle_wires idle).misaligned]
    have mret : e.mretReq = false := by
      have : e.de.isMretOp = false := by rw [is.isMretOp]; cases k <;> first | rfl | contradiction
      simp [mretReq, this]
    cases int : e.takeInterrupt with
    | true => exact outcome_interrupt idle div free sync mret int
    | false =>
      have awake : e.q.wfiHalt = false := by
        cases hh : e.q.wfiHalt with
        | false => rfl
        | true => simp [takeInterrupt, wake hh, sync, mret, hh] at int
      have g : e.Proceeds := ⟨valid, awake, free, sync, mret, int⟩
      cases k with
      | exc => contradiction
      | mret => contradiction
      | load => exact outcome_memStart g idle div (.inl is)
      | store => exact outcome_memStart g idle div (.inr is)
      | csr => exact outcome_csrStart g idle div is
      | div => exact outcome_divStart g idle div is
      | cond | jump | wfi | alu | nop => exact outcome_single g idle div is (by simp)

end Idle

/-! ## The other states -/

section Busy

variable {e}

/-- Outside the idle state nothing new starts and only a misaligned access traps. -/
structure BusyWires (e : ExCyc) : Prop where
  pending : e.memReqPending = false
  drive : e.dmemLoadDrive = false
  start : e.aluStart = false
  csrStart : e.csrStart = false
  sync : e.syncTrapReq = e.misalignedTrap
  mret : e.mretReq = false
  int : e.takeInterrupt = false

theorem busy_wires (busy : e.q.state ≠ .IDLE) (awake : e.q.wfiHalt = false) : BusyWires e := by
  have idle : e.inState .IDLE = false := by simpa [inState] using busy
  constructor <;>
    simp [memReqPending, dmemLoadDrive, aluStart, csrStart, syncTrapReq, mretReq, takeInterrupt, normalIntEligible,
      idle, awake]

theorem proceeds_busy (busy : e.q.state ≠ .IDLE) (awake : e.q.wfiHalt = false) (valid : e.de.valid = true)
    (free : e.stallI = false) (aligned : e.misalignedTrap = false) : e.Proceeds :=
  have b := busy_wires busy awake
  ⟨valid, awake, free, b.sync.trans aligned, b.mret, b.int⟩

/-- The request flops keep what they hold. -/
theorem captured_kept (own : Captured e.de e.q) (pending : e.memReqPending = false) (halt : e.next.wfiHalt = false)
    (div : e.next.alu.divState = .IDLE) : Captured e.de e.next := by
  refine ⟨own.valid, own.mem, halt, div, ?_, ?_, ?_, ?_⟩
  · simp [next, pending, own.addr]
  · simp [next, pending, own.peri]
  · simp [next, pending, own.wdata]
  · simp [next, pending, own.wstrb]

theorem outcome_csr (free : e.stallI = false) (state : e.q.state = .CSR_WAIT) (valid : e.de.valid = true)
    (is : e.de.Is .csr) (awake : e.q.wfiHalt = false) (div : e.q.alu.divState = .IDLE) : e.Outcome := by
  have busy : e.q.state ≠ .IDLE := by simp [state]
  have b := busy_wires busy awake
  have g := proceeds_busy busy awake valid free (by simp [misalignedTrap, inState, state])
  have ready : e.resultReady = true := by
    simp [resultReady, is.isMemOp, is.isCsrOp, OpKind.flags, csrReady, inState, state]
  have bus : e.offered = [] := offered_undriven b.drive (capturedDrive_other (by simp [state]))
  refine .commit .csr valid is (by simp) state (.inl awake) ?_ g.calm.sync b.int b.mret (by rw [g.commit, ready])
    (by rw [g.wb, ready, is.regWrite]; rfl) ?_ (g.train is (by simp))
    (.inr ⟨by simp, accepted_of_offered bus⟩) (by simp) ⟨by simp [next, stateD, state], alu_stays_idle div b.start⟩
    (by simp [g.halt is, OpKind.flags])
  · simp [g.stall, b.start, b.pending, b.csrStart, divRunning, memLaunchState, memRunning, inState, state]
  · rw [g.csr, ready, Bool.and_true]
    exact is.isCsrOp

theorem outcome_div (free : e.stallI = false) (state : e.q.state = .DIV_BUSY) (valid : e.de.valid = true)
    (is : e.de.Is .div) (awake : e.q.wfiHalt = false) (running : e.q.alu.divState ≠ .IDLE) : e.Outcome := by
  have busy : e.q.state ≠ .IDLE := by simp [state]
  have b := busy_wires busy awake
  have g := proceeds_busy busy awake valid free (by simp [misalignedTrap, inState, state])
  have bus : e.offered = [] := offered_undriven b.drive (capturedDrive_other (by simp [state]))
  have isDiv : e.de.aluComb.isDivOp = true := is.isDivOp
  have ready : e.resultReady = e.aluResultValid := by
    simp [resultReady, is.isMemOp, is.isCsrOp, OpKind.flags]
  have halt : e.next.wfiHalt = false := by simp [g.halt is, OpKind.flags]
  have launch : e.memLaunchState = false := by simp [memLaunchState, inState, state]
  have mem : e.memRunning = false := by simp [memRunning, inState, state]
  have stall : e.stallO = !e.aluResultValid := by
    simp [g.stall, b.start, b.pending, b.csrStart, divRunning, launch, mem, inState, state]
  cases hd : e.q.alu.divState with
  | IDLE => exact absurd hd running
  | DONE =>
    have done : e.aluResultValid = true := by simp [aluResultValid, AluQ.resultValid, isDiv, hd]
    refine .commit .div valid is (by simp) state (.inl awake) (by rw [stall, done]; rfl) g.calm.sync b.int b.mret
      (by rw [g.commit, ready, done]) (by rw [g.wb, ready, done, is.regWrite]; rfl)
      (by rw [g.csr, ready, done, Bool.and_true]; exact is.isCsrOp) (g.train is (by simp))
      (.inr ⟨by simp, accepted_of_offered bus⟩) (by simp) ⟨?_, by simp [next, AluQ.next, hd]⟩ halt
    simp [next, stateD, state, done]
  | RUN =>
    have done : e.aluResultValid = false := by simp [aluResultValid, AluQ.resultValid, isDiv, hd]
    have next : e.next.state = .DIV_BUSY := by simp [ExCyc.next, stateD, state, done]
    refine .hold valid awake (by rw [stall, done]; rfl) g.calm
      (g.inert is (by simp) rfl (ready.trans done)) (.div next valid is halt ?_)
      (.inl ⟨accepted_of_offered bus, by simp [next, state]⟩) halt
    simp only [ExCyc.next, AluQ.next, hd]
    split <;> simp

/-- A misaligned access that is found out traps. -/
theorem outcome_raised (raises : e.q.state = .MEM_TRAP ∨ e.q.state = .MEM_LAUNCH) (own : Captured e.de e.q)
    (misaligned : e.de.memMisalignedLive = true) (trap : e.misalignedTrap = true) : e.Outcome := by
  have busy : e.q.state ≠ .IDLE := by rcases raises with state | state <;> simp [state]
  have b := busy_wires busy own.awake
  have r := redirect_wires (e := e) (by simp [trapRedirectReq, b.sync, trap])
  have bus : e.offered = [] := offered_undriven b.drive (by simp [capturedDrive, trap])
  have state : e.next.state = .IDLE := by rcases raises with state | state <;> simp [next, stateD, state, trap]
  exact .trap own.valid (.inr ⟨raises, trap, own, misaligned⟩) (b.sync.trans trap) b.mret b.int
    ⟨r.commit.trans b.mret, r.wb, r.csr, r.train⟩ bus ⟨state, alu_stays_idle own.div b.start⟩
    (by simp [next, r.retire, own.awake])

theorem outcome_trap (state : e.q.state = .MEM_TRAP) (own : Captured e.de e.q)
    (live : e.p.lsuLiveLoad = true) (misaligned : e.de.memMisalignedLive = true) : e.Outcome := by
  have trap : e.misalignedTrap = true := by simp [misalignedTrap, own.valid, live, inState, state]
  exact outcome_raised (.inl state) own misaligned trap

theorem outcome_wait (free : e.stallI = false) (state : e.q.state = .MEM_WAIT) (own : Captured e.de e.q)
    (is : e.de.Is .load) (aligned : e.de.memMisalignedLive = false) : e.Outcome := by
  have busy : e.q.state ≠ .IDLE := by simp [state]
  have b := busy_wires busy own.awake
  have g := proceeds_busy busy own.awake own.valid free (by simp [misalignedTrap, inState, state])
  have bus : e.offered = [] := offered_undriven b.drive (capturedDrive_other (by simp [state]))
  have ready : e.resultReady = e.memDone := by
    simp [resultReady, memOpDone, is.isMemOp, is.memRead, OpKind.flags]
  have launch : e.memLaunchState = false := by simp [memLaunchState, inState, state]
  have div : e.divRunning = false := by simp [divRunning, inState, state]
  have stall : e.stallO = !e.memDone := by
    simp [g.stall, b.start, b.pending, b.csrStart, launch, div, memRunning, inState, state]
  have halt : e.next.wfiHalt = false := by simp [g.halt is, OpKind.flags]
  have divIdle := alu_stays_idle own.div b.start
  cases done : e.memDone with
  | true =>
    refine .commit .load own.valid is (by simp) state (.inl own.awake) (by rw [stall, done]; rfl) g.calm.sync b.int
      b.mret (by rw [g.commit, ready, done]) (by rw [g.wb, ready, done, is.regWrite]; rfl)
      (by rw [g.csr, ready, done, Bool.and_true]; exact is.isCsrOp) (g.train is (by simp))
      (.inr ⟨by simp, accepted_of_offered bus⟩) (fun _ => ⟨own, aligned⟩)
      ⟨by simp [next, stateD, state, done], divIdle⟩ halt
  | false =>
    have next : e.next.state = .MEM_WAIT := by simp [ExCyc.next, stateD, state, done]
    exact .hold own.valid own.awake (by rw [stall, done]; rfl) g.calm (g.inert is (by simp) rfl (ready.trans done))
      (.wait next (captured_kept own b.pending halt divIdle) is aligned)
      (.inl ⟨accepted_of_offered bus, by simp [next, state]⟩) halt

/-- What the captured launch offers, on the latched port. -/
theorem offered_launch (drive : e.capturedDrive = true) (live : e.dmemLoadDrive = false) :
    e.offered = [{ peri := e.q.memIsPeri, we := e.de.memWrite, addr := e.q.memAddr, wdata := e.q.memWdata,
                   wstrb := e.q.memWstrb }] ∧
      e.accepted = if e.lsuRspWait.wready then e.offered else [] := by
  cases hp : e.q.memIsPeri <;>
    simp [offered, accepted, memReq, periReq, live, isPeriRsp, hp, dmemCapturedDrive, dmemStoreWe, drive,
      MemReq.access, lsuRspWait]

/-- An aligned access in `EX_MEM_LAUNCH`. -/
structure Launch (e : ExCyc) : Prop where
  state : e.q.state = .MEM_LAUNCH
  own : Captured e.de e.q
  trap : e.misalignedTrap = false
  aligned : e.de.memMisalignedLive = false
  proceeds : e.Proceeds
  wires : e.BusyWires

namespace Launch

variable (l : Launch e)
include l

theorem launching : e.memLaunchState = true := by simp [memLaunchState, inState, l.state]

theorem drive : e.capturedDrive = true := by simp [capturedDrive, l.launching, l.own.valid, l.trap]

theorem handshake : e.capturedHs = e.lsuRspWait.wready := by rw [capturedHs, l.drive, Bool.true_and]

theorem halt : e.next.wfiHalt = false := l.proceeds.mem_halt l.own.mem

theorem div : e.next.alu.divState = .IDLE := alu_stays_idle l.own.div l.wires.start

theorem kept : Captured e.de e.next := captured_kept l.own l.wires.pending l.halt l.div

/-- What is driven is the instruction's access. -/
theorem serves : Access.For { peri := e.q.memIsPeri, we := e.de.memWrite, addr := e.q.memAddr, wdata := e.q.memWdata,
                              wstrb := e.q.memWstrb } e.de :=
  ⟨l.own.peri, rfl, l.own.addr, fun _ => ⟨l.own.wdata, l.own.wstrb⟩⟩

theorem waits (done : e.memOpDone = false) : e.Inert := by
  refine l.proceeds.mem_inert l.own.mem ?_
  rw [resultReady, (DeT.accesses l.own.mem).isMemOp, if_pos rfl, done]

theorem stall (done : e.storeDone = false) : e.stallO = true := by simp [l.proceeds.stall, l.launching, done]

/-- A request that is not taken is made again. -/
theorem refused (live : e.p.lsuLiveLoad = true → e.de.memMisalignedLive = false ∧
    (e.de.memRead = true → e.de.isPeriLive = true)) (taken : e.lsuRspWait.wready = false) : e.Outcome := by
  have accepted : e.accepted = [] := by rw [(offered_launch l.drive l.wires.drive).2, taken, if_neg (by simp)]
  have hs : e.capturedHs = false := l.handshake.trans taken
  have state : e.next.state = .MEM_LAUNCH := by simp [next, stateD, l.state, l.trap, hs]
  have store : e.storeDone = false := by simp [storeDone, hs]
  have done : e.memOpDone = false := by simp [memOpDone, store, memDone, inState, l.state]
  exact .hold l.own.valid l.own.awake (l.stall store) l.proceeds.calm (l.waits done) (.launch state l.kept live)
    (.inl ⟨accepted, by simp [state, l.state]⟩) l.halt

/-- A load that is taken waits for its data. -/
theorem load (is : e.de.Is .load) (taken : e.lsuRspWait.wready = true) : e.Outcome := by
  obtain ⟨offered, accepted⟩ := offered_launch l.drive l.wires.drive
  rw [taken, if_pos rfl, offered] at accepted
  have read : e.de.memRead = true := is.memRead
  have write : e.de.memWrite = false := is.memWrite
  have hs : e.capturedHs = true := l.handshake.trans taken
  have state : e.next.state = .MEM_WAIT := by simp [next, stateD, l.state, l.trap, hs, read]
  have store : e.storeDone = false := by simp [storeDone, write]
  have done : e.memOpDone = false := by simp [memOpDone, read, memDone, inState, l.state]
  exact .hold l.own.valid l.own.awake (l.stall store) l.proceeds.calm (l.waits done) (.wait state l.kept is l.aligned)
    (.inr ⟨_, accepted, l.serves, is, l.aligned, by simp [l.state], state⟩) l.halt

/-- A store that is taken is over. -/
theorem store (is : e.de.Is .store) (taken : e.lsuRspWait.wready = true) : e.Outcome := by
  obtain ⟨offered, accepted⟩ := offered_launch l.drive l.wires.drive
  rw [taken, if_pos rfl, offered] at accepted
  have g := l.proceeds
  have read : e.de.memRead = false := is.memRead
  have write : e.de.memWrite = true := is.memWrite
  have hs : e.capturedHs = true := l.handshake.trans taken
  have state : e.next.state = .IDLE := by simp [next, stateD, l.state, l.trap, hs, read]
  have done : e.storeDone = true := by simp [storeDone, hs, write]
  have ready : e.resultReady = true := by simp [resultReady, (DeT.accesses l.own.mem).isMemOp, memOpDone, read, done]
  have div : e.divRunning = false := by simp [divRunning, inState, l.state]
  have wait : e.memRunning = false := by simp [memRunning, inState, l.state]
  have stall : e.stallO = false := by
    simp [g.stall, l.wires.start, div, done, wait, l.wires.csrStart, inState, l.state]
  exact .commit .store l.own.valid is (by simp) l.state (.inl l.own.awake) stall g.calm.sync l.wires.int l.wires.mret
    (by rw [g.commit, ready]) (by rw [g.wb, ready, is.regWrite]; rfl)
    (by rw [g.csr, ready, Bool.and_true]; exact is.isCsrOp) (g.train is (by simp))
    (.inl ⟨rfl, _, accepted, l.serves⟩) (fun _ => ⟨l.own, l.aligned⟩) ⟨state, l.div⟩ l.halt

end Launch

theorem outcome_launch (free : e.stallI = false) (state : e.q.state = .MEM_LAUNCH) (own : Captured e.de e.q)
    (live : e.p.lsuLiveLoad = true → e.de.memMisalignedLive = false ∧ (e.de.memRead = true → e.de.isPeriLive = true)) :
    e.Outcome := by
  have latched : e.memMisalignedQ = e.de.memMisalignedLive := by
    rw [memMisalignedQ, own.addr]
    rfl
  have raised : e.misalignedTrap = (!e.p.lsuLiveLoad && e.de.memMisalignedLive) := by
    cases hl : e.p.lsuLiveLoad <;> simp [misalignedTrap, own.valid, inState, state, latched, hl]
  cases trap : e.misalignedTrap with
  | true =>
    -- without the live load a misaligned access gets as far as this
    have misaligned : e.de.memMisalignedLive = true := by
      rw [raised, Bool.and_eq_true] at trap
      exact trap.2
    exact outcome_raised (.inr state) own misaligned trap
  | false =>
    have aligned : e.de.memMisalignedLive = false := by
      cases hl : e.p.lsuLiveLoad with
      | true => exact (live hl).1
      | false => simpa [raised, hl] using trap
    have busy : e.q.state ≠ .IDLE := by simp [state]
    have l : Launch e :=
      ⟨state, own, trap, aligned, proceeds_busy busy own.awake own.valid free trap, busy_wires busy own.awake⟩
    cases taken : e.lsuRspWait.wready with
    | false => exact l.refused live taken
    | true =>
      rcases own.mem with is | is
      · exact l.load is taken
      · exact l.store is taken

end Busy

/-- Every phase has one of the outcomes. -/
theorem outcome {e : ExCyc} (free : e.stallI = false) (phase : Phase e.p e.de e.q) : e.Outcome := by
  cases phase with
  | idle state div formed => exact outcome_idle free state div formed
  | launch state own live => exact outcome_launch free state own live
  | trap state own live misaligned => exact outcome_trap state own live misaligned
  | wait state own load aligned => exact outcome_wait free state own load aligned
  | div state valid is awake running => exact outcome_div free state valid is awake running
  | csr state valid is awake div => exact outcome_csr free state valid is awake div

end ExCyc

end YarvUc
