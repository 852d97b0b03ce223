import YarvUc.Execute.Cycle

/-!
# Execute at its peripheral port

What one cycle does there: it drives nothing, its request is refused, a load's or a store's
is taken, or a load waits for its word and gets it. A store retires with its request, a load
with its word.
-/

namespace YarvUc

/-- A load waits for the peripheral port. -/
def ExQ.onPeri (q : ExQ) : Bool := q.state == .MEM_WAIT && q.memIsPeri

/-- A retired access of the peripheral port: a store as it stands on the port, a load with the
word it got. -/
inductive PortOp where
  | store (addr data : Word) (strb : BitVec 4)
  | load (addr data : Word)
deriving DecidableEq

namespace ExCyc

/-- The access a cycle retires. -/
def portDone (e : ExCyc) : List PortOp :=
  if e.opCommits && e.de.isPeriLive then
    (if e.de.memWrite then [.store e.de.lsuEa e.de.storeWdata e.de.storeWstrb] else []) ++
      (if e.de.memRead then [.load e.de.lsuEa e.periRsp.rdata] else [])
  else []

variable {e : ExCyc}

/-- One cycle of the port. -/
inductive PortCycle (e : ExCyc) : Prop
  | still (before : e.q.onPeri = false) (req : e.periReq.wvalid = false) (done : e.portDone = [])
      (after : e.next.onPeri = false)
  | refused (before : e.q.onPeri = false) (req : e.periReq.wvalid = true) (ready : e.periRsp.wready = false)
      (done : e.portDone = []) (after : e.next.onPeri = false)
  | asks (before : e.q.onPeri = false) (req : e.periReq.wvalid = true) (ready : e.periRsp.wready = true)
      (read : e.periReq.we = false) (done : e.portDone = []) (after : e.next.onPeri = true)
      (addr : e.next.memAddr = e.periReq.addr)
  | stores (before : e.q.onPeri = false) (req : e.periReq.wvalid = true) (ready : e.periRsp.wready = true)
      (write : e.periReq.we = true)
      (done : e.portDone = [.store e.periReq.addr e.periReq.wdata e.periReq.wstrb]) (after : e.next.onPeri = false)
  | waits (before : e.q.onPeri = true) (req : e.periReq.wvalid = false) (open_ : e.periReq.rready = true)
      (silent : e.periRsp.rvalid = false) (done : e.portDone = []) (after : e.next.onPeri = true)
      (addr : e.next.memAddr = e.q.memAddr)
  | answered (before : e.q.onPeri = true) (req : e.periReq.wvalid = false) (open_ : e.periReq.rready = true)
      (word : e.periRsp.rvalid = true) (done : e.portDone = [.load e.q.memAddr e.periRsp.rdata])
      (after : e.next.onPeri = false)

/-! ## The wires of the port -/

theorem portDone_inert (inert : e.Inert) : e.portDone = [] := by
  rw [portDone, inert.commit]
  rfl

/-- What accesses no memory retires no access. -/
theorem portDone_other {k : OpKind} (is : e.de.Is k) (load : k ≠ .load) (store : k ≠ .store) : e.portDone = [] := by
  have read : e.de.memRead = false := is.memRead.trans (by cases k <;> first | rfl | exact absurd rfl load)
  have write : e.de.memWrite = false := is.memWrite.trans (by cases k <;> first | rfl | exact absurd rfl store)
  rw [portDone, read, write]
  cases e.opCommits && e.de.isPeriLive <;> rfl

theorem onPeri_settles (settles : e.Settles) : e.next.onPeri = false := by
  rw [ExQ.onPeri, settles.state]
  rfl

theorem onPeri_idle (idle : e.q.state ≠ .MEM_WAIT) : e.q.onPeri = false := by
  simp [ExQ.onPeri, idle]

/-- Only a captured request is driven there. -/
theorem periReq_undriven (captured : e.capturedDrive = false) : e.periReq.wvalid = false := by
  cases live : e.dmemLoadDrive <;> cases peri : e.isPeriRsp <;> simp [periReq, live, peri, captured]

theorem periReq_other (other : e.q.state ≠ .MEM_LAUNCH) : e.periReq.wvalid = false :=
  periReq_undriven (capturedDrive_other other)

theorem periReq_offered (none : e.offered = []) : e.periReq.wvalid = false := by
  cases valid : e.periReq.wvalid with
  | false => rfl
  | true => simp [offered, valid] at none

theorem periReq_accepted (none : e.accepted = []) : (e.periReq.wvalid && e.periRsp.wready) = false := by
  cases hs : e.periReq.wvalid && e.periRsp.wready with
  | false => rfl
  | true => simp [accepted, hs] at none

/-- The access accepted at one port. -/
theorem accepted_port {a : Access} (one : e.accepted = [a]) :
    a.peri = (e.periReq.wvalid && e.periRsp.wready) ∧ (a.peri = true → a = e.periReq.access true) := by
  cases dmem : e.memReq.wvalid && e.memRsp.wready <;> cases peri : e.periReq.wvalid && e.periRsp.wready <;>
    simp [accepted, dmem, peri] at one <;> subst one <;> simp [MemReq.access]

/-- What waits for the port reads it. -/
theorem periReq_open (phase : Phase e.p e.de e.q) (before : e.q.onPeri = true) : e.periReq.rready = true := by
  obtain ⟨wait, peri⟩ : e.q.state = .MEM_WAIT ∧ e.q.memIsPeri = true := by simpa [ExQ.onPeri] using before
  have read : e.de.memRead = true := (phase.is_load wait).memRead
  have live : e.dmemLoadDrive = false := by simp [dmemLoadDrive, memReqPending, inState, wait]
  simp [periReq, live, isPeriRsp, peri, readPhase, inState, wait, read]

theorem memKept (busy : e.q.state ≠ .IDLE) :
    e.next.memAddr = e.q.memAddr ∧ e.next.memIsPeri = e.q.memIsPeri := by
  have pending : e.memReqPending = false := by simp [memReqPending, inState, busy]
  simp [next, pending]

/-! ## One cycle -/

/-- A word that stays, with nothing taken. -/
theorem portCycle_hold (phase : Phase e.p e.de e.q) (inert : e.Inert) (none : e.accepted = [])
    (stays : e.next.state = .MEM_WAIT ↔ e.q.state = .MEM_WAIT) : e.PortCycle := by
  have done := portDone_inert inert
  have refused := periReq_accepted none
  by_cases wait : e.q.state = .MEM_WAIT
  · have req : e.periReq.wvalid = false := periReq_other (by simp [wait])
    obtain ⟨addr, peri⟩ := memKept (e := e) (by simp [wait])
    have same : e.next.onPeri = e.q.onPeri := by simp [ExQ.onPeri, peri, stays.mpr wait, wait]
    cases before : e.q.onPeri with
    | false => exact .still before req done (same.trans before)
    | true =>
      have peri : e.q.memIsPeri = true := by simpa [ExQ.onPeri, wait] using before
      have going : e.memDone = false := by
        cases finished : e.memDone with
        | false => rfl
        | true =>
          have idle : e.next.state = .IDLE := by simp [next, stateD, wait, finished]
          rw [stays.mpr wait] at idle
          cases idle
      have silent : e.periRsp.rvalid = false := by
        simpa [memDone, inState, wait, lsuRspWait, isPeriRsp, peri] using going
      exact .waits before req (periReq_open phase before) silent done (same.trans before) addr
  · have before := onPeri_idle wait
    have after : e.next.onPeri = false := by
      have other : e.next.state ≠ .MEM_WAIT := fun h => wait (stays.mp h)
      simp [ExQ.onPeri, other]
    cases req : e.periReq.wvalid with
    | false => exact .still before req done after
    | true =>
      rw [req, Bool.true_and] at refused
      exact .refused before req refused done after

/-- A load whose request is taken. -/
theorem portCycle_load (phase : Phase e.p e.de e.next) (inert : e.Inert) {a : Access} (one : e.accepted = [a])
    (mine : a.For e.de) (is : e.de.Is .load) (before : e.q.state ≠ .MEM_WAIT) (after : e.next.state = .MEM_WAIT) :
    e.PortCycle := by
  have own := phase.captured after
  obtain ⟨port, same⟩ := accepted_port one
  have next : e.next.onPeri = a.peri := by
    rw [ExQ.onPeri, after, own.peri, ← mine.peri]
    rfl
  have done := portDone_inert inert
  cases peri : a.peri with
  | false =>
    have free := port.symm.trans peri
    cases req : e.periReq.wvalid with
    | false => exact .still (onPeri_idle before) req done (next.trans peri)
    | true =>
      rw [req, Bool.true_and] at free
      exact .refused (onPeri_idle before) req free done (next.trans peri)
  | true =>
    have hs := port.symm.trans peri
    rw [Bool.and_eq_true] at hs
    have access := same peri
    have we : e.periReq.we = false := by
      have : a.we = false := mine.we.trans is.memWrite
      rw [access] at this
      exact this
    have addr : e.next.memAddr = e.periReq.addr := by
      have : a.addr = e.next.memAddr := mine.addr.trans own.addr.symm
      rw [access] at this
      exact this.symm
    exact .asks (onPeri_idle before) hs.1 hs.2 we done (next.trans peri) addr

/-- A store whose request is taken, and which retires with it. -/
theorem portCycle_store (is : e.de.Is .store) (state : e.q.state = .MEM_LAUNCH) (commit : e.opCommits = true)
    {a : Access} (one : e.accepted = [a]) (mine : a.For e.de) (settles : e.Settles) : e.PortCycle := by
  have before : e.q.onPeri = false := onPeri_idle (by simp [state])
  have after := onPeri_settles settles
  have write : e.de.memWrite = true := is.memWrite
  have read : e.de.memRead = false := is.memRead
  obtain ⟨port, same⟩ := accepted_port one
  cases peri : a.peri with
  | false =>
    have free := port.symm.trans peri
    have live : e.de.isPeriLive = false := mine.peri.symm.trans peri
    have done : e.portDone = [] := by simp [portDone, live]
    cases req : e.periReq.wvalid with
    | false => exact .still before req done after
    | true =>
      rw [req, Bool.true_and] at free
      exact .refused before req free done after
  | true =>
    have hs := port.symm.trans peri
    rw [Bool.and_eq_true] at hs
    have live : e.de.isPeriLive = true := mine.peri.symm.trans peri
    obtain ⟨wdata, wstrb⟩ := mine.lanes write
    have we := mine.we
    have addr := mine.addr
    rw [same peri] at wdata wstrb we addr
    have we' : e.periReq.we = true := we.trans write
    refine .stores before hs.1 hs.2 we' ?_ after
    rw [portDone, commit, live, write, read, ← wdata, ← wstrb, ← addr]
    rfl

/-- A load that retires with the word on its port. -/
theorem portCycle_retire (phase : Phase e.p e.de e.q) (is : e.de.Is .load) (state : e.q.state = .MEM_WAIT)
    (commit : e.opCommits = true) (mret : e.mretReq = false) (settles : e.Settles) : e.PortCycle := by
  have own := phase.captured state
  have req : e.periReq.wvalid = false := periReq_other (by simp [state])
  have after := onPeri_settles settles
  have write : e.de.memWrite = false := is.memWrite
  have read : e.de.memRead = true := is.memRead
  have before : e.q.onPeri = e.de.isPeriLive := by
    rw [ExQ.onPeri, state, own.peri]
    rfl
  cases live : e.de.isPeriLive with
  | false => exact .still (before.trans live) req (by simp [portDone, live]) after
  | true =>
    have ready : e.resultReady = true := by
      simp only [opCommits, mret, Bool.false_or, Bool.and_eq_true] at commit
      exact commit.1.2
    have word : e.periRsp.rvalid = true := by
      have isMem : e.de.isMemOp = true := is.isMemOp
      have peri : e.q.memIsPeri = true := own.peri.trans live
      simpa [resultReady, isMem, memOpDone, read, memDone, inState, state, lsuRspWait, isPeriRsp, peri] using ready
    refine .answered (before.trans live) req (periReq_open phase (before.trans live)) word ?_ after
    rw [portDone, commit, live, write, read, own.addr]
    rfl

theorem portCycle (free : e.stallI = false) (phase : Phase e.p e.de e.q) : e.PortCycle := by
  cases outcome free phase with
  | bubble valid awake idle stall calm inert bus settles halt =>
    exact .still (onPeri_idle (by simp [idle])) (periReq_offered bus) (portDone_inert inert) (onPeri_settles settles)
  | asleep halted quiet idle stall calm inert bus settles halt nextPc =>
    exact .still (onPeri_idle (by simp [idle])) (periReq_offered bus) (portDone_inert inert) (onPeri_settles settles)
  | trap valid why sync mret int inert bus settles halt =>
    have other : e.q.state ≠ .MEM_WAIT := by
      rcases why with ⟨state, -, -⟩ | ⟨state | state, -, -, -⟩ <;> simp [state]
    exact .still (onPeri_idle other) (periReq_offered bus) (portDone_inert inert) (onPeri_settles settles)
  | interrupt idle pending why nonexc sync mret int inert bus settles halt =>
    exact .still (onPeri_idle (by simp [idle])) (periReq_offered bus) (portDone_inert inert) (onPeri_settles settles)
  | hold valid awake stall calm inert next bus halt =>
    rcases bus with ⟨none, stays⟩ | ⟨a, one, mine, is, -, before, after⟩
    · exact portCycle_hold phase inert none stays
    · exact portCycle_load next inert one mine is before after
  | commit k valid is nonexc state awake stall sync int mret commit wb csr train bus memory settles halt =>
    by_cases load : k = .load
    · subst load
      exact portCycle_retire phase is state commit mret settles
    · by_cases store : k = .store
      · subst store
        rcases bus with ⟨-, a, one, mine⟩ | ⟨other, -⟩
        · exact portCycle_store is state commit one mine settles
        · exact absurd rfl other
      · have other : e.q.state ≠ .MEM_WAIT := by
          rw [state]
          exact fun h => load (OpKind.retiresFrom_wait.mp h)
        have launch : e.q.state ≠ .MEM_LAUNCH := by
          rw [state]
          cases k <;> simp_all [OpKind.retiresFrom]
        exact .still (onPeri_idle other) (periReq_other launch) (portDone_other is load store) (onPeri_settles settles)

end ExCyc

end YarvUc
