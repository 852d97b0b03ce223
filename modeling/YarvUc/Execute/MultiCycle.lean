import YarvUc.Execute.Divider
import YarvUc.Execute.Stays

/-!
# Instructions of several cycles

How execute gets on with a division and a CSR access once it has started them, and how many
cycles an instruction can take at most. None of it depends on what the rest of the CPU does
meanwhile.
-/

namespace YarvUc

/-! ## The divider -/

/-- How far the division of `i` is: some steps are done, or all of them. -/
def AluQ.Underway (i : AluIn) (q : AluQ) : Prop :=
  (∃ k ≤ 31, q.Running i k) ∨ q.Dividing i 32 ∧ q.divState = .DONE

namespace AluQ

variable {q : AluQ} {i j : AluIn}

/-- `start_i` is not an operand. -/
theorem Running.start {k : ℕ} {b : Bool} (h : q.Running { i with start := b } k) : q.Running i k :=
  ⟨⟨h.divA, h.divisor, h.neg, h.bz, h.rem⟩, h.state, h.count⟩

theorem Underway.next (h : q.Underway i) (run : q.divState = .RUN) : (q.next j).Underway i := by
  rcases h with ⟨k, hk, running⟩ | ⟨-, done⟩
  · by_cases last : k = 31
    · subst last
      exact .inr ⟨running.toDividing.step running.state (by omega), running.last⟩
    · exact .inl ⟨k + 1, by omega, running.step (by omega)⟩
  · rw [run] at done
    cases done

theorem Underway.result (h : q.Underway i) (div : i.isDivOp = true) (valid : q.resultValid i = true)
    (sharedDsp : Bool) : q.result i sharedDsp = i.aluOp.division i.operandA i.operandB := by
  have done : q.divState = .DONE := by simpa [resultValid, div] using valid
  rcases h with ⟨k, -, running⟩ | ⟨dividing, -⟩
  · rw [running.state] at done
    cases done
  · rw [result_div q sharedDsp div]
    exact divResult_eq dividing div

/-- Nothing but a division reads the divider. -/
theorem result_reset (notDiv : i.isDivOp = false) (sharedDsp : Bool) :
    q.result i sharedDsp = reset.result i sharedDsp := by
  simp only [result, notDiv, Bool.false_eq_true, if_false]

end AluQ

/-! ## What is left -/

/-- What is left of the instruction in execute. -/
def ExQ.delay (q : ExQ) : ℕ :=
  match q.state with
  | .IDLE => 36
  | .MEM_LAUNCH => 2
  | .DIV_BUSY => if q.alu.divState = .RUN then 33 - q.alu.divCnt.toNat else 1
  | .MEM_TRAP | .MEM_WAIT | .CSR_WAIT => 1

theorem ExQ.delay_le (q : ExQ) : q.delay ≤ 36 := by
  unfold ExQ.delay
  cases q.state <;> simp only <;> (try split) <;> omega

/-- Once started, every instruction takes less. -/
theorem ExQ.delay_busy {q : ExQ} (busy : q.state ≠ .IDLE) : q.delay < 36 := by
  unfold ExQ.delay
  cases state : q.state <;> simp only <;> (try split) <;> first | omega | exact absurd state busy

theorem DeT.Is.kind_csr {de : DeT} {k : OpKind} (is : de.Is k) (csr : de.isCsrOp = true) : k = .csr := by
  rw [is.isCsrOp] at csr
  cases k <;> first | rfl | cases csr

namespace ExCyc

variable {e : ExCyc}

/-! ## Start -/

theorem memReq_is (pending : e.memReqPending = true) : e.de.isMemOp = true := by
  simp only [memReqPending, Bool.and_eq_true] at pending
  exact pending.1.1.1.1.2

theorem start_is (start : e.aluStart = true) : e.de.isDivOp = true := by
  simp only [aluStart, Bool.and_eq_true] at start
  exact start.1.1.1.2

theorem csr_is (start : e.csrStart = true) : e.de.isCsrOp = true := by
  simp only [csrStart, Bool.and_eq_true] at start
  exact start.1.1.1.2

/-- A word that stays in the idle state starts something, or offers a live load. -/
theorem starts_or_drives (idle : e.q.state = .IDLE) (awake : e.q.wfiHalt = false) (free : e.stallI = false)
    (stall : e.stallO = true) : e.next.state ≠ .IDLE ∨ e.dmemLoadDrive = true ∧ e.dmemLoadHs = false := by
  have w := idle_wires idle
  have starts : e.aluStart = true ∨ e.memReqPending = true ∨ e.csrStart = true := by
    simpa [stallO, w.div, w.launch, w.mem, w.store, free, wfiStall, awake, inState, idle, or_assoc] using stall
  change e.stateD ≠ .IDLE ∨ _
  rw [stateD_idle idle]
  split_ifs with start misaligned capture live csr <;> try simp
  rcases starts with h | h | h
  · exact absurd h start
  · have drive : e.dmemLoadDrive = true := by
      simpa [memCapture, h, misaligned] using capture
    exact ⟨drive, by simpa using live⟩
  · exact absurd h csr

/-- When a live load is accepted, it starts something. -/
theorem starts_idle (idle : e.q.state = .IDLE) (awake : e.q.wfiHalt = false) (free : e.stallI = false)
    (ready : e.memRsp.wready = true) (stall : e.stallO = true) : e.next.state ≠ .IDLE := by
  rcases starts_or_drives idle awake free stall with moves | ⟨drive, waits⟩
  · exact moves
  · rw [dmemLoadHs, drive, ready] at waits
    cases waits

/-! ## Divisions -/

/-- `EX_DIV_BUSY` is entered by a division that starts, and left when it is done. -/
theorem divStart_of (next : e.next.state = .DIV_BUSY) :
    e.q.state = .IDLE ∧ e.aluStart = true ∨ e.q.state = .DIV_BUSY ∧ e.aluResultValid = false := by
  have state : e.stateD = .DIV_BUSY := next
  unfold stateD at state
  cases h : e.q.state <;> rw [h] at state <;> simp only at state
  case IDLE =>
    left
    refine ⟨rfl, ?_⟩
    split_ifs at state
    assumption
  case DIV_BUSY =>
    right
    refine ⟨rfl, ?_⟩
    split_ifs at state with done
    simpa using done
  all_goals (try split_ifs at state) <;> cases state

/-- A division gets on as long as it is not done. -/
theorem underway_next (phase : Phase e.p e.de e.q)
    (under : e.q.state = .DIV_BUSY → e.q.alu.Underway e.de.aluComb) (busy : e.next.state = .DIV_BUSY) :
    e.next.alu.Underway e.de.aluComb := by
  rcases divStart_of busy with ⟨idle, start⟩ | ⟨was, going⟩
  · have div : e.de.isDivOp = true := by
      simp only [aluStart, Bool.and_eq_true] at start
      exact start.1.1.1.2
    have launched := AluQ.launch (i := e.aluIn) (phase.div_idle idle) start div
    exact .inl ⟨0, by omega, launched.start⟩
  · have running : e.q.alu.divState = .RUN := by
      rcases under was with ⟨k, -, running⟩ | ⟨-, done⟩
      · exact running.state
      · have isDiv : e.de.aluComb.isDivOp = true := (phase.is_div was).isDivOp
        have ready : e.aluResultValid = true := by
          simp [aluResultValid, AluQ.resultValid, isDiv, done]
        rw [going] at ready
        cases ready
    exact (under was).next running

/-- A division that retires nothing is not done, -/
theorem div_going (valid : e.de.valid = true) (is : e.de.Is .div) (awake : e.q.wfiHalt = false)
    (free : e.stallI = false) (calm : e.Calm) (inert : e.Inert) : e.aluResultValid = false := by
  have running : e.freeze = false := by simp [freeze, wfiStall, free, awake]
  have commit := inert.commit
  simpa [opCommits, calm.mret, valid, running, redirect_calm calm, resultReady, is.isMemOp, is.isCsrOp, OpKind.flags]
    using commit

/-- and gets on. -/
theorem delay_div (under : e.q.alu.Underway e.de.aluComb) (state : e.q.state = .DIV_BUSY) (is : e.de.Is .div)
    (going : e.aluResultValid = false) : e.next.state = .DIV_BUSY ∧ e.next.delay < e.q.delay := by
  have isDiv : e.de.aluComb.isDivOp = true := is.isDivOp
  have state' : e.next.state = .DIV_BUSY := by
    simp [next, stateD, state, going]
  refine ⟨state', ?_⟩
  rcases under with ⟨k, hk, running⟩ | ⟨-, done⟩
  · have before : e.q.delay = 33 - k := by
      rw [ExQ.delay, state]
      simp only [running.state, if_true, running.count]
    have alu : e.next.alu = e.q.alu.next e.aluIn := rfl
    rw [before, ExQ.delay, state', alu]
    by_cases last : k = 31
    · subst last
      simp only [running.last, reduceCtorEq, if_false]
      omega
    · have more := running.step (j := e.aluIn) (show k < 31 by omega)
      simp only [more.state, if_true, more.count]
      omega
  · simp [aluResultValid, AluQ.resultValid, isDiv, done] at going

/-! ## CSR accesses -/

/-- `EX_CSR_WAIT` is entered by an access that starts. -/
theorem csrStart_of (next : e.next.state = .CSR_WAIT) : e.q.state = .IDLE ∧ e.csrStart = true := by
  have state : e.stateD = .CSR_WAIT := next
  unfold stateD at state
  cases h : e.q.state with
  | IDLE =>
    rw [h] at state
    simp only at state
    refine ⟨rfl, ?_⟩
    split_ifs at state
    assumption
  | MEM_LAUNCH =>
    rw [h] at state
    simp only at state
    split_ifs at state
  | DIV_BUSY =>
    rw [h] at state
    simp only at state
    split_ifs at state
  | MEM_WAIT =>
    rw [h] at state
    simp only at state
    split_ifs at state
  | MEM_TRAP =>
    rw [h] at state
    cases state
  | CSR_WAIT =>
    rw [h] at state
    cases state

/-- The cycle in which a CSR instruction retires. -/
structure CsrRetires (e : ExCyc) : Prop where
  calm : e.Calm
  commit : e.opCommits = true
  wb : e.wbEn = true
  csr : e.csrOpValid = true
  stall : e.stallO = false

/-- In `EX_CSR_WAIT` it retires. -/
theorem csr_wait (free : e.stallI = false) (phase : Phase e.p e.de e.q) (wait : e.q.state = .CSR_WAIT) :
    e.de.valid = true ∧ e.de.Is .csr ∧ e.CsrRetires := by
  obtain ⟨valid, is, awake, div⟩ := phase.reading wait
  cases ExCyc.outcome_csr free wait valid is awake div with
  | bubble _ _ idle => rw [idle] at wait; cases wait
  | asleep _ _ idle => rw [idle] at wait; cases wait
  | interrupt idle => rw [idle] at wait; cases wait
  | trap _ why =>
    rcases why with ⟨idle, -⟩ | ⟨idle | idle, -⟩ <;> rw [idle] at wait <;> cases wait
  | hold _ _ _ calm inert =>
    have ready : e.resultReady = true := by
      simp [resultReady, is.isMemOp, is.isCsrOp, OpKind.flags, csrReady, inState, wait]
    have commit := inert.commit
    simp [opCommits, valid, freeze, free, wfiStall, awake, ready, redirect_calm calm] at commit
  | commit k _ is' _ _ _ stall sync int mret commit wb csr =>
    obtain rfl := is'.kind_csr is.isCsrOp
    exact ⟨valid, is, ⟨sync, mret, int⟩, commit, wb, csr, stall⟩

end ExCyc

end YarvUc
