import YarvUc.Uart.Channels

/-!
# The divisor register

A `BAUDDIV` write is latched and applied once both engines are idle. The latch is
cleared behind the write's `case`, so a write that commits in the cycle in which an
earlier one is applied is lost; no other is.
-/

namespace YarvUc

namespace UartQ

variable {u : UartParams}

/-- The divisor in a committed write: the low half of a `BAUDDIV` write that strobes byte 0. -/
def divValue (w : BitVec 3 × Word × BitVec 4) : Option (BitVec 16) :=
  if w.1 = REG_BAUDDIV ∧ w.2.2.getLsbD 0 = true then some (w.2.1.extractLsb 15 0) else none

/-- The divisor a cycle's write commits. -/
def divWrites (q : UartQ u) (i : UartIn) : List (BitVec 16) := (q.write i).toList.filterMap divValue

/-- The last of the divisors written, or the one of reset. -/
def lastDiv (u : UartParams) (written : List (BitVec 16)) : BitVec 16 := written.getLastD u.baudDivReset

/-- A write commits another value in the very cycle a pending one is applied, the first in
which both engines are idle. -/
def LostWrite (q : UartQ u) (i : UartIn) : Prop :=
  q.divPendingValid = true ∧ q.tx.state = .IDLE ∧ q.rx.state = .IDLE ∧ ∃ v ∈ q.divWrites i, v ≠ q.divPending

instance (q : UartQ u) (i : UartIn) : Decidable (q.LostWrite i) := inferInstanceAs (Decidable (_ ∧ _ ∧ _ ∧ _))

variable {q : UartQ u} {i : UartIn} {written : List (BitVec 16)}

theorem divApply_iff : q.divApply = true ↔ q.divPendingValid = true ∧ q.tx.state = .IDLE ∧ q.rx.state = .IDLE := by
  simp only [divApply, TxQ.idle, RxQ.idle, Bool.and_eq_true, beq_iff_eq, and_assoc]

theorem divWrites_eq :
    q.divWrites i = if q.bauddivWrite i then [(q.wdataEff i).extractLsb 15 0] else [] := by
  rw [divWrites, write, bauddivWrite, wrLowByte]
  by_cases sel : q.waddrEff i = REG_BAUDDIV <;> cases write : q.doWrite i <;>
    cases low : (q.wstrbEff i).getLsbD 0 <;> simp_all [divValue]

theorem lostWrite_iff : q.LostWrite i ↔
    q.divApply = true ∧ q.bauddivWrite i = true ∧ (q.wdataEff i).extractLsb 15 0 ≠ q.divPending := by
  rw [LostWrite, divApply_iff, divWrites_eq]
  cases q.bauddivWrite i <;> simp [and_assoc]

@[simp] theorem lastDiv_append (v : BitVec 16) : lastDiv u (written ++ [v]) = v := by
  simp [lastDiv]

/-- The divisor, and the pending one, are values that were written. -/
structure Written (written : List (BitVec 16)) (q : UartQ u) : Prop where
  div : q.div ∈ u.baudDivReset :: written
  pending : q.divPendingValid = true → q.divPending ∈ written

theorem Written.next (h : Written written q) : Written (written ++ q.divWrites i) (q.next i) := by
  have kept : ∀ v : BitVec 16, v ∈ u.baudDivReset :: written → v ∈ u.baudDivReset :: (written ++ q.divWrites i) := by
    intro v hv
    rw [← List.cons_append]
    exact List.mem_append_left _ hv
  constructor
  · rw [next_div]
    split
    · rename_i apply
      have valid : q.divPendingValid = true := by
        simp only [divApply, Bool.and_eq_true] at apply
        exact apply.1.1
      exact kept _ (List.mem_cons_of_mem _ (h.pending valid))
    · exact kept _ h.div
  · intro valid
    rw [next_divPendingValid] at valid
    rw [next_divPending]
    split at valid
    · cases valid
    · cases write : q.bauddivWrite i with
      | true => simp [divWrites_eq, write]
      | false =>
        rw [write, if_neg Bool.false_ne_true] at valid
        rw [if_neg Bool.false_ne_true]
        exact List.mem_append_left _ (h.pending valid)

/-- The last write is applied, or pending. -/
structure Current (written : List (BitVec 16)) (q : UartQ u) : Prop where
  applied : q.divPendingValid = false → q.div = lastDiv u written
  pending : q.divPendingValid = true → q.divPending = lastDiv u written

theorem Current.next (h : Current written q) (kept : ¬ q.LostWrite i) :
    Current (written ++ q.divWrites i) (q.next i) := by
  cases apply : q.divApply with
  | true =>
    have valid : q.divPendingValid = true := by
      simp only [divApply, Bool.and_eq_true] at apply
      exact apply.1.1
    refine ⟨fun _ => ?_, fun still => ?_⟩
    · have div : (q.next i).div = q.divPending := by rw [next_div, apply, if_pos rfl]
      rw [div]
      cases write : q.bauddivWrite i with
      | true =>
        rw [divWrites_eq, write, if_pos rfl, lastDiv_append]
        by_contra other
        exact kept (lostWrite_iff.mpr ⟨apply, write, fun same => other same.symm⟩)
      | false =>
        rw [divWrites_eq, write, if_neg Bool.false_ne_true, List.append_nil]
        exact h.pending valid
    · rw [next_divPendingValid, apply, if_pos rfl] at still
      cases still
  | false =>
    cases write : q.bauddivWrite i with
    | true =>
      refine ⟨fun clear => ?_, fun _ => ?_⟩
      · simp [apply, write] at clear
      · rw [divWrites_eq, write, if_pos rfl, lastDiv_append, next_divPending, write, if_pos rfl]
    | false =>
      have same : (q.next i).div = q.div ∧ (q.next i).divPending = q.divPending ∧
          (q.next i).divPendingValid = q.divPendingValid := by
        simp [apply, write]
      rw [divWrites_eq, write, if_neg Bool.false_ne_true, List.append_nil]
      refine ⟨fun clear => ?_, fun valid => ?_⟩
      · rw [same.1]
        exact h.applied (by rw [← same.2.2, clear])
      · rw [same.2.1]
        exact h.pending (by rw [← same.2.2, valid])

/-- A lost write shows in the next cycle. -/
theorem lost_shows (written : List (BitVec 16)) (lost : q.LostWrite i) :
    (q.next i).divPendingValid = false ∧ (q.next i).div ≠ lastDiv u (written ++ q.divWrites i) := by
  obtain ⟨apply, write, other⟩ := lostWrite_iff.mp lost
  constructor
  · rw [next_divPendingValid, apply, if_pos rfl]
  · rw [divWrites_eq, write, if_pos rfl, lastDiv_append, next_div, apply, if_pos rfl]
    exact fun same => other same.symm

/-- The divisors among the writes a run has committed before edge `n`. -/
def divLog (q : UartQ u) (ins : ℕ → UartIn) (n : ℕ) : List (BitVec 16) :=
  (Clocked.log next (fun q i => (q.write i).toList) q ins n).filterMap divValue

theorem divLog_succ (q : UartQ u) (ins : ℕ → UartIn) (n : ℕ) :
    divLog q ins (n + 1) = divLog q ins n ++ (Clocked.run next q ins n).divWrites (ins n) := by
  rw [divLog, Clocked.log_succ, List.filterMap_append]
  rfl

theorem written_run (q : UartQ u) (ins : ℕ → UartIn) (n : ℕ) :
    Written (divLog q.reset ins n) (Clocked.run next q.reset ins n) := by
  induction n with
  | zero => exact ⟨List.mem_cons_self, fun valid => by cases valid⟩
  | succ n ih =>
    rw [divLog_succ]
    exact ih.next

theorem current_run (q : UartQ u) (ins : ℕ → UartIn) (n : ℕ)
    (kept : ∀ k < n, ¬ (Clocked.run next q.reset ins k).LostWrite (ins k)) :
    Current (divLog q.reset ins n) (Clocked.run next q.reset ins n) := by
  induction n with
  | zero => exact ⟨fun _ => rfl, fun valid => by cases valid⟩
  | succ n ih =>
    rw [divLog_succ]
    exact (ih fun k hk => kept k (by omega)).next (kept n (by omega))

/-- The last `BAUDDIV` write survives. The writes of a run are those of its AW and W
handshakes, paired in order; up to `N` the divisor is the last one written whenever none is
pending, exactly when no write of the run commits another value in a cycle that applies a
pending one; and the divisor is never a value that was not written. -/
theorem last_write_survives (u : UartParams) (q : UartQ u) (ins : ℕ → UartIn) (N : ℕ) :
    let c := Clocked.run next q.reset ins
    let aws := Clocked.log next (fun q i => if q.awHs i then [awaddrIn i] else []) q.reset ins N
    let ws := Clocked.log next (fun q i => if q.wHs i then [(i.axi.wdata, i.axi.wstrb)] else []) q.reset ins N
    let bs := Clocked.log next (fun q i => if q.bHs i then [()] else []) q.reset ins N
    let writes := Clocked.log next (fun q i => (q.write i).toList) q.reset ins N
    (c N).port.Accounts aws ws writes bs.length ∧
      ((∀ n ≤ N, (c n).divPendingValid = false → (c n).div = lastDiv u (divLog q.reset ins n)) ↔
        ∀ n < N, ¬ (c n).LostWrite (ins n)) ∧
      (c N).div ∈ u.baudDivReset :: divLog q.reset ins N := by
  intro c aws ws bs writes
  refine ⟨accounts_run q ins N, ⟨fun holds n hn lost => ?_, fun kept n hn => ?_⟩, (written_run q ins N).div⟩
  · obtain ⟨clear, wrong⟩ := lost_shows (divLog q.reset ins n) lost
    rw [← divLog_succ] at wrong
    exact wrong (holds (n + 1) hn clear)
  · exact (current_run q ins n fun k hk => kept k (by omega)).applied

/-- The instance of `uart_tb`: ten clocks a bit. -/
def tb : UartParams := { clkFreqHz := 1000, baudRate := 100, txPtrW := 4, rxPtrW := 4 }

/-- Two slots on each side and two clocks a bit. -/
def brief : UartParams := { clkFreqHz := 2, baudRate := 1, txPtrW := 1, rxPtrW := 1 }

/-- A `BAUDDIV` write of `v` with all strobes, both channels at once. -/
def writeDiv (v : BitVec 16) : UartIn where
  axi := { awaddr := 0x10, awvalid := true, wdata := v.setWidth 32, wstrb := 0b1111, wvalid := true, bready := true }
  rxd := true

/-- A glitch on the line keeps the receiver busy while 19 is written; 4 is written in the
cycle in which it is idle again. -/
def glitched (n : ℕ) : UartIn :=
  if n = 1 then { axi := {}, rxd := false }
  else if n = 2 then writeDiv 19
  else if n = 7 then writeDiv 4
  else { axi := { bready := true }, rxd := true }

/-- Flops and FIFOs of zeros. -/
def blank (u : UartParams) : UartQ u :=
  { div := 0, divPending := 0, divPendingValid := false, tx := .reset, rx := .reset, rxOverrun := false,
    txFifo := fun _ => 0, rxFifo := fun _ => 0, txWptr := 0, txRptr := 0, rxWptr := 0, rxRptr := 0, txIe := false,
    rxIe := false, awSeen := false, wSeen := false, wdata := 0, wstrb := 0, awaddrWord := 0, bvalid := false,
    rvalid := false, rdata := 0 }

/-- The second write is lost: the divisor stays 19. -/
theorem bauddiv_slip : ¬ ∀ (u : UartParams) (q : UartQ u) (ins : ℕ → UartIn) (n : ℕ),
    (Clocked.run next q.reset ins n).divPendingValid = false →
    (Clocked.run next q.reset ins n).div = lastDiv u (divLog q.reset ins n) := by
  intro h
  have := h tb (blank tb) glitched 8 (by decide +kernel)
  exact absurd this (by decide +kernel)

end UartQ

end YarvUc
