import YarvUc.Clocked.Bits
import YarvUc.Clocked.Fifo
import YarvUc.Uart.Divisor

/-!
# The receive path

A frame that completes goes into the RX FIFO, unless the FIFO is full and no byte is read out
in that cycle; reads of `RXDATA` take the bytes out in their order. `RX_OVERRUN` stands for a
frame dropped since the last such read.
-/

namespace YarvUc

namespace UartQ

open Clocked

variable {u : UartParams}

/-- What the FIFO holds. -/
def rxList (q : UartQ u) : List (BitVec 8) := fifoList q.rxFifo q.rxWptr q.rxRptr

def rxOccupancy (q : UartQ u) : ℕ := occupancy q.rxWptr q.rxRptr

/-- The stop bit of a frame ends in this cycle. -/
def frameEnds (q : UartQ u) (i : UartIn) : Bool := q.rx.state == .STOP && (q.next i).rx.state == .IDLE

/-- The AR handshake of a read of `RXDATA`, and one that finds a byte. -/
def readsRx (q : UartQ u) (i : UartIn) : Bool :=
  i.axi.arvalid && (q.axiS i).arready && i.axi.araddr.extractLsb 4 2 == REG_RXDATA
def takesRx (q : UartQ u) (i : UartIn) : Bool := q.readsRx i && 0 < q.rxOccupancy

/-- A frame completes and finds no slot, not even one that is being freed. -/
def rxDrop (q : UartQ u) (i : UartIn) : Bool :=
  q.frameEnds i && q.rxOccupancy == 2 ^ u.rxPtrW && !q.takesRx i

/-- The frame of a cycle, but for a dropped one. -/
def rxKept (q : UartQ u) (i : UartIn) : List (BitVec 8) :=
  if q.frameEnds i && !q.rxDrop i then [q.rx.shift] else []

/-- The byte a read that finds one gets into the answer register. -/
def rxTaken (q : UartQ u) (i : UartIn) : List (BitVec 8) :=
  if q.takesRx i then [(q.next i).rdata.extractLsb 7 0] else []

variable {q : UartQ u} {i : UartIn}

/-! ## The FIFO -/

theorem rxReady_iff : q.rxReady = true ↔ 0 < q.rxOccupancy := by
  have empty : q.rxFifoEmpty = true ↔ q.rxOccupancy = 0 := by
    rw [rxFifoEmpty, beq_iff_eq, empty_iff]
    rfl
  rw [rxReady, Bool.not_eq_true', ← Bool.not_eq_true, empty]
  omega

theorem rxFifoFull_iff : q.rxFifoFull = true ↔ q.rxOccupancy = 2 ^ u.rxPtrW := by
  rw [rxOccupancy, ← full_iff, rxFifoFull, Bool.and_eq_true, bne_iff_ne, beq_iff_eq]
  rfl

/-- A full FIFO has a byte to read. -/
theorem full_ready (full : q.rxFifoFull = true) : q.rxReady = true := by
  have pos : 0 < 2 ^ u.rxPtrW := Nat.two_pow_pos _
  rw [rxReady_iff, rxFifoFull_iff.mp full]
  exact pos

/-! What a cycle does, on the slave's wires. -/

theorem frameEnds_eq : q.frameEnds i = q.rxFrameDone := by
  rw [frameEnds, rxFrameDone, RxQ.frameDone, next_rx]
  cases state : q.rx.state with
  | STOP =>
    rw [RxQ.next, state]
    by_cases last : q.rx.cnt = q.div <;> simp [last]
  | _ => rfl

theorem readsRx_eq : q.readsRx i = q.rxRead i := rfl

theorem takesRx_eq : q.takesRx i = q.rxFifoPop i := by
  have ready : decide (0 < q.rxOccupancy) = q.rxReady := by
    rw [Bool.eq_iff_iff, decide_eq_true_iff, rxReady_iff]
  rw [takesRx, readsRx_eq, ready, rxFifoPop]

theorem rxDrop_eq : q.rxDrop i = (q.rxFrameDone && q.rxFifoFull && !q.rxFifoPop i) := by
  have full : (q.rxOccupancy == 2 ^ u.rxPtrW) = q.rxFifoFull := by
    rw [Bool.eq_iff_iff, beq_iff_eq, rxFifoFull_iff]
  rw [rxDrop, frameEnds_eq, full, takesRx_eq]

/-- A byte is put in exactly when a frame is kept. -/
theorem rxKept_eq : q.rxKept i = if q.rxFifoPush i then [q.rx.shift] else [] := by
  rw [rxKept, rxDrop_eq, frameEnds_eq, rxFifoPush]
  cases q.rxFrameDone <;> cases q.rxFifoFull <;> cases q.rxFifoPop i <;> rfl

/-- The byte taken is the one at the head. -/
theorem rxTaken_eq : q.rxTaken i = if q.rxFifoPop i then [q.rxFifoHead] else [] := by
  rw [rxTaken, takesRx_eq]
  rcases Bool.eq_false_or_eq_true (q.rxFifoPop i) with pop | pop
  · have read : q.arHs i = true ∧ araddrIn i = REG_RXDATA := by
      simp only [rxFifoPop, rxRead, Bool.and_eq_true, beq_iff_eq] at pop
      exact pop.1
    have data : (q.next i).rdata = 0#24 ++ q.rxFifoHead := by
      change (if q.arHs i then q.rdataMux i else q.rdata) = _
      rw [if_pos read.1, rdataMux, if_pos read.2]
    have low : (0#24 ++ q.rxFifoHead).extractLsb 7 0 = q.rxFifoHead := by
      have value : (0#24 ++ q.rxFifoHead).toNat = q.rxFifoHead.toNat := by
        rw [BitVec.toNat_append_eq, BitVec.toNat_zero, Nat.zero_mul, Nat.zero_add]
      apply BitVec.eq_of_toNat_eq
      rw [BitVec.extractLsb_toNat, value, Nat.shiftRight_zero]
      exact Nat.mod_eq_of_lt q.rxFifoHead.isLt
    rw [data, low]
  · simp [pop]

/-- The FIFO before and after an edge. -/
theorem rxList_next (fits : q.rxOccupancy ≤ 2 ^ u.rxPtrW) :
    q.rxList ++ q.rxKept i = q.rxTaken i ++ (q.next i).rxList := by
  have some : q.rxFifoPop i = true → 0 < occupancy q.rxWptr q.rxRptr := by
    intro pop
    simp only [rxFifoPop, Bool.and_eq_true] at pop
    exact rxReady_iff.mp pop.2
  have room : q.rxFifoPush i = true → occupancy q.rxWptr q.rxRptr - (q.rxFifoPop i).toNat < 2 ^ u.rxPtrW := by
    intro push
    simp only [rxFifoPush, Bool.and_eq_true, Bool.or_eq_true, Bool.not_eq_true'] at push
    unfold rxOccupancy at fits
    rcases push.2 with free | pop
    · have other : occupancy q.rxWptr q.rxRptr ≠ 2 ^ u.rxPtrW := by
        intro full
        rw [rxFifoFull_iff.mpr full] at free
        cases free
      omega
    · have := some pop
      rw [pop, Bool.toNat_true]
      omega
  have cycle := fifoList_cycle q.rxFifo q.rx.shift some room
  have next : (q.next i).rxList = q.rxList.drop (q.rxFifoPop i).toNat ++ q.rxKept i := by
    rw [rxKept_eq]
    exact cycle
  rw [next, rxTaken_eq]
  rcases Bool.eq_false_or_eq_true (q.rxFifoPop i) with pop | pop
  · have head : q.rxList = q.rxFifoHead :: q.rxList.drop 1 := by
      rw [rxList, fifoList_pop (some pop)]
      rfl
    rw [pop, if_pos rfl, Bool.toNat_true, ← List.append_assoc]
    congr 1
  · rw [pop]
    rfl

theorem rxOccupancy_next (fits : q.rxOccupancy ≤ 2 ^ u.rxPtrW) : (q.next i).rxOccupancy ≤ 2 ^ u.rxPtrW := by
  have sizes := congrArg List.length (rxList_next (i := i) fits)
  have before : q.rxList.length = q.rxOccupancy := length_fifoList
  have after : (q.next i).rxList.length = (q.next i).rxOccupancy := length_fifoList
  rw [List.length_append, List.length_append, before, after, rxKept_eq, rxTaken_eq] at sizes
  rcases Bool.eq_false_or_eq_true (q.rxFifoPush i) with push | push
  · rw [push, if_pos rfl, List.length_singleton] at sizes
    simp only [rxFifoPush, Bool.and_eq_true, Bool.or_eq_true, Bool.not_eq_true'] at push
    rcases push.2 with free | pop
    · have other : q.rxOccupancy ≠ 2 ^ u.rxPtrW := by
        intro full
        rw [rxFifoFull_iff.mpr full] at free
        cases free
      omega
    · rw [pop, if_pos rfl, List.length_singleton] at sizes
      omega
  · rw [push, if_neg Bool.false_ne_true, List.length_nil] at sizes
    omega

theorem rx_run (q : UartQ u) (ins : ℕ → UartIn) (n : ℕ) :
    Clocked.log next rxKept q.reset ins n =
        Clocked.log next rxTaken q.reset ins n ++ (Clocked.run next q.reset ins n).rxList ∧
      (Clocked.run next q.reset ins n).rxOccupancy ≤ 2 ^ u.rxPtrW := by
  induction n with
  | zero =>
    have none : (q.reset).rxOccupancy = 0 := occupancy_self _
    have empty : (q.reset).rxList = [] := List.length_eq_zero_iff.mp (length_fifoList.trans none)
    constructor
    · exact empty.symm
    · rw [run_zero, none]
      exact Nat.zero_le _
  | succ n ih =>
    obtain ⟨same, fits⟩ := ih
    refine ⟨?_, rxOccupancy_next fits⟩
    rw [log_succ, log_succ, run_succ, same, List.append_assoc, rxList_next fits, List.append_assoc]

/-- A read of an empty FIFO leaves the read pointer, and the write pointer to the frames. -/
theorem empty_read (none : q.rxOccupancy = 0) :
    (q.next i).rxRptr = q.rxRptr ∧ (q.next i).rxWptr = if q.frameEnds i then q.rxWptr + 1 else q.rxWptr := by
  have empty : q.rxReady = false := by
    rw [← Bool.not_eq_true, rxReady_iff, none]
    exact Nat.lt_irrefl 0
  have stays : q.rxFifoPop i = false := by simp [rxFifoPop, empty]
  have room : q.rxFifoFull = false := by
    rcases Bool.eq_false_or_eq_true q.rxFifoFull with full | room
    · rw [full_ready full] at empty
      cases empty
    · exact room
  have push : q.rxFifoPush i = q.rxFrameDone := by simp [rxFifoPush, room]
  constructor
  · simp [next, stays]
  · simp [next, push, frameEnds_eq]

/-! ## The overrun flag -/

theorem overrun_next : (q.next i).rxOverrun = (q.rxDrop i || (q.rxOverrun && !q.readsRx i)) := by
  change (if q.rxFrameDone && q.rxFifoFull && !q.rxFifoPop i then true
    else if q.rxRead i then false else q.rxOverrun) = _
  rw [← rxDrop_eq, readsRx_eq]
  rcases Bool.eq_false_or_eq_true (q.rxDrop i) with drops | drops
  · simp [drops]
  · cases read : q.rxRead i <;> simp [drops]

theorem overrun_run (q : UartQ u) (ins : ℕ → UartIn) (n : ℕ) :
    (Clocked.run next q.reset ins n).rxOverrun = true ↔
      ∃ k < n, (Clocked.run next q.reset ins k).rxDrop (ins k) = true ∧
        ∀ j, k < j → j < n → (Clocked.run next q.reset ins j).readsRx (ins j) = false := by
  induction n with
  | zero =>
    constructor
    · intro h
      cases h
    · rintro ⟨k, hk, -⟩
      omega
  | succ n ih =>
    rw [run_succ, overrun_next, Bool.or_eq_true, Bool.and_eq_true, Bool.not_eq_true', ih]
    constructor
    · rintro (drop | ⟨⟨k, hk, drop, since⟩, quiet⟩)
      · exact ⟨n, by omega, drop, fun j _ _ => by omega⟩
      · refine ⟨k, by omega, drop, ?_⟩
        intro j hkj hj
        rcases Nat.lt_succ_iff_lt_or_eq.mp hj with before | rfl
        · exact since j hkj before
        · exact quiet
    · rintro ⟨k, hk, drop, since⟩
      rcases Nat.lt_succ_iff_lt_or_eq.mp hk with before | rfl
      · exact .inr ⟨⟨k, before, drop, fun j hkj hj => since j hkj (by omega)⟩, since n before (by omega)⟩
      · exact .inl drop

/-- The flag's bit of the answer to a read of `STATUS`. -/
theorem status_overrun (asks : q.arHs i = true) (status : araddrIn i = REG_STATUS) :
    (q.next i).rdata.getLsbD 2 = q.rxOverrun := by
  change (if q.arHs i then q.rdataMux i else q.rdata).getLsbD 2 = _
  rw [if_pos asks, rdataMux, if_neg (by rw [status]; decide), if_pos status]
  cases q.rxOverrun <;> cases q.rxReady <;> cases q.txReady <;> rfl

/-! ## Whole runs -/

/-- The receive path, for any depth, any line and any reads. The bytes taken by the reads of
`RXDATA` that find one, and behind them the FIFO's contents, are the frames received but for
those that completed on a full FIFO without such a read; every word read is handed out once, in
order; a read of an empty FIFO moves no pointer; the occupancy stays within the depth; and
`RX_OVERRUN` is set, and read, exactly when a frame has been dropped since the last read of
`RXDATA`. -/
theorem receives (u : UartParams) (q : UartQ u) (ins : ℕ → UartIn) (n : ℕ) :
    let c := Clocked.run next q.reset ins
    let taken := Clocked.log next rxTaken q.reset ins n
    let asked := Clocked.log next (fun q i => (q.asked i).toList) q.reset ins n
    let given := Clocked.log next (fun q i => Answer.given q.held i.axi.rready) q.reset ins n
    Clocked.log next rxKept q.reset ins n = taken ++ (c n).rxList ∧
      (c n).rxList.length = (c n).rxOccupancy ∧
      asked = given ++ (c n).held.toList ∧
      ((c n).rxOccupancy = 0 →
        (c (n + 1)).rxRptr = (c n).rxRptr ∧
          (c (n + 1)).rxWptr = if (c n).frameEnds (ins n) then (c n).rxWptr + 1 else (c n).rxWptr) ∧
      (c n).rxOccupancy ≤ 2 ^ u.rxPtrW ∧
      ((c n).arHs (ins n) = true → araddrIn (ins n) = REG_STATUS →
        (c (n + 1)).rdata.getLsbD 2 = (c n).rxOverrun) ∧
      ((c n).rxOverrun = true ↔
        ∃ k < n, (c k).rxDrop (ins k) = true ∧ ∀ j, k < j → j < n → (c j).readsRx (ins j) = false) := by
  intro c taken asked given
  obtain ⟨bytes, fits⟩ := rx_run q ins n
  have answers : asked = given ++ (c n).held.toList :=
    Answer.run (fun _ _ => held_next) (fun _ _ => asked_room) (s := q.reset) rfl ins n
  exact ⟨bytes, length_fifoList, answers, fun none => empty_read none, fits,
    fun asks status => status_overrun asks status, overrun_run q ins n⟩

/-- Frames of `A`, `B` and `C` back to back, for two slots; then a read of `STATUS` and two of
`RXDATA`. -/
def threeFrames (n : ℕ) : UartIn where
  axi := { araddr := if n = 61 then 0x8 else 0x4, arvalid := n ∈ [61, 62, 63], rready := true }
  rxd := 60 ≤ n || (0b1#1 ++ BitVec.ofNat 8 (0x41 + n / 20) ++ 0b0#1).getLsbD (n % 20 / 2)

theorem receives_threeFrames :
    let c := Clocked.run next (blank brief).reset threeFrames
    Clocked.log next rxTaken (blank brief).reset threeFrames 63 ++ (c 63).rxList = [0x41, 0x42] ∧
      (∃ k < 61, (c k).rxOccupancy = 2 ∧ (c k).rxDrop (threeFrames k) = true) ∧ (c 62).rdata.getLsbD 2 = true := by
  intro c
  obtain ⟨bytes, -⟩ := receives brief (blank brief) threeFrames 63
  obtain ⟨-, -, -, -, -, status, overrun⟩ := receives brief (blank brief) threeFrames 61
  have flag : (c 61).rxOverrun = true := by decide +kernel
  obtain ⟨k, hk, drop, -⟩ := overrun.mp flag
  refine ⟨bytes.symm.trans (by decide +kernel), ⟨k, hk, ?_, drop⟩, ?_⟩
  · simp only [rxDrop, Bool.and_eq_true, beq_iff_eq] at drop
    exact drop.1.2
  · exact (status (by decide +kernel) (by decide)).trans flag

end UartQ

end YarvUc
