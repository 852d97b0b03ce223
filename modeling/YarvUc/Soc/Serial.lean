import YarvUc.Pipeline.Sleep
import YarvUc.Sequential.Attending
import YarvUc.Soc.Devices
import YarvUc.Uart.Receive

/-!
# The serial line from program to program

The bytes a program stores to `TXDATA` go out on the line in its order. Where the line ends in
another such circuit with the same divisor they come in there in that order, each a fixed time
after it was loaded, and are what that program's loads of `RXDATA` take, but for the ones its
RX FIFO has no slot for.
-/

namespace YarvUc

open Clocked

/-- The byte a read of `RXDATA` returns. -/
def DevOp.rxByte : DevOp → Option (BitVec 8)
  | .read k addr data =>
    if k = 0 ∧ addr.extractLsb 4 2 = REG_RXDATA then some (data.extractLsb 7 0) else none
  | _ => none

/-- The byte behind a store that has left the CPU before a full FIFO. -/
theorem Trip.late_tx (t : Trip) : (t.late.filterMap DevOp.txByte).length ≤ 1 ∧ t.ahead.filterMap DevOp.txByte = [] := by
  cases t with
  | blocked data strb => exact ⟨List.length_filterMap_le _ _, rfl⟩
  | _ => exact ⟨Nat.zero_le _, rfl⟩

namespace Soc

variable {u : UartParams} {p : Params} {m : DmemParams} {s : Soc u} {r : Bool}

/-! ## One cycle of the UART -/

theorem reads_txByte (k : BitVec 2) : (s.reads p m k).filterMap DevOp.txByte = [] := by
  rw [reads]
  split <;> rfl

theorem ops_txByte :
    (s.ops p m).filterMap DevOp.txByte = (s.uart.write (s.uartIn p m)).toList.filterMap UartQ.txByte := by
  have uart : s.writes p m 0 = (s.uart.write (s.uartIn p m)).toList.map fun w => .uart w.1 w.2.1 w.2.2 := rfl
  have timer : (s.writes p m 1).filterMap DevOp.txByte = [] := by
    rw [writes_timer]
    split <;> rfl
  have msip : (s.writes p m 2).filterMap DevOp.txByte = [] := by
    rw [writes_msip]
    split <;> rfl
  simp only [ops, List.filterMap_append, reads_txByte, timer, msip, List.append_nil]
  rw [uart]
  cases s.uart.write (s.uartIn p m) with
  | none => rfl
  | some w => rfl

theorem low_byte (b : BitVec 8) : (0#24 ++ b).extractLsb 7 0 = b := by
  have value : (0#24 ++ b).toNat = b.toNat := by
    rw [BitVec.toNat_append_eq, BitVec.toNat_zero, Nat.zero_mul, Nat.zero_add]
  apply BitVec.eq_of_toNat_eq
  rw [BitVec.extractLsb_toNat, value, Nat.shiftRight_zero]
  exact Nat.mod_eq_of_lt b.isLt

/-- A byte that leaves the RX FIFO is read by the program. -/
theorem taken_sublist : (s.uart.rxTaken (s.uartIn p m)).Sublist ((s.ops p m).filterMap DevOp.rxByte) := by
  rw [UartQ.rxTaken_eq]
  cases pop : s.uart.rxFifoPop (s.uartIn p m) with
  | false => exact List.nil_sublist _
  | true =>
    obtain ⟨⟨hs, sel⟩, -⟩ : (s.uart.arHs (s.uartIn p m) = true ∧ UartQ.araddrIn (s.uartIn p m) = REG_RXDATA) ∧
        s.uart.rxReady = true := by
      simpa [UartQ.rxFifoPop, UartQ.rxRead] using pop
    have read : s.reads p m 0 = [.read 0 (s.port p m 0).araddr (0#24 ++ s.uart.rxFifoHead)] := by
      have eq : s.reads p m 0 = if s.uart.arHs (s.uartIn p m) then
          [.read 0 (s.port p m 0).araddr (s.uart.rdataMux (s.uartIn p m))] else [] := rfl
      rw [eq, hs, if_pos rfl, UartQ.rdataMux, if_pos sel]
    have byte : DevOp.rxByte (.read 0 (s.port p m 0).araddr (0#24 ++ s.uart.rxFifoHead)) = some s.uart.rxFifoHead := by
      have addr : (s.port p m 0).araddr.extractLsb 4 2 = REG_RXDATA := sel
      rw [DevOp.rxByte, if_pos ⟨rfl, addr⟩]
      congr 1
      exact low_byte _
    have here : .read 0 (s.port p m 0).araddr (0#24 ++ s.uart.rxFifoHead) ∈ s.ops p m := by
      rw [ops, read]
      exact List.mem_append_left _ (List.mem_append_left _ (List.mem_append_right _ (List.mem_singleton.mpr rfl)))
    rw [if_pos rfl, List.singleton_sublist]
    exact List.mem_filterMap.mpr ⟨_, here, byte⟩

theorem bauddiv_op (write : s.uart.bauddivWrite (s.uartIn p m) = true) :
    ∃ data strb, .uart REG_BAUDDIV data strb ∈ s.ops p m := by
  obtain ⟨⟨write, sel⟩, -⟩ : (s.uart.doWrite (s.uartIn p m) = true ∧ s.uart.waddrEff (s.uartIn p m) = REG_BAUDDIV) ∧
      s.uart.wrLowByte (s.uartIn p m) = true := by
    simpa [UartQ.bauddivWrite] using write
  have uart : s.writes p m 0 = (s.uart.write (s.uartIn p m)).toList.map fun w => .uart w.1 w.2.1 w.2.2 := rfl
  refine ⟨s.uart.wdataEff (s.uartIn p m), s.uart.wstrbEff (s.uartIn p m), ?_⟩
  have here : .uart REG_BAUDDIV (s.uart.wdataEff (s.uartIn p m)) (s.uart.wstrbEff (s.uartIn p m)) ∈ s.writes p m 0 := by
    rw [uart, UartQ.write, write, if_pos rfl, sel]
    exact List.mem_singleton.mpr rfl
  rw [ops]
  exact List.mem_append_left _ (List.mem_append_left _ (List.mem_append_left _ here))

/-- `uart_rxd_sync_q` shifts. -/
theorem rxdSync_next (s : Soc u) (r : Bool) :
    (s.next p m r).rxdSync.getLsbD 0 = r ∧ (s.next p m r).rxdSync.getLsbD 1 = s.rxdSync.getLsbD 0 := by
  have eq : (s.next p m r).rxdSync = s.rxdSync.extractLsb' 0 1 ++ BitVec.ofBool r := rfl
  rw [eq]
  generalize s.rxdSync = q
  clear eq
  revert q r
  decide

/-! ## Whole runs -/

section Run

variable (p m) (s : Soc u) (i : ℕ → Bool)

/-- What the UART gets in cycle `n`. -/
def uartIns (n : ℕ) : UartIn := (run (next p m) s.start i n).uartIn p m

theorem uart_run (n : ℕ) : (run (next p m) s.start i n).uart =
    run UartQ.next s.uart.reset (uartIns p m s i) n :=
  run_part (show ∀ (s : Soc u) (r : Bool), (s.next p m r).uart = s.uart.next (s.uartIn p m) from fun _ _ => rfl) n

theorem uart_log {α : Type} (out : UartQ u → UartIn → List α) (n : ℕ) :
    log (next p m) (fun s _ => out s.uart (s.uartIn p m)) s.start i n =
      log UartQ.next out s.uart.reset (uartIns p m s i) n :=
  log_part (show ∀ (s : Soc u) (r : Bool), (s.next p m r).uart = s.uart.next (s.uartIn p m) from fun _ _ => rfl) out n

/-- The bytes loaded into the shift register, and the ones the program has stored for it. -/
def sent (n : ℕ) : List (BitVec 8) :=
  log (next p m) (fun s _ => s.uart.loads (s.uartIn p m)) s.start i n
def stored (n : ℕ) : List (BitVec 8) := ((retired p m s i n).flatMap PortOp.ops).filterMap DevOp.txByte

/-- The bytes of the frames that came in, those that found a slot, and those taken by a read. -/
def received (n : ℕ) : List (BitVec 8) :=
  log (next p m) (fun s _ => s.uart.received (s.uartIn p m)) s.start i n
def kept (n : ℕ) : List (BitVec 8) :=
  log (next p m) (fun s _ => s.uart.rxKept (s.uartIn p m)) s.start i n
def taken (n : ℕ) : List (BitVec 8) :=
  log (next p m) (fun s _ => s.uart.rxTaken (s.uartIn p m)) s.start i n

/-- No store that has retired goes to the divisor. -/
def KeepsDivisor : Prop := ∀ n data strb, .uart REG_BAUDDIV data strb ∉ (retired p m s i n).flatMap PortOp.ops

variable {p m s i}

theorem performed_txByte (n : ℕ) : (performed p m s i n).filterMap DevOp.txByte =
    (log (next p m) (fun s _ => (s.uart.write (s.uartIn p m)).toList) s.start i n).filterMap UartQ.txByte := by
  induction n with
  | zero => rfl
  | succ n ih =>
    have eq : performed p m s i (n + 1) = performed p m s i n ++ (run (next p m) s.start i n).ops p m := rfl
    rw [eq, log_succ, List.filterMap_append, List.filterMap_append, ops_txByte, ih]

/-- The program's bytes are on the line, in the FIFO or before it. -/
theorem stored_eq (n : ℕ) : ∃ late : List (BitVec 8), late.length ≤ 1 ∧
    stored p m s i n = sent p m s i n ++ (run (next p m) s.start i n).uart.txList ++ late ∧
    (run (next p m) s.start i n).uart.txOccupancy ≤ 2 ^ u.txPtrW := by
  obtain ⟨t, start, -, moves⟩ := trips p m s i
  have same := congrArg (List.filterMap DevOp.txByte) (trips_conserve start moves n)
  obtain ⟨short, none⟩ := (t n).late_tx
  rw [List.filterMap_append, List.filterMap_append, none, List.append_nil] at same
  obtain ⟨fifo, fits⟩ := UartQ.tx_run s.uart (uartIns p m s i) n
  refine ⟨(t n).late.filterMap DevOp.txByte, short, ?_, by rw [uart_run]; exact fits⟩
  rw [stored, same, performed_txByte, uart_log p m s i fun q i => (q.write i).toList, fifo, sent,
    uart_log p m s i UartQ.loads, uart_run]

theorem taken_run (n : ℕ) : (taken p m s i n).Sublist ((performed p m s i n).filterMap DevOp.rxByte) := by
  induction n with
  | zero => exact List.Sublist.refl _
  | succ n ih =>
    have eq : performed p m s i (n + 1) = performed p m s i n ++ (run (next p m) s.start i n).ops p m := rfl
    have more : taken p m s i (n + 1) = taken p m s i n ++
        (run (next p m) s.start i n).uart.rxTaken ((run (next p m) s.start i n).uartIn p m) := rfl
    rw [eq, more, List.filterMap_append]
    exact ih.append taken_sublist

theorem kept_eq (n : ℕ) :
    kept p m s i n = taken p m s i n ++ (run (next p m) s.start i n).uart.rxList := by
  rw [kept, uart_log p m s i UartQ.rxKept, (UartQ.rx_run s.uart (uartIns p m s i) n).1, taken,
    uart_log p m s i UartQ.rxTaken, uart_run]

/-- A frame without a slot is all that is lost. -/
theorem kept_received (n : ℕ) : (kept p m s i n).Sublist (received p m s i n) ∧
    ((∀ k < n, (run (next p m) s.start i k).uart.rxDrop (uartIns p m s i k) = false) →
      kept p m s i n = received p m s i n) := by
  induction n with
  | zero => exact ⟨List.Sublist.refl _, fun _ => rfl⟩
  | succ n ih =>
    obtain ⟨part, all⟩ := ih
    have more : kept p m s i (n + 1) = kept p m s i n ++
        (run (next p m) s.start i n).uart.rxKept (uartIns p m s i n) := rfl
    have came : received p m s i (n + 1) = received p m s i n ++
        (run (next p m) s.start i n).uart.received (uartIns p m s i n) := rfl
    rw [more, came]
    refine ⟨part.append ?_, fun room => ?_⟩
    · rw [UartQ.rxKept, UartQ.frameEnds_eq, UartQ.received]
      cases (run (next p m) s.start i n).uart.rxFrameDone <;>
        cases (run (next p m) s.start i n).uart.rxDrop (uartIns p m s i n) <;> simp
    · rw [all fun k hk => room k (by omega), UartQ.rxKept, UartQ.frameEnds_eq, room n (by omega), UartQ.received,
        Bool.not_false, Bool.and_true]

/-- The divisor stays what reset makes it. -/
theorem div_run (keeps : KeepsDivisor p m s i) (n : ℕ) :
    (run (next p m) s.start i n).uart.divPendingValid = false ∧
      (run (next p m) s.start i n).uart.div = u.baudDivReset := by
  induction n with
  | zero => exact ⟨rfl, rfl⟩
  | succ n ih =>
    obtain ⟨clear, div⟩ := ih
    have quiet : (run (next p m) s.start i n).uart.bauddivWrite ((run (next p m) s.start i n).uartIn p m) = false := by
      by_contra write
      rw [Bool.not_eq_false] at write
      obtain ⟨data, strb, here⟩ := bauddiv_op write
      obtain ⟨t, start, -, moves⟩ := trips p m s i
      have done : .uart REG_BAUDDIV data strb ∈ performed p m s i (n + 1) := List.mem_append_right _ here
      have either : .uart REG_BAUDDIV data strb ∈
          (retired p m s i (n + 1)).flatMap PortOp.ops ++ (t (n + 1)).ahead := by
        rw [trips_conserve start moves (n + 1)]
        exact List.mem_append_left _ done
      rcases List.mem_append.mp either with store | load
      · exact keeps (n + 1) data strb store
      · cases h : t (n + 1) <;> simp [h, Trip.ahead] at load
    rw [run_succ]
    refine ⟨?_, ?_⟩
    · change (if (run (next p m) s.start i n).uart.divApply then false
        else if (run (next p m) s.start i n).uart.bauddivWrite ((run (next p m) s.start i n).uartIn p m) then true
        else (run (next p m) s.start i n).uart.divPendingValid) = false
      rw [quiet, clear]
      simp
    · change (if (run (next p m) s.start i n).uart.divApply then
        (run (next p m) s.start i n).uart.divPending else (run (next p m) s.start i n).uart.div) = _
      rw [UartQ.divApply, clear, Bool.false_and, Bool.false_and]
      exact div

/-- The line goes through two flops. -/
theorem rxd_run (n : ℕ) : (uartIns p m s i n).rxd = if n < 2 then true else i (n - 2) := by
  have bits : ∀ n, (run (next p m) s.start i n).rxdSync.getLsbD 0 = if n < 1 then true else i (n - 1) := by
    intro n
    cases n with
    | zero =>
      rw [if_pos (by omega)]
      exact (show (0b11#2).getLsbD 0 = true by decide)
    | succ n =>
      rw [if_neg (by omega), Nat.add_sub_cancel]
      exact (rxdSync_next _ _).1
  cases n with
  | zero =>
    rw [if_pos (by omega)]
    have eq : (uartIns p m s i 0).rxd = s.start.rxdSync.getLsbD 1 := rfl
    rw [eq, show s.start.rxdSync = 0b11#2 from rfl]
    decide
  | succ n =>
    have eq : (uartIns p m s i (n + 1)).rxd = (run (next p m) s.start i n).rxdSync.getLsbD 0 :=
      (rxdSync_next _ _).2
    rw [eq, bits]
    by_cases first : n < 1
    · rw [if_pos first, if_pos (by omega)]
    · rw [if_neg first, if_neg (by omega), show n + 1 - 2 = n - 1 by omega]

end Run

/-! ## Two boards -/

section Link

variable {v : UartParams} {pa pb : Params} {ma mb : DmemParams} {a : Soc u} {b : Soc v} {i j : ℕ → Bool}
  {delay : ℕ} {d : BitVec 16}

/-- What is sent comes in, `latency` cycles after it was loaded. -/
theorem received_sent (pos : d ≠ 0) (aDiv : ∀ n, (run (next pa ma) a.start i n).uart.div = d)
    (bDiv : ∀ n, (run (next pb mb) b.start j n).uart.div = d)
    (line : ∀ n, (uartIns pb mb b j n).rxd =
      if n < delay then true else (run (next pa ma) a.start i (n - delay)).txd) (n : ℕ) :
    received pb mb b j (n + UartQ.latency d delay) = sent pa ma a i n := by
  let A := fun n => (run (next pa ma) a.start i n).uart
  let B := fun n => (run (next pb mb) b.start j n).uart
  have before : ∀ n < delay, (uartIns pb mb b j n).rxd = true := fun n hn => by rw [line, if_pos hn]
  have after : ∀ n, (uartIns pb mb b j (n + delay)).rxd = (A n).txd := fun n => by
    rw [line, if_neg (by omega), Nat.add_sub_cancel]
    rfl
  have early : ∀ n ≤ delay, (B n).rx.state = .IDLE := fun n hn =>
    UartQ.rx_early (show ∀ n, B (n + 1) = (B n).next (uartIns pb mb b j n) from fun _ => rfl) rfl before hn
  have out : ∀ n, TxAt d (UartQ.onLine d A n) (A n).tx := fun n =>
    UartQ.tx_at (show ∀ n, A (n + 1) = (A n).next (uartIns pa ma a i n) from fun _ => rfl) aDiv ⟨rfl, rfl⟩
  have read : ∀ n, (B (n + delay)).received (uartIns pb mb b j (n + delay)) =
      Clocked.readAt (doneTick d) (UartQ.onLine d A n) := fun n =>
    UartQ.received_eq (B := B) bDiv (UartQ.rx_at (B := B) pos out (fun _ => rfl) bDiv (early delay le_rfl) after)
  have inFrame : doneTick d < 10 * bitPeriod d := by
    have half := half_le pos
    simp only [doneTick, bitPeriod]
    omega
  rw [received, sent]
  refine log_delayed (fun n hn => ?_) (fun n => ?_) n
  · by_cases hd : n < delay
    · have idle := early n (by omega)
      change (B n).received (uartIns pb mb b j n) = []
      rw [UartQ.received, if_neg]
      simp [UartQ.rxFrameDone, RxQ.frameDone, idle]
    · have shift : n = n - delay + delay := by omega
      change (B n).received (uartIns pb mb b j n) = []
      rw [shift, read]
      apply Clocked.readAt_early
      rw [UartQ.latency] at hn
      omega
  · have shift : n + UartQ.latency d delay = n + 1 + doneTick d + delay := by
      rw [UartQ.latency]
      omega
    have loads : (A n).loads (uartIns pa ma a i n) = (A n).shipped (uartIns pa ma a i n) := by
      rw [UartQ.loads_eq, UartQ.shipped, UartQ.txPull]
      cases (A n).txFifoPop <;> rfl
    change (B (n + UartQ.latency d delay)).received (uartIns pb mb b j (n + UartQ.latency d delay)) =
      (A n).loads (uartIns pa ma a i n)
    rw [loads, shift, read, UartQ.onLine, Clocked.readAt_eq_taken inFrame, UartQ.shipped_eq (out n)]

end Link

/-- From program to program. The line of `a` reaches `b` after `delay` cycles, neither program
writes its divisor, and the divisors agree. Then the frames that have come in at `b` are, a
fixed time later, the bytes `a` has sent, which are the first ones its program has stored, at
most seventeen behind at the board's depth; what `b`'s program has taken, and what waits in its
FIFO, are these in their order, all of them unless a frame found no slot; and what it has taken
it has read from `RXDATA`. -/
theorem serial_link {v : UartParams} (pa pb : Params) (ma mb : DmemParams) (a : Soc u) (b : Soc v) (i : ℕ → Bool)
    (delay : ℕ) (same : u.baudDivReset = v.baudDivReset) (pos : u.baudDivReset ≠ 0) (n : ℕ) :
    let A := run (next pa ma) a.start i
    let j := fun n => if n < delay then true else (A (n - delay)).txd
    let B := run (next pb mb) b.start j
    let later := n + UartQ.latency u.baudDivReset (delay + 2)
    KeepsDivisor pa ma a i → KeepsDivisor pb mb b j →
      received pb mb b j later = sent pa ma a i n ∧ sent pa ma a i n <+: stored pa ma a i n ∧
      (stored pa ma a i n).length ≤ (sent pa ma a i n).length + 2 ^ u.txPtrW + 1 ∧
      (taken pb mb b j later ++ (B later).uart.rxList).Sublist (sent pa ma a i n) ∧
      ((∀ k < later, (B k).uart.rxDrop (uartIns pb mb b j k) = false) →
        taken pb mb b j later ++ (B later).uart.rxList = sent pa ma a i n) ∧
      (taken pb mb b j later).Sublist ((performed pb mb b j later).filterMap DevOp.rxByte) := by
  intro A j B later aKeeps bKeeps
  have came : received pb mb b j later = sent pa ma a i n := by
    refine received_sent pos (fun k => (div_run aKeeps k).2) (fun k => ((div_run bKeeps k).2).trans same.symm) ?_ n
    intro k
    rw [rxd_run]
    by_cases early : k < 2
    · rw [if_pos early, if_pos (by omega)]
    · rw [if_neg early]
      by_cases soon : k < delay + 2
      · rw [if_pos soon, show j (k - 2) = true from if_pos (by omega)]
      · rw [if_neg soon, show j (k - 2) = (A (k - 2 - delay)).txd from if_neg (by omega),
          show k - 2 - delay = k - (delay + 2) by omega]
  obtain ⟨part, all⟩ := kept_received (p := pb) (m := mb) (s := b) (i := j) later
  rw [kept_eq] at part all
  rw [came] at part all
  obtain ⟨late, short, bytes, fits⟩ := stored_eq (p := pa) (m := ma) (s := a) (i := i) n
  refine ⟨came, ?_, ?_, part, all, taken_run later⟩
  · rw [bytes, List.append_assoc]
    exact List.prefix_append _ _
  · have occupied : (A n).uart.txList.length = (A n).uart.txOccupancy := length_fifoList
    rw [bytes, List.length_append, List.length_append, occupied]
    have : (A n).uart.txOccupancy ≤ 2 ^ u.txPtrW := fits
    omega

/-! ### A letter on its way -/

/-- A program that sleeps behind a WFI with MIE clear has retired what it ever will. -/
theorem retired_asleep {s : Soc u} {i : ℕ → Bool} {k : ℕ}
    (halted : (run (next p m) s.start i k).cpu.lsu.core.ex.wfiHalt = true)
    (masked : (run (next p m) s.start i k).cpu.csr.regs.mstatus.getLsbD 3 = false) (n : ℕ) :
    (run (next p m) s.start i (k + n)).cpu.lsu.core.ex.wfiHalt = true ∧
      (run (next p m) s.start i (k + n)).cpu.csr.regs.mstatus.getLsbD 3 = false ∧
      retired p m s i (k + n) = retired p m s i k := by
  induction n with
  | zero => exact ⟨halted, masked, rfl⟩
  | succ n ih =>
    obtain ⟨asleep, off, same⟩ := ih
    have more : retired p m s i (k + (n + 1)) =
        retired p m s i (k + n) ++ (run (next p m) s.start i (k + n)).done p m := rfl
    have edge : (run (next p m) s.start i (k + (n + 1))).cpu = (run (next p m) s.start i (k + n)).cpu.next p m
        ((run (next p m) s.start i (k + n)).cpuIn p m) := rfl
    have quiet : (run (next p m) s.start i (k + n)).cpu.csr.regs.intPending = false := by
      rw [CsrRegs.intPending_eq, off, Bool.false_and]
    have outcome : (Cpu.exec p m (run (next p m) s.start i (k + n)).cpu
      ((run (next p m) s.start i (k + n)).cpuIn p m)).Outcome := (lsu_run p m s i (k + n)).core.outcome
    obtain ⟨-, calm, inert, -, halt⟩ := outcome.sleeps asleep quiet
    refine ⟨halt, ?_, ?_⟩
    · have csr := CsrRegs.untimed_quiet (r := (run (next p m) s.start i (k + n)).cpu.csr.regs)
        (i := (run (next p m) s.start i (k + n)).cpu.csrIn p m ((run (next p m) s.start i (k + n)).cpuIn p m))
        (ExCyc.trapWrite_off calm _) (ExCyc.csrWe_off inert.csr)
      rw [edge]
      change (CsrRegs.next _ _).mstatus.getLsbD 3 = false
      rw [(CsrRegs.untimed_eq csr).1]
      exact off
    · rw [more, same, show (run (next p m) s.start i (k + n)).done p m = [] from ExCyc.portDone_inert inert,
        List.append_nil]

theorem keepsDivisor_asleep {s : Soc u} {i : ℕ → Bool} {k : ℕ}
    (halted : (run (next p m) s.start i k).cpu.lsu.core.ex.wfiHalt = true)
    (masked : (run (next p m) s.start i k).cpu.csr.regs.mstatus.getLsbD 3 = false)
    (spared : ∀ data strb, .uart REG_BAUDDIV data strb ∉ (retired p m s i k).flatMap PortOp.ops) :
    KeepsDivisor p m s i := by
  intro n data strb there
  have more : retired p m s i n <+: retired p m s i (k + n) := log_grows _ (by omega)
  rw [(retired_asleep halted masked n).2.2] at more
  refine spared data strb ?_
  obtain ⟨op, before, here⟩ := List.mem_flatMap.mp there
  exact List.mem_flatMap.mpr ⟨op, more.subset before, here⟩

/-- A byte stored to `TXDATA`, and a WFI. -/
def letter : Soc UartQ.tb := ofWords UartQ.tb [0x100000B7#32, 0x05500113#32, 0x0020A023#32, 0x10500073#32]

/-- Its line behind three cycles of wire. -/
def wired (n : ℕ) : Bool :=
  if n < 3 then true else (run (next .board .board) letter.start (fun _ => true) (n - 3)).txd

theorem letter_spares {i : ℕ → Bool}
    (stored : retired .board .board letter i 8 = [.store 0x10000000#32 0x55#32 0b1111#4]) :
    ∀ data strb, .uart REG_BAUDDIV data strb ∉ (retired .board .board letter i 8).flatMap PortOp.ops := by
  intro data strb
  have op : [PortOp.store 0x10000000#32 0x55#32 0b1111#4].flatMap PortOp.ops = [.uart REG_TXDATA 0x55#32 0b1111#4] := by
    decide
  rw [stored, op, List.mem_singleton, DevOp.uart.injEq]
  rintro ⟨reg, -⟩
  exact absurd reg (by decide)

theorem serial_link_letter :
    received .board .board letter wired (12 + UartQ.latency 9 5) = [0x55#8] := by
  have sends : KeepsDivisor .board .board letter fun _ => true :=
    keepsDivisor_asleep (k := 8) (by decide +kernel) (by decide +kernel) (letter_spares (by decide +kernel))
  have hears : KeepsDivisor .board .board letter wired :=
    keepsDivisor_asleep (k := 8) (by decide +kernel) (by decide +kernel) (letter_spares (by decide +kernel))
  have came := (serial_link .board .board .board .board letter letter (fun _ => true) 3 rfl (by decide) 12 sends hears).1
  exact came.trans (by decide +kernel)

end Soc

end YarvUc
