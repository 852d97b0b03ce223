import YarvUc.Bus.Timer
import YarvUc.Sequential.Midway
import YarvUc.Soc.Trips
import YarvUc.Uart.Transmit

/-!
# The devices as the program drives them

Over a whole run of the closed circuit, whatever the program and the serial line do, the
operations on the devices are the peripheral accesses the program retires, in its order and
each once; the registers are what the retired stores have left in them, and the interrupt
lines follow.
-/

namespace YarvUc

open Clocked

namespace DevOp

/-- `msip_q` and `mtimecmp_q` behind an operation. -/
def storeMsip (msip : Bool) : DevOp → Bool
  | .msip data => data.getLsbD 0
  | _ => msip

def storeCmp (cmp : BitVec 64) : DevOp → BitVec 64
  | .timer reg data => TimerQ.store cmp (reg, data)
  | _ => cmp

/-- The byte an operation puts into the TX FIFO. -/
def txByte : DevOp → Option (BitVec 8)
  | .uart reg data strb => UartQ.txByte (reg, data, strb)
  | _ => none

end DevOp

namespace Trip

variable (t : Trip)

/-- What is on its way is read, or goes into the TX FIFO. -/
theorem foldl_inert {β : Type} {f : β → DevOp → β} (reads : ∀ b k addr data, f b (.read k addr data) = b)
    (tx : ∀ b data strb, f b (.uart REG_TXDATA data strb) = b) (b : β) :
    t.ahead.foldl f b = b ∧ t.late.foldl f b = b := by
  cases t with
  | reading addr data => exact ⟨reads b _ _ _, rfl⟩
  | blocked data strb => exact ⟨rfl, tx b data strb⟩
  | _ => exact ⟨rfl, rfl⟩

end Trip

namespace Soc

variable {u : UartParams} {p : Params} {m : DmemParams} {s : Soc u} {r : Bool}

/-! ## One cycle of the registers -/

theorem reads_fold {β : Type} {f : β → DevOp → β} (inert : ∀ b k addr data, f b (.read k addr data) = b)
    (k : BitVec 2) (b : β) : (s.reads p m k).foldl f b = b := by
  rw [reads]
  split
  · exact inert b _ _ _
  · rfl

theorem uart_fold {β : Type} {f : β → DevOp → β} (inert : ∀ b reg data strb, f b (.uart reg data strb) = b)
    (b : β) : (s.writes p m 0).foldl f b = b := by
  have eq : s.writes p m 0 = (s.uart.write (s.uartIn p m)).toList.map fun w => .uart w.1 w.2.1 w.2.2 := rfl
  rw [eq]
  cases s.uart.write (s.uartIn p m) with
  | none => rfl
  | some w => exact inert b _ _ _

theorem msip_next : (s.next p m r).msip.msip = (s.ops p m).foldl DevOp.storeMsip s.msip.msip := by
  have reads := fun k b => reads_fold (p := p) (m := m) (s := s) (f := DevOp.storeMsip) (fun _ _ _ _ => rfl) k b
  have uart := fun b => uart_fold (p := p) (m := m) (s := s) (f := DevOp.storeMsip) (fun _ _ _ _ => rfl) b
  have next : (s.next p m r).msip.msip =
      if s.msip.doWrite (s.port p m 2) then (s.msip.wdataEff (s.port p m 2)).getLsbD 0 else s.msip.msip := rfl
  rw [next, ops]
  simp only [List.foldl_append, reads, uart]
  rw [writes_timer, writes_msip]
  cases s.timer.doWrite (s.port p m 1) <;> cases s.msip.doWrite (s.port p m 2) <;> rfl

theorem mtimecmp_next : (s.next p m r).timer.mtimecmp = (s.ops p m).foldl DevOp.storeCmp s.timer.mtimecmp := by
  have reads := fun k b => reads_fold (p := p) (m := m) (s := s) (f := DevOp.storeCmp) (fun _ _ _ _ => rfl) k b
  have uart := fun b => uart_fold (p := p) (m := m) (s := s) (f := DevOp.storeCmp) (fun _ _ _ _ => rfl) b
  have next : (s.next p m r).timer.mtimecmp = s.timer.mtimecmpD (s.port p m 1) := rfl
  rw [next, ops, TimerQ.mtimecmpD]
  simp only [List.foldl_append, reads, uart]
  rw [writes_timer, writes_msip]
  cases s.timer.doWrite (s.port p m 1) <;> cases s.msip.doWrite (s.port p m 2) <;> rfl

/-- The interrupt lines are in `mip` a cycle later. -/
theorem mip_next : (s.next p m r).cpu.csr.regs.mip.getLsbD 3 = s.msip.msip ∧
    (s.next p m r).cpu.csr.regs.mip.getLsbD 7 = s.timer.mtip ∧
    (s.next p m r).cpu.csr.regs.mip.getLsbD 11 = s.uart.irq := by
  obtain ⟨wr, next⟩ : ∃ wr, (s.next p m r).cpu.csr.regs.mip = CsrRegs.mipNext s.cpu.csr.regs.mip s.lines wr :=
    ⟨_, rfl⟩
  rw [next]
  exact CsrRegs.mipNext_lines _ _ _

/-! ## Whole runs -/

/-- Reset flops over a program of 32-bit words. -/
def ofWords (u : UartParams) (words : List Word) : Soc u where
  cpu := .ofWords words
  bus := { bridge := { state := .S_IDLE, addr := 0, wdata := 0, wstrb := 0 }, xbar := .reset }
  uart := .blank u
  timer := .reset
  msip := .reset
  rxdSync := 0b11#2

section Run

variable (p m) (s : Soc u) (i : ℕ → Bool)

/-- The accesses of the peripheral port retired before cycle `n`. -/
def retired (n : ℕ) : List PortOp := log (next p m) (fun s _ => s.done p m) s.start i n

/-- What has been done to the devices. -/
def performed (n : ℕ) : List DevOp := log (next p m) (fun s _ => s.ops p m) s.start i n

theorem lsu_run (n : ℕ) : (run (next p m) s.start i n).cpu.lsu.Inv p m :=
  run_invariant (fun s : Soc u => s.cpu.lsu.Inv p m) (fun _ _ => True)
    (Ordered.inv_start (p := p) (m := m) rfl s.cpu).lsu (fun _ _ inv _ => inv.next) n fun _ _ => trivial

/-- In every cycle of every run the circuit moves an access on its way, or has none. -/
theorem trips : ∃ t : ℕ → Trip, t 0 = .free ∧ (∀ n, (run (next p m) s.start i n).At (t n)) ∧
    ∀ n, Trip.Moves (run (next p m) s.start i n).uart.txFifoFull (t n) ((run (next p m) s.start i n).done p m)
      ((run (next p m) s.start i n).ops p m) (t (n + 1)) := by
  have step : ∀ n t, (run (next p m) s.start i n).At t →
      ∃ t', Trip.Moves (run (next p m) s.start i n).uart.txFifoFull t ((run (next p m) s.start i n).done p m)
        ((run (next p m) s.start i n).ops p m) t' ∧ (run (next p m) s.start i (n + 1)).At t' :=
    fun n t here => At.next (lsu_run p m s i n) here
  choose! after moves there using step
  let t : ℕ → Trip := fun n => Nat.rec .free after n
  have at_ : ∀ n, (run (next p m) s.start i n).At (t n) := by
    intro n
    induction n with
    | zero => exact at_start s
    | succ n ih => exact there n (t n) ih
  exact ⟨t, rfl, at_, fun n => moves n (t n) (at_ n)⟩

variable {p m s i}

theorem trips_conserve {t : ℕ → Trip} (start : t 0 = .free)
    (moves : ∀ n, Trip.Moves (run (next p m) s.start i n).uart.txFifoFull (t n)
      ((run (next p m) s.start i n).done p m) ((run (next p m) s.start i n).ops p m) (t (n + 1))) (n : ℕ) :
    (retired p m s i n).flatMap PortOp.ops ++ (t n).ahead = performed p m s i n ++ (t n).late := by
  induction n with
  | zero =>
    rw [start]
    rfl
  | succ n ih =>
    have eq : retired p m s i (n + 1) = retired p m s i n ++ (run (next p m) s.start i n).done p m := rfl
    rw [eq, List.flatMap_append]
    exact (moves n).conserves ih

/-- A register that every cycle's operations fold is what the retired stores have left in it. -/
theorem stored_fold {β : Type} {f : β → DevOp → β} (view : Soc u → β)
    (next : ∀ (s : Soc u) r, view (s.next p m r) = (s.ops p m).foldl f (view s))
    (reads : ∀ b k addr data, f b (.read k addr data) = b) (tx : ∀ b data strb, f b (.uart REG_TXDATA data strb) = b)
    (n : ℕ) :
    view (run (Soc.next p m) s.start i n) = ((retired p m s i n).flatMap PortOp.ops).foldl f (view s.start) := by
  obtain ⟨t, start, -, moves⟩ := trips p m s i
  have done : view (run (Soc.next p m) s.start i n) = (performed p m s i n).foldl f (view s.start) :=
    run_foldl view f (fun s _ => s.ops p m) next n
  have folds := congrArg (List.foldl f (view s.start)) (trips_conserve start moves n)
  rw [List.foldl_append, List.foldl_append, ((t n).foldl_inert reads tx _).1, ((t n).foldl_inert reads tx _).2] at folds
  exact done.trans folds.symm

theorem msip_stored (n : ℕ) : (run (Soc.next p m) s.start i n).msip.msip =
    ((retired p m s i n).flatMap PortOp.ops).foldl DevOp.storeMsip false :=
  stored_fold (fun s : Soc u => s.msip.msip) (fun _ _ => msip_next) (fun _ _ _ _ => rfl) (fun _ _ _ => rfl) n

theorem mtimecmp_stored (n : ℕ) : (run (Soc.next p m) s.start i n).timer.mtimecmp =
    ((retired p m s i n).flatMap PortOp.ops).foldl DevOp.storeCmp (BitVec.allOnes 64) :=
  stored_fold (fun s : Soc u => s.timer.mtimecmp) (fun _ _ => mtimecmp_next) (fun _ _ _ _ => rfl) (fun _ _ _ => rfl) n

theorem mtime_cycle (n : ℕ) : (run (Soc.next p m) s.start i n).timer.mtime = BitVec.ofNat 64 n := by
  induction n with
  | zero => rfl
  | succ n ih =>
    rw [BitVec.ofNat_add, ← ih]
    rfl

end Run

/-- The devices see the program. In every cycle of every run of the closed circuit, for any
program and anything on the serial line, the access on its way moves as `Trip.Moves` allows; so
what has been done to the devices is what the program has retired, in its order and each access
once, but for the one on its way; and loads from outside the windows have returned 0. -/
theorem devices_in_order (p : Params) (m : DmemParams) (s : Soc u) (i : ℕ → Bool) :
    let c := run (next p m) s.start i
    ∃ t : ℕ → Trip, t 0 = .free ∧
      (∀ n, Trip.Moves (c n).uart.txFifoFull (t n) ((c n).done p m) ((c n).ops p m) (t (n + 1))) ∧
      ∀ n, (retired p m s i n).flatMap PortOp.ops ++ (t n).ahead = performed p m s i n ++ (t n).late ∧
        ∀ addr data, .load addr data ∈ retired p m s i n → window addr = 3#2 → data = 0 := by
  intro c
  obtain ⟨t, start, -, moves⟩ := trips p m s i
  refine ⟨t, start, moves, fun n => ⟨trips_conserve start moves n, ?_⟩⟩
  induction n with
  | zero =>
    intro addr data load
    cases load
  | succ n ih =>
    intro addr data load miss
    have eq : retired p m s i (n + 1) = retired p m s i n ++ (c n).done p m := rfl
    rw [eq, List.mem_append] at load
    rcases load with before | now
    · exact ih addr data before miss
    · exact (moves n).misses_zero now miss

/-- The registers and the interrupt lines follow the program: `msip` and `mtimecmp` are what the
retired stores have left in them, the counter counts cycles, and `mip` has the software line a
cycle later, the timer's comparison three. -/
theorem interrupts_follow (p : Params) (m : DmemParams) (s : Soc u) (i : ℕ → Bool) (n : ℕ) :
    let c := run (next p m) s.start i
    let stored := (retired p m s i n).flatMap PortOp.ops
    (c n).msip.msip = stored.foldl DevOp.storeMsip false ∧
      (c n).timer.mtimecmp = stored.foldl DevOp.storeCmp (BitVec.allOnes 64) ∧
      (c n).timer.mtime = BitVec.ofNat 64 n ∧
      (c (n + 1)).cpu.csr.regs.mip.getLsbD 3 = stored.foldl DevOp.storeMsip false ∧
      (c (n + 3)).cpu.csr.regs.mip.getLsbD 7 =
        decide (stored.foldl DevOp.storeCmp (BitVec.allOnes 64) ≤ BitVec.ofNat 64 n) ∧
      (c (n + 1)).cpu.csr.regs.mip.getLsbD 11 = (c n).uart.irq := by
  intro c stored
  have msip : (c n).msip.msip = stored.foldl DevOp.storeMsip false := msip_stored n
  have cmp : (c n).timer.mtimecmp = stored.foldl DevOp.storeCmp (BitVec.allOnes 64) := mtimecmp_stored n
  have time : (c n).timer.mtime = BitVec.ofNat 64 n := mtime_cycle n
  have mtip : (c (n + 2)).timer.mtip = decide ((c n).timer.mtimecmp ≤ (c n).timer.mtime) := TimerQ.mtip_two _ _ _
  refine ⟨msip, cmp, time, ?_, ?_, (mip_next (s := c n)).2.2⟩
  · rw [← msip]
    exact (mip_next (s := c n)).1
  · rw [← cmp, ← time, ← mtip]
    exact (mip_next (s := c (n + 2))).2.1

end Soc

end YarvUc
