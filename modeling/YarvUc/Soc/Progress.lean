import YarvUc.Sequential.Attended
import YarvUc.Soc.Devices

/-!
# The closed circuit attends the sequential machine

The peripheral port makes the CPU wait for a write that is not answered yet, and one to a full
TX FIFO is answered when the engine has sent a byte. So in the closed circuit only a WFI can
wait for ever: otherwise something retires, traps or is interrupted within a time that no
program and no serial line can stretch.
-/

namespace YarvUc

open Clocked

namespace Cpu

variable {p : Params} {m : DmemParams} {s : Cpu} {i : CpuIn}

/-- A request that the peripheral port refuses leaves the delay as it is. -/
theorem delay_refused (inv : s.lsu.Inv p m) (state : s.lsu.core.ex.state = .MEM_LAUNCH)
    (peri : s.lsu.core.ex.memIsPeri = true) (refused : i.periRsp.wready = false) (silent : s.turns p m i = []) :
    (s.next p m i).delay = s.delay := by
  obtain ⟨noCommit, noSync, noInt⟩ := turns_silent silent
  have busy : s.lsu.core.ex.state ≠ .IDLE := by simp [state]
  cases (show (s.exec p m i).Outcome from inv.core.outcome) with
  | bubble valid awake idle => exact absurd idle busy
  | asleep halted quiet idle => exact absurd idle busy
  | interrupt idle => exact absurd idle busy
  | trap valid why sync => rw [sync] at noSync; cases noSync
  | commit k valid is nonexc from' awake stall sync int mret commit => rw [commit] at noCommit; cases noCommit
  | hold valid awake stall calm inert phase bus halt =>
    have same : (s.next p m i).de = s.de := Core.de_stall (ExCyc.flush_calm calm inert.train) stall
    have aligned : (s.exec p m i).misalignedTrap = false := by
      simp only [ExCyc.syncTrapReq, Bool.or_eq_false_iff] at noSync
      exact noSync.2
    have port : (s.exec p m i).lsuRspWait.wready = false := by
      have eq : (s.exec p m i).lsuRspWait = i.periRsp := by
        rw [ExCyc.lsuRspWait, ExCyc.isPeriRsp, exec_q, peri]
        rfl
      rw [eq]
      exact refused
    have stays : (s.next p m i).lsu.core.ex.state = .MEM_LAUNCH := by
      rw [next_ex]
      simp [ExCyc.next, ExCyc.stateD, state, aligned, ExCyc.capturedHs, port]
    rw [delay, delay, same, ExQ.delay, ExQ.delay, stays, state]
    rw [show s.de.valid = true from valid, if_pos rfl, if_pos rfl]

end Cpu

/-! ## How long a write can take -/

theorem TxQ.remaining_le (t : TxQ) (div : BitVec 16) : t.remaining div ≤ 10 * 2 ^ 16 := by
  have := (div - t.baudCnt).isLt
  cases state : t.state <;> simp only [TxQ.remaining, state] <;> omega

namespace Soc

variable {u : UartParams} {p : Params} {m : DmemParams} {s : Soc u} {r : Bool}

/-- A bound on the cycles until the bridge is idle again. -/
def busDelay (s : Soc u) : ℕ :=
  match s.bus.bridge.state with
  | .S_WR_WAIT => 1
  | .S_WR_DATA => if s.uart.txFifoFull then 3 + s.uart.tx.remaining s.uart.div else 2
  | _ => 0

theorem busDelay_lt (s : Soc u) : s.busDelay < 655364 := by
  have := s.uart.tx.remaining_le s.uart.div
  unfold busDelay
  repeat' split
  all_goals omega

/-- While a write stays before a full FIFO, the engine gets on or takes a byte out. -/
theorem busDelay_stays (full : s.uart.txFifoFull = true) (state : s.bus.bridge.state = .S_WR_DATA)
    (stays : (s.next p m r).bus.bridge.state = .S_WR_DATA) : (s.next p m r).busDelay < s.busDelay := by
  have before : s.busDelay = 3 + s.uart.tx.remaining s.uart.div := by rw [busDelay, state, full, if_pos rfl]
  have next : (s.next p m r).uart = s.uart.next (s.uartIn p m) := rfl
  rw [before, busDelay, stays, next]
  by_cases idle : s.uart.tx.state = .IDLE
  · have pop : s.uart.txFifoPop = true := by simp [UartQ.txFifoPop, TxQ.idle, idle, UartQ.full_nonempty full]
    simp only [UartQ.room_next full pop, Bool.false_eq_true, if_false]
    omega
  · have div : (s.uart.next (s.uartIn p m)).div = s.uart.div := by
      rw [UartQ.next_div]
      simp [UartQ.divApply, TxQ.idle, idle]
    have less : (s.uart.next (s.uartIn p m)).tx.remaining s.uart.div < s.uart.tx.remaining s.uart.div := by
      rw [UartQ.next_tx]
      exact TxQ.remaining_next idle
    rw [div]
    change (if (s.uart.next (s.uartIn p m)).txFifoFull = true then
      3 + (s.uart.next (s.uartIn p m)).tx.remaining s.uart.div else 2) < _
    split <;> omega

theorem At.idle (at_ : s.At .free) : s.busDelay = 0 := by
  cases at_ with
  | free state => rw [busDelay, state]

theorem At.one (at_ : s.At .written) : s.busDelay = 1 := by
  cases at_ with
  | written state => rw [busDelay, state]
  | dropped state => rw [busDelay, state]

theorem At.data {data : Word} {strb : BitVec 4} (at_ : s.At (.blocked data strb)) :
    s.bus.bridge.state = .S_WR_DATA := by
  cases at_ with
  | blocked state => exact state

/-- The bridge that is not free for a request. -/
def Taken (s : Soc u) : Prop := s.bus.bridge.state ≠ .S_IDLE ∧ s.bus.bridge.state ≠ .S_RD_WAIT

/-- A cycle in which no access retires. -/
theorem busDelay_next {t t' : Trip} {ops : List DevOp} (at_ : s.At t) (at' : (s.next p m r).At t')
    (moves : Trip.Moves s.uart.txFifoFull t [] ops t') :
    (s.next p m r).busDelay ≤ s.busDelay ∧ (s.Taken → (s.next p m r).busDelay < s.busDelay) := by
  cases moves with
  | rests =>
    rw [at'.idle]
    refine ⟨Nat.zero_le _, fun taken => ?_⟩
    cases at_ with
    | free state => exact absurd state taken.1
  | reads hit =>
    have zero : (s.next p m r).busDelay = 0 := by
      cases at' with
      | reading state => rw [busDelay, state]
    rw [zero]
    refine ⟨Nat.zero_le _, fun taken => ?_⟩
    cases at_ with
    | free state => exact absurd state taken.1
  | misses miss =>
    have zero : (s.next p m r).busDelay = 0 := by
      cases at' with
      | missing state => rw [busDelay, state]
    rw [zero]
    refine ⟨Nat.zero_le _, fun taken => ?_⟩
    cases at_ with
    | free state => exact absurd state taken.1
  | answered =>
    rw [at'.idle, at_.one]
    exact ⟨Nat.zero_le _, fun _ => Nat.one_pos⟩
  | stays shut =>
    have less := busDelay_stays shut at_.data at'.data
    exact ⟨Nat.le_of_lt less, fun _ => less⟩
  | enters open_ =>
    have two : s.busDelay = 2 := by rw [busDelay, at_.data, open_]; rfl
    rw [at'.one, two]
    exact ⟨by omega, fun _ => by omega⟩

/-- The CPU waits for the port only while a write is on its way. -/
theorem waits_taken (inv : s.cpu.lsu.Inv p m) {t : Trip} (at_ : s.At t)
    (waits : s.cpu.waits p m (s.cpuIn p m) = true) (awake : (s.cpu.exec p m (s.cpuIn p m)).wfiStall = false) :
    s.Taken ∧ s.cpu.lsu.core.ex.state = .MEM_LAUNCH ∧ s.cpu.lsu.core.ex.memIsPeri = true ∧
      (s.cpuIn p m).periRsp.wready = false := by
  rw [Cpu.waits, awake, Bool.false_or, Bool.and_eq_true, Bool.or_eq_true] at waits
  obtain ⟨peri, why⟩ := waits
  rcases why with refused | silent
  · obtain ⟨state, ready⟩ : s.cpu.lsu.core.ex.state = .MEM_LAUNCH ∧ (s.cpuIn p m).periRsp.wready = false := by
      simpa [ExCyc.inState] using refused
    have cpu : s.cpu.lsu.core.ex.onPeri = false := by simp [ExQ.onPeri, state]
    refine ⟨⟨?_, fun reading => ?_⟩, state, peri, ready⟩
    · have eq : (s.cpuIn p m).periRsp.wready = (s.bus.bridge.state == .S_IDLE) := rfl
      rw [eq] at ready
      simpa using ready
    · -- Before a read's word the CPU is behind its request.
      cases at_ <;> simp_all
  · exfalso
    obtain ⟨state, none⟩ : s.cpu.lsu.core.ex.state = .MEM_WAIT ∧ (s.cpuIn p m).periRsp.rvalid = false := by
      simpa [ExCyc.inState] using silent
    have cpu : s.cpu.lsu.core.ex.onPeri = true := by simp [ExQ.onPeri, state, peri]
    have done : s.done p m ≠ [] := by
      cases at_ with
      | reading state hit sel hands word cpu latch =>
        rw [(reading_next (r := true) inv state hit sel hands word cpu latch).1]
        exact List.cons_ne_nil _ _
      | missing state miss sel quiet cpu latch =>
        rw [(missing_next (r := true) inv state sel quiet cpu latch).1]
        exact List.cons_ne_nil _ _
      | _ => simp_all
    cases portCycle inv with
    | answered before req open_ word =>
      rw [show (s.cpuIn p m).periRsp.rvalid = true from word] at none
      cases none
    | waits before req open_ silent' done' => exact done done'
    | still before req done' => exact done done'
    | refused before req ready done' => exact done done'
    | asks before req ready read done' => exact done done'
    | stores before => rw [show s.cpu.lsu.core.ex.onPeri = false from before] at cpu; cases cpu

end Soc

/-! ## The simulation -/

/-- The closed circuit and the address of its oldest instruction. -/
structure OrderedSoc (u : UartParams) where
  soc : Soc u
  pc : Word

namespace OrderedSoc

variable {u : UartParams}

def ordered (o : OrderedSoc u) : Ordered := { cpu := o.soc.cpu, pc := o.pc }

def start (s : Soc u) : OrderedSoc u := { soc := s.start, pc := 0 }

def next (p : Params) (m : DmemParams) (o : OrderedSoc u) (r : Bool) : OrderedSoc u :=
  { soc := o.soc.next p m r, pc := (o.ordered.next p m (o.soc.cpuIn p m)).pc }

theorem hosts (p : Params) (m : DmemParams) :
    Hosts (Ordered.next p m) (fun o i => o.cpu.turns p m i) (fun o => o.cpu.delay) (fun o i => o.cpu.waits p m i)
      (next (u := u) p m) ordered (fun o _ => o.soc.cpuIn p m)
      (fun o => o.soc.cpu.lsu.Inv p m ∧ ∃ t, o.soc.At t) (fun o => o.soc.busDelay) 655364
      (fun o _ => (o.soc.cpu.exec p m (o.soc.cpuIn p m)).wfiStall) := by
  have quiet : ∀ o : OrderedSoc u, o.soc.cpu.turns p m (o.soc.cpuIn p m) = [] → o.soc.done p m = [] := by
    intro o silent
    rw [Soc.done, ExCyc.portDone, (Cpu.turns_silent silent).1]
    rfl
  refine ⟨fun _ _ => rfl, ?_, fun o _ => o.soc.busDelay_lt, ?_, ?_⟩
  · rintro o r ⟨inv, t, at_⟩
    obtain ⟨t', -, at'⟩ := at_.next (r := r) inv
    exact ⟨inv.next, t', at'⟩
  · rintro o r ⟨inv, t, at_⟩ silent
    obtain ⟨t', moves, at'⟩ := at_.next (r := r) inv
    rw [quiet o silent] at moves
    exact (Soc.busDelay_next at_ at' moves).1
  · rintro o r ⟨inv, t, at_⟩ silent waits
    obtain ⟨t', moves, at'⟩ := at_.next (r := r) inv
    rw [quiet o silent] at moves
    cases awake : (o.soc.cpu.exec p m (o.soc.cpuIn p m)).wfiStall with
    | true => exact .inl rfl
    | false =>
      obtain ⟨taken, state, peri, refused⟩ := Soc.waits_taken inv at_ waits awake
      exact .inr ⟨(Soc.busDelay_next at_ at' moves).2 taken,
        Nat.le_of_eq (Cpu.delay_refused inv state peri refused silent)⟩

theorem run_soc (p : Params) (m : DmemParams) (s : Soc u) (i : ℕ → Bool) (n : ℕ) :
    (run (next p m) (start s) i n).soc = run (Soc.next p m) s.start i n :=
  run_part (show ∀ (o : OrderedSoc u) (r : Bool), (next p m o r).soc = o.soc.next p m r from fun _ _ => rfl) n

theorem run_ordered (p : Params) (m : DmemParams) (s : Soc u) (i : ℕ → Bool) (n : ℕ) :
    (run (next p m) (start s) i n).ordered =
      run (Ordered.next p m) (.start 0 s.cpu) (fun k => (run (Soc.next p m) s.start i k).cpuIn p m) n := by
  have part := run_part (show ∀ (o : OrderedSoc u) (r : Bool),
    (next p m o r).ordered = o.ordered.next p m (o.soc.cpuIn p m) from fun _ _ => rfl) (s := start s) (i := i) n
  simp only [run_soc] at part
  exact part

/-- What the CPU turns is the circuit's log. -/
theorem log_turns (p : Params) (m : DmemParams) (s : Soc u) (i : ℕ → Bool) (n : ℕ) :
    log (next p m) (fun o _ => o.ordered.cpu.turns p m (o.soc.cpuIn p m)) (start s) i n =
      log (Soc.next p m) (fun s _ => s.cpu.turns p m (s.cpuIn p m)) s.start i n :=
  log_part (show ∀ (o : OrderedSoc u) (r : Bool), (next p m o r).soc = o.soc.next p m r from fun _ _ => rfl)
    (fun s _ => s.cpu.turns p m (s.cpuIn p m)) n

theorem attending_start (p : Params) (m : DmemParams) (s : Soc u) :
    ((start s).soc.cpu.lsu.Inv p m ∧ ∃ t, (start s).soc.At t) ∧
      (start s).ordered.Attending p m s.cpu.fetch.ram.mem ⟨.start 0 s.cpu, false⟩ :=
  ⟨⟨(Ordered.inv_start (p := p) (m := m) rfl s.cpu).lsu, .free, Soc.at_start s⟩, Ordered.attending_start rfl s.cpu⟩

end OrderedSoc

namespace Soc

variable {u : UartParams}

/-- The closed circuit never hangs. Whatever the program and the serial line do, what the CPU
retires, traps and interrupts is a run of the sequential machine, and in any 655407 cycles there
is some of it, or the CPU sleeps behind a WFI: no access of a device waits for ever. The run
returns to even addresses, sleeps on no second WFI and executes nothing astride the end of the
I-mem. -/
theorem never_hangs (p : Params) (m : DmemParams) (s : Soc u) (i : ℕ → Bool) (n : ℕ)
    (tame : ∀ k < n, Cpu.TameAt p m 0 s.cpu (fun k => (run (next p m) s.start i k).cpuIn p m) k) :
    let c := run (next p m) s.start i
    (∃ t, Turns (Turn p m s.cpu.fetch.ram.mem) ⟨.start 0 s.cpu, false⟩
        (log (next p m) (fun s _ => s.cpu.turns p m (s.cpuIn p m)) s.start i n) t ∧ (c n).cpu.Has t) ∧
      ∀ j, j + 655407 ≤ n → ∃ k < 655407, (c (j + k)).cpu.turns p m ((c (j + k)).cpuIn p m) ≠ [] ∨
        ((c (j + k)).cpu.exec p m ((c (j + k)).cpuIn p m)).wfiStall = true := by
  intro c
  have attends := (Ordered.attends p m s.cpu.fetch.ram.mem).hosted (OrderedSoc.hosts (u := u) p m)
  have start := OrderedSoc.attending_start p m s
  have ok : ∀ k < n, (run (OrderedSoc.next p m) (OrderedSoc.start s) i k).ordered.Tame p m s.cpu.fetch.ram.mem
      ((run (OrderedSoc.next p m) (OrderedSoc.start s) i k).soc.cpuIn p m) := by
    intro k hk
    rw [OrderedSoc.run_ordered, OrderedSoc.run_soc]
    exact tame k hk
  refine ⟨?_, fun j window => ?_⟩
  · obtain ⟨t, turns, -, att⟩ := attends.run start n ok
    have soc : (run (OrderedSoc.next p m) (OrderedSoc.start s) i n).soc = c n := OrderedSoc.run_soc p m s i n
    refine ⟨t, OrderedSoc.log_turns p m s i n ▸ turns, ?_⟩
    rw [← soc]
    exact ⟨att.rf, att.csr, att.mem, att.asleep⟩
  · obtain ⟨k, hk, stirs⟩ := attends.prompt start j fun l hl => ok l (by omega)
    have soc : (run (OrderedSoc.next p m) (OrderedSoc.start s) i (j + k)).soc = c (j + k) :=
      OrderedSoc.run_soc p m s i (j + k)
    refine ⟨k, hk, ?_⟩
    rw [← soc]
    exact stirs

/-- A software interrupt a program sends itself, and a WFI behind it: `csrsi mie, 8`,
`csrsi mstatus, 8`, a 1 stored to `msip`, a WFI, a `nop`. -/
def nudged : Soc UartQ.tb :=
  ofWords UartQ.tb
    [0x30446073#32, 0x30046073#32, 0x100030B7#32, 0x00100113#32, 0x0020A023#32, 0x10500073#32, 0x00000013#32]

theorem never_hangs_nudged :
    ∃ t, Turns (Turn .board .board nudged.cpu.fetch.ram.mem) ⟨.start 0 nudged.cpu, false⟩
        (log (next .board .board) (fun s _ => s.cpu.turns .board .board (s.cpuIn .board .board)) nudged.start
          (fun _ => true) 16) t ∧
      (run (next .board .board) nudged.start (fun _ => true) 16).cpu.Has t :=
  (never_hangs .board .board nudged (fun _ => true) 16 (by decide +kernel)).1

end Soc

end YarvUc
