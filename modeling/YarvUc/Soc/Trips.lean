import YarvUc.Execute.DataMemory
import YarvUc.Execute.PeriPort
import YarvUc.Soc.Ports

/-!
# An access on its way to a device

`Trip` is where an access of the peripheral port can be in the closed circuit, and
`Trip.Moves` what a cycle does with it: which access retires, what is done to a device. A
read takes one cycle and its load retires in the next; a store retires as it leaves and is
committed in the same cycle, but for one to a full TX FIFO. `Soc.At` ties the two to the flops.
-/

namespace YarvUc

/-- The window of an address: the UART's, the timer's, the software interrupt's, and 3 for none. -/
def window (addr : Word) : BitVec 2 :=
  if 0x10000000#32 ≤ addr ∧ addr < 0x10001000#32 then 0
  else if 0x10001000#32 ≤ addr ∧ addr < 0x10003000#32 then 1
  else if 0x10003000#32 ≤ addr ∧ addr < 0x10004000#32 then 2
  else 3

/-- The crossbar sends an address to its window. -/
@[simp] theorem decode_board (addr : Word) : XbarParams.board.decode addr = window addr := rfl

/-- What an access of the peripheral port is for the devices: nothing outside the windows. -/
def PortOp.ops : PortOp → List DevOp
  | .store addr data strb => if window addr = 3#2 then [] else [.write (window addr) addr data strb]
  | .load addr data => if window addr = 3#2 then [] else [.read (window addr) addr data]

/-- Where an access is: nowhere, before its load, behind its store. -/
inductive Trip where
  | free
  | reading (addr data : Word)
  | missing (addr : Word)
  | written
  | blocked (data : Word) (strb : BitVec 4)

namespace Trip

/-- The read whose load has not retired. -/
def ahead : Trip → List DevOp
  | reading addr data => [.read (window addr) addr data]
  | _ => []

/-- The write whose store has retired. -/
def late : Trip → List DevOp
  | blocked data strb => [.uart REG_TXDATA data strb]
  | _ => []

/-- One cycle, the TX FIFO full or not: what retires, and what is done to the devices. -/
inductive Moves (full : Bool) : Trip → List PortOp → List DevOp → Trip → Prop
  | rests : Moves full free [] [] free
  | reads {addr data : Word} (hit : window addr ≠ 3#2) :
      Moves full free [] [.read (window addr) addr data] (reading addr data)
  | misses {addr : Word} (miss : window addr = 3#2) : Moves full free [] [] (missing addr)
  | writes {addr data : Word} {strb : BitVec 4} (hit : window addr ≠ 3#2) :
      Moves full free [.store addr data strb] [.write (window addr) addr data strb] written
  | drops {addr data : Word} {strb : BitVec 4} (miss : window addr = 3#2) :
      Moves full free [.store addr data strb] [] written
  | blocks {addr data : Word} {strb : BitVec 4} (hit : window addr = 0) (reg : addr.extractLsb 4 2 = REG_TXDATA)
      (shut : full = true) : Moves full free [.store addr data strb] [] (blocked data strb)
  | word {addr data : Word} (hit : window addr ≠ 3#2) : Moves full (reading addr data) [.load addr data] [] free
  | noWord {addr : Word} (miss : window addr = 3#2) : Moves full (missing addr) [.load addr 0] [] free
  | answered : Moves full written [] [] free
  | stays {data : Word} {strb : BitVec 4} (shut : full = true) : Moves full (blocked data strb) [] [] (blocked data strb)
  | enters {data : Word} {strb : BitVec 4} (open_ : full = false) :
      Moves full (blocked data strb) [] [.uart REG_TXDATA data strb] written

variable {full : Bool} {t t' : Trip} {done : List PortOp} {ops : List DevOp}

/-- What has retired and what has been done differ by the access on its way. -/
theorem Moves.conserves (moves : Moves full t done ops t') {retired performed : List DevOp}
    (before : retired ++ t.ahead = performed ++ t.late) :
    retired ++ done.flatMap PortOp.ops ++ t'.ahead = performed ++ ops ++ t'.late := by
  cases moves with
  | @blocks addr data strb hit reg shut =>
    have own : PortOp.ops (.store addr data strb) = [.uart REG_TXDATA data strb] := by
      rw [PortOp.ops, hit, if_neg (by decide), DevOp.write, if_pos rfl, reg]
    simpa [ahead, late, own] using before
  | _ => simp_all [ahead, late, PortOp.ops]

/-- A load from no window returns 0. -/
theorem Moves.misses_zero (moves : Moves full t done ops t') {addr data : Word} (load : .load addr data ∈ done)
    (miss : window addr = 3#2) : data = 0 := by
  cases moves <;> simp_all

end Trip

/-! ## Handshakes on the bus -/

namespace PeriQ

variable {p : XbarParams} {q : PeriQ} {i : PeriIn} {addr data : Word} {strb : BitVec 4} {k : BitVec 2}

theorem read_hs (clean : q.xbar.Clean)
    (axi : q.bridge.axi i.req = { araddr := addr, arvalid := true, bready := true }) (hit : p.decode addr ≠ 3#2) :
    (q.xcyc p i).arHs = ((q.xcyc p i).slave (p.decode addr)).arready := by
  have hs : (q.xcyc p i).s = { araddr := addr, arvalid := true, bready := true } := axi
  have hx : (q.xcyc p i).q = q.xbar := rfl
  have sel : (q.xcyc p i).rdSelLive = p.decode addr := by rw [XbarCyc.rdSelLive, hs]; rfl
  simp [XbarCyc.arHs, XbarCyc.sAxi, hs, hx, clean.rdBusy, sel, hit]

theorem write_hs (clean : q.xbar.Clean)
    (axi : q.bridge.axi i.req =
      { awaddr := addr, awvalid := true, wdata := data, wstrb := strb, wvalid := true, bready := true })
    (hit : p.decode addr ≠ 3#2) :
    (q.xcyc p i).awHs = ((q.xcyc p i).slave (p.decode addr)).awready ∧
      q.bridge.wHs i.req (q.xcyc p i).sAxi = ((q.xcyc p i).slave (p.decode addr)).wready := by
  have hs : (q.xcyc p i).s =
      { awaddr := addr, awvalid := true, wdata := data, wstrb := strb, wvalid := true, bready := true } := axi
  have hx : (q.xcyc p i).q = q.xbar := rfl
  have sel : (q.xcyc p i).wrSelLive = p.decode addr := by rw [XbarCyc.wrSelLive, hs]; rfl
  have eff : (q.xcyc p i).wrSelEff = p.decode addr := by simp [XbarCyc.wrSelEff, hx, clean.wrBusy, sel]
  refine ⟨?_, ?_⟩
  · simp [XbarCyc.awHs, XbarCyc.sAxi, hs, hx, clean.wrBusy, sel, hit]
  · simp [BridgeQ.wHs, XbarCyc.sAxi, axi, hs, eff, hit]

theorem late_hs (clean : q.xbar.Clean)
    (axi : q.bridge.axi i.req = { awaddr := addr, awvalid := true, bready := true }) (hit : p.decode addr ≠ 3#2) :
    (q.xcyc p i).awHs = ((q.xcyc p i).slave (p.decode addr)).awready := by
  have hs : (q.xcyc p i).s = { awaddr := addr, awvalid := true, bready := true } := axi
  have hx : (q.xcyc p i).q = q.xbar := rfl
  have sel : (q.xcyc p i).wrSelLive = p.decode addr := by rw [XbarCyc.wrSelLive, hs]; rfl
  simp [XbarCyc.awHs, XbarCyc.sAxi, hs, hx, clean.wrBusy, sel, hit]

theorem word_hs {a : BitVec 2} (busy : q.xbar = { XbarQ.reset with wrSel := a, rdBusy := true, rdSel := k })
    (axi : q.bridge.axi i.req = { rready := true, bready := true }) (hit : k ≠ 3#2) :
    (q.xcyc p i).rHs = ((q.xcyc p i).slave k).rvalid ∧ (q.xcyc p i).sAxi.rdata = ((q.xcyc p i).slave k).rdata := by
  have hs : (q.xcyc p i).s = { rready := true, bready := true } := axi
  have hx : (q.xcyc p i).q = { XbarQ.reset with wrSel := a, rdBusy := true, rdSel := k } := busy
  refine ⟨?_, ?_⟩
  · simp [XbarCyc.rHs, XbarCyc.sAxi, hs, hx, hit]
  · simp [XbarCyc.sAxi, hx, hit]

theorem answer_hs {a : BitVec 2} (busy : q.xbar = { XbarQ.reset with rdSel := a, wrBusy := true, wrSel := k })
    (axi : q.bridge.axi i.req = { bready := true }) (hit : k ≠ 3#2) :
    (q.xcyc p i).bHs = ((q.xcyc p i).slave k).bvalid := by
  have hs : (q.xcyc p i).s = { bready := true } := axi
  have hx : (q.xcyc p i).q = { XbarQ.reset with rdSel := a, wrBusy := true, wrSel := k } := busy
  simp [XbarCyc.bHs, XbarCyc.sAxi, hs, hx, hit]

end PeriQ

/-! ## The trip of a state -/

namespace Soc

variable {u : UartParams}

section Trips

variable (s : Soc u)

/-- The slaves are quiet but for one. -/
def Others (k : BitVec 2) (h : Hands) : Prop := s.hands k = h ∧ ∀ j, j ≠ k → s.hands j = .quiet

/-- The flops of the bridge, the crossbar, the slaves and execute with an access on its way. -/
inductive At : Trip → Prop
  | free (state : s.bus.bridge.state = .S_IDLE) (clean : s.bus.xbar.Clean) (quiet : ∀ j, s.hands j = .quiet)
      (cpu : s.cpu.lsu.core.ex.onPeri = false) : At .free
  | reading {addr data : Word} (state : s.bus.bridge.state = .S_RD_WAIT) (hit : window addr ≠ 3#2)
      (sel : s.bus.xbar = { XbarQ.reset with wrSel := s.bus.xbar.wrSel, rdBusy := true, rdSel := window addr })
      (hands : s.Others (window addr) .answering) (word : s.rdata (window addr) = data)
      (cpu : s.cpu.lsu.core.ex.onPeri = true) (latch : s.cpu.lsu.core.ex.memAddr = addr) : At (.reading addr data)
  | missing {addr : Word} (state : s.bus.bridge.state = .S_RD_WAIT) (miss : window addr = 3#2)
      (sel : s.bus.xbar = { XbarQ.reset with wrSel := s.bus.xbar.wrSel, rdBusy := true, rdSel := 3, errRvalid := true })
      (quiet : ∀ j, s.hands j = .quiet) (cpu : s.cpu.lsu.core.ex.onPeri = true)
      (latch : s.cpu.lsu.core.ex.memAddr = addr) : At (.missing addr)
  | written {k : BitVec 2} (state : s.bus.bridge.state = .S_WR_WAIT) (hit : k ≠ 3#2)
      (sel : s.bus.xbar = { XbarQ.reset with rdSel := s.bus.xbar.rdSel, wrBusy := true, wrSel := k })
      (hands : s.Others k .owing) (cpu : s.cpu.lsu.core.ex.onPeri = false) : At .written
  | dropped (state : s.bus.bridge.state = .S_WR_WAIT)
      (sel : s.bus.xbar = { XbarQ.reset with rdSel := s.bus.xbar.rdSel, wrBusy := true, wrSel := 3, errBvalid := true })
      (quiet : ∀ j, s.hands j = .quiet) (cpu : s.cpu.lsu.core.ex.onPeri = false) : At .written
  | blocked {data : Word} {strb : BitVec 4} (state : s.bus.bridge.state = .S_WR_DATA) (clean : s.bus.xbar.Clean)
      (hit : window s.bus.bridge.addr = 0) (reg : s.bus.bridge.addr.extractLsb 4 2 = REG_TXDATA)
      (hands : s.Others 0 .halfway) (wdata : s.uart.wdata = data) (wstrb : s.uart.wstrb = strb)
      (cpu : s.cpu.lsu.core.ex.onPeri = false) : At (.blocked data strb)

end Trips

section Cycle

variable (p : Params) (m : DmemParams) (s : Soc u)

/-- The access of the peripheral port a cycle retires. -/
def done : List PortOp := (s.cpu.exec p m (s.cpuIn p m)).portDone

end Cycle

variable {p : Params} {m : DmemParams} {s : Soc u} {k : BitVec 2} {r : Bool}

theorem at_start (s : Soc u) : s.start.At .free := by
  refine .free rfl (XbarQ.clean_reset 0 0) (fun j => ?_) rfl
  simp only [hands]
  repeat' split
  all_goals rfl

/-! ## Ports without a request -/

theorem port_still (aw : (s.bus.bridge.axi (s.periReq p m)).awvalid = false)
    (w : (s.bus.bridge.axi (s.periReq p m)).wvalid = false) (ar : (s.bus.bridge.axi (s.periReq p m)).arvalid = false)
    (k : BitVec 2) : Hands.Still (s.port p m k) := by
  constructor <;> simp [port, PeriQ.xcyc, XbarCyc.mAxi, aw, w, ar]

theorem still_idle (hk : k ≠ 3#2) (still : Hands.Still (s.port p m k)) (quiet : s.hands k = .quiet) :
    (s.next p m r).hands k = .quiet ∧ s.writes p m k = [] ∧ s.reads p m k = [] := by
  obtain ⟨none, next⟩ := Hands.quiet_still (c := s.shut p m k) (d := s.hold p m k) still
  refine ⟨?_, writes_none ?_ hk, reads_none still.ar⟩
  · rw [hands_next k hk, quiet]
    exact next
  · rw [quiet]
    exact none

/-- Slaves that are quiet and asked nothing stay quiet. -/
theorem quiet_idle (quiet : ∀ j, s.hands j = .quiet) (still : ∀ j, j ≠ 3#2 → Hands.Still (s.port p m j)) :
    (∀ j, (s.next p m r).hands j = .quiet) ∧ s.ops p m = [] := by
  refine ⟨fun j => ?_, ops_none fun j hj => (still_idle (r := r) hj (still j hj) (quiet j)).2⟩
  by_cases hj : j = 3#2
  · rw [hj]
    rfl
  · exact (still_idle hj (still j hj) (quiet j)).1

/-- Slave `k` does one thing, the others stay quiet. -/
theorem one_moves {h h' : Hands} (others : s.Others k h) (hk : k ≠ 3#2)
    (still : ∀ j, j ≠ k → j ≠ 3#2 → Hands.Still (s.port p m j))
    (next : h.next (s.shut p m k) (s.hold p m k) (s.port p m k) = h') :
    (s.next p m r).Others k h' ∧ s.ops p m = s.writes p m k ++ s.reads p m k := by
  obtain ⟨here, rest⟩ := others
  refine ⟨⟨?_, fun j other => ?_⟩, ops_one (fun j other hj => ?_) hk⟩
  · rw [hands_next k hk, here]
    exact next
  · by_cases hj : j = 3#2
    · rw [hj]
      rfl
    · exact (still_idle hj (still j other hj) (rest j other)).1
  · exact (still_idle (r := r) hj (still j other hj) (rest j other)).2

theorem Others.quiet {k : BitVec 2} (others : s.Others k .quiet) (j : BitVec 2) : s.hands j = .quiet := by
  by_cases same : j = k
  · rw [same]
    exact others.1
  · exact others.2 j same

theorem others_quiet (quiet : ∀ j, s.hands j = .quiet) (k : BitVec 2) : s.Others k .quiet :=
  ⟨quiet k, fun j _ => quiet j⟩

/-- A slave that answers does nothing else. -/
theorem answers_idle {h : Hands} (others : s.Others k h) (hk : k ≠ 3#2) (still : ∀ j, Hands.Still (s.port p m j))
    (answers : h.commits (s.shut p m k) (s.hold p m k) (s.port p m k) = false ∧
      h.next (s.shut p m k) (s.hold p m k) (s.port p m k) = .quiet) :
    (∀ j, (s.next p m r).hands j = .quiet) ∧ s.ops p m = [] := by
  obtain ⟨next, ops⟩ := one_moves (r := r) others hk (fun j _ _ => still j) answers.2
  refine ⟨next.quiet, ?_⟩
  rw [ops, writes_none (by rw [others.1]; exact answers.1) hk, reads_none (still k).ar]
  rfl

/-! ## The CPU's side -/

theorem portCycle (inv : s.cpu.lsu.Inv p m) : (s.cpu.exec p m (s.cpuIn p m)).PortCycle :=
  ExCyc.portCycle rfl inv.core

/-- Without an answer and with the port taken, a CPU that does not wait there does nothing there. -/
theorem cpu_out (inv : s.cpu.lsu.Inv p m) (cpu : s.cpu.lsu.core.ex.onPeri = false)
    (taken : s.bus.bridge.state ≠ .S_IDLE) :
    s.done p m = [] ∧ (s.next p m r).cpu.lsu.core.ex.onPeri = false := by
  have ready : (s.cpu.exec p m (s.cpuIn p m)).periRsp.wready = false := by
    have eq : (s.cpu.exec p m (s.cpuIn p m)).periRsp.wready = (s.bus.bridge.state == .S_IDLE) := rfl
    rw [eq]
    simpa using taken
  cases portCycle inv with
  | still before req done after => exact ⟨done, after⟩
  | refused before req ready done after => exact ⟨done, after⟩
  | asks before req ready' => rw [ready] at ready'; cases ready'
  | stores before req ready' => rw [ready] at ready'; cases ready'
  | waits before => rw [show s.cpu.lsu.core.ex.onPeri = true from before] at cpu; cases cpu
  | answered before => rw [show s.cpu.lsu.core.ex.onPeri = true from before] at cpu; cases cpu

/-- A CPU that waits for its word reads, and retires when it is there. -/
theorem cpu_word (inv : s.cpu.lsu.Inv p m) (cpu : s.cpu.lsu.core.ex.onPeri = true) :
    (s.periReq p m).rready = true ∧
      ((s.cpuIn p m).periRsp.rvalid = true →
        s.done p m = [.load s.cpu.lsu.core.ex.memAddr (s.cpuIn p m).periRsp.rdata] ∧
          (s.next p m r).cpu.lsu.core.ex.onPeri = false) := by
  cases portCycle inv with
  | waits before req open_ silent =>
    refine ⟨open_, fun word => ?_⟩
    rw [show (s.cpuIn p m).periRsp.rvalid = false from silent] at word
    cases word
  | answered before req open_ word done after => exact ⟨open_, fun _ => ⟨done, after⟩⟩
  | still before => rw [show s.cpu.lsu.core.ex.onPeri = false from before] at cpu; cases cpu
  | refused before => rw [show s.cpu.lsu.core.ex.onPeri = false from before] at cpu; cases cpu
  | asks before => rw [show s.cpu.lsu.core.ex.onPeri = false from before] at cpu; cases cpu
  | stores before => rw [show s.cpu.lsu.core.ex.onPeri = false from before] at cpu; cases cpu

/-! ## One cycle of a trip -/

theorem next_bridge : (s.next p m r).bus.bridge.state =
    s.bus.bridge.stateD (s.periReq p m) (s.bus.xcyc .board (s.periIn p m)).sAxi := rfl

/-- The address and the data handshakes at the bridge. -/
theorem bridge_hs : s.bus.bridge.arHs (s.periReq p m) (s.bus.xcyc .board (s.periIn p m)).sAxi =
      (s.bus.xcyc .board (s.periIn p m)).arHs ∧
    s.bus.bridge.awHs (s.periReq p m) (s.bus.xcyc .board (s.periIn p m)).sAxi =
      (s.bus.xcyc .board (s.periIn p m)).awHs := ⟨rfl, rfl⟩

/-- Nothing is asked. -/
theorem free_rests (state : s.bus.bridge.state = .S_IDLE) (clean : s.bus.xbar.Clean)
    (quiet : ∀ j, s.hands j = .quiet) (req : (s.periReq p m).wvalid = false)
    (after : (s.next p m r).cpu.lsu.core.ex.onPeri = false) : (s.next p m r).At .free ∧ s.ops p m = [] := by
  have axi : s.bus.bridge.axi (s.periReq p m) = { bready := true } := by simp [BridgeQ.axi, state, req]
  obtain ⟨quiet', none⟩ := quiet_idle (p := p) (m := m) (r := r) quiet
    fun j _ => port_still (by rw [axi]) (by rw [axi]) (by rw [axi]) j
  refine ⟨.free ?_ ?_ quiet' after, none⟩
  · rw [next_bridge, BridgeQ.stateD, state]
    simp [req]
  · exact (quiet_phase (p := .board) (i := s.periIn p m) clean axi).2

/-- A read's address on the bus. -/
theorem free_reads (state : s.bus.bridge.state = .S_IDLE) (clean : s.bus.xbar.Clean)
    (quiet : ∀ j, s.hands j = .quiet) (req : (s.periReq p m).wvalid = true) (read : (s.periReq p m).we = false)
    (after : (s.next p m r).cpu.lsu.core.ex.onPeri = true)
    (latch : (s.next p m r).cpu.lsu.core.ex.memAddr = (s.periReq p m).addr) :
    ∃ t, Trip.Moves s.uart.txFifoFull .free [] (s.ops p m) t ∧ (s.next p m r).At t := by
  have axi : s.bus.bridge.axi (s.periReq p m) = { araddr := (s.periReq p m).addr, arvalid := true, bready := true } := by
    simp [BridgeQ.axi, state, req, read]
  have next : (s.bus.xcyc .board (s.periIn p m)).arHs = true →
      (s.next p m r).bus.bridge.state = .S_RD_WAIT := by
    intro hs
    rw [next_bridge, BridgeQ.stateD, state, bridge_hs.1, hs]
    simp [req, read]
  have aw : ∀ j, (s.port p m j).awvalid = false := by
    intro j
    simp [port, PeriQ.xcyc, XbarCyc.mAxi, axi]
  have w : ∀ j, (s.port p m j).wvalid = false := by
    intro j
    simp [port, PeriQ.xcyc, XbarCyc.mAxi, axi]
  have ar : ∀ j, (s.port p m j).arvalid = (window (s.periReq p m).addr == j) := by
    intro j
    simp [port, PeriQ.xcyc, XbarCyc.mAxi, XbarCyc.rdSelLive, axi, clean.rdBusy]
  have still : ∀ j, j ≠ window (s.periReq p m).addr → Hands.Still (s.port p m j) := by
    intro j other
    exact ⟨aw j, w j, by rw [ar, beq_eq_false_iff_ne]; exact other.symm⟩
  by_cases hit : window (s.periReq p m).addr = 3#2
  · obtain ⟨-, hs, sel⟩ := read_miss (p := .board) (i := s.periIn p m) clean axi hit
    obtain ⟨quiet', none⟩ := quiet_idle (p := p) (m := m) (r := r) quiet fun j hj => still j (by rw [hit]; exact hj)
    rw [none]
    refine ⟨.missing (s.periReq p m).addr, .misses hit, .missing (next hs) hit ?_ quiet' after latch⟩
    have eq : (s.next p m r).bus.xbar = _ := sel
    rw [eq]
  · have asked : (s.port p m (window (s.periReq p m).addr)).arvalid = true := by rw [ar, beq_self_eq_true]
    obtain ⟨none, answers⟩ := Hands.quiet_read (c := s.shut p m (window (s.periReq p m).addr))
      (d := s.hold p m (window (s.periReq p m).addr)) (aw _) (w _) asked
    obtain ⟨hands, ops⟩ := one_moves (r := r) (others_quiet quiet _) hit (fun j other _ => still j other) answers
    obtain ⟨read', word⟩ := reads_quiet (r := r) hit (quiet _) asked
    have hs : (s.bus.xcyc .board (s.periIn p m)).arHs = true := by
      obtain ⟨-, -, -, ready, -⟩ := slave_hands (p := p) (m := m) (s := s) hit
      rw [PeriQ.read_hs (p := .board) (i := s.periIn p m) clean axi hit]
      exact ready.trans (by rw [quiet]; rfl)
    obtain ⟨-, sel⟩ := read_phase (p := .board) (i := s.periIn p m) clean axi hit
    rw [hs, if_pos rfl, decode_board] at sel
    have addr : (s.port p m (window (s.periReq p m).addr)).araddr = (s.periReq p m).addr := by
      simp [port, PeriQ.xcyc, XbarCyc.mAxi, axi]
    rw [ops, writes_none (by rw [quiet]; exact none) hit, read', addr]
    refine ⟨.reading (s.periReq p m).addr (s.shows p m (window (s.periReq p m).addr)), .reads hit,
      .reading (next hs) hit ?_ hands word after latch⟩
    have eq : (s.next p m r).bus.xbar = _ := sel
    rw [eq]

/-- A write that comes whole is not put off if its address is taken. -/
theorem hold_shut (aw : (s.port p m k).awvalid = true) (seen : (s.hands k).awSeen = false)
    (owed : (s.hands k).bvalid = false) (open_ : s.shut p m k = false) : s.hold p m k = false := by
  by_cases hk : k = 0
  · subst hk
    have aw' : (s.uartIn p m).axi.awvalid = true := aw
    have seen' : s.uart.awSeen = false := seen
    have owed' : s.uart.bvalid = false := owed
    have room : s.uart.txFullBlockAw (s.uartIn p m) = false := open_
    have hs : s.uart.awHs (s.uartIn p m) = true := by
      simp [UartQ.awHs, UartQ.awready, aw', seen', owed', room]
    have eq : s.hold p m 0 = s.uart.txWriteHold (s.uartIn p m) := rfl
    rw [eq, UartQ.txWriteHold, UartQ.txAddrSel, UartQ.waddrEff, hs, if_pos rfl]
    exact room
  · rw [hold, beq_eq_false_iff_ne.mpr hk, Bool.false_and]

/-- The ports under a whole write: slave `k` has it, the others nothing. -/
structure Offered (p : Params) (m : DmemParams) (s : Soc u) (k : BitVec 2) (req : MemReq) : Prop where
  aw : (s.port p m k).awvalid = true
  w : (s.port p m k).wvalid = true
  ar : (s.port p m k).arvalid = false
  addr : (s.port p m k).awaddr = req.addr
  data : (s.port p m k).wdata = req.wdata
  strb : (s.port p m k).wstrb = req.wstrb
  still : ∀ j, j ≠ k → Hands.Still (s.port p m j)

theorem offered_write {req : MemReq} (clean : s.bus.xbar.Clean)
    (axi : s.bus.bridge.axi (s.periReq p m) =
      { awaddr := req.addr, awvalid := true, wdata := req.wdata, wstrb := req.wstrb, wvalid := true, bready := true }) :
    Offered p m s (window req.addr) req := by
  have aw : ∀ j, (s.port p m j).awvalid = (window req.addr == j) := by
    intro j
    simp [port, PeriQ.xcyc, XbarCyc.mAxi, XbarCyc.wrSelLive, axi, clean.wrBusy]
  have w : ∀ j, (s.port p m j).wvalid = (window req.addr == j) := by
    intro j
    simp [port, PeriQ.xcyc, XbarCyc.mAxi, XbarCyc.wrSelEff, XbarCyc.wrSelLive, axi, clean.wrBusy]
  have ar : ∀ j, (s.port p m j).arvalid = false := by
    intro j
    simp [port, PeriQ.xcyc, XbarCyc.mAxi, axi]
  refine ⟨by rw [aw, beq_self_eq_true], by rw [w, beq_self_eq_true], ar _, ?_, ?_, ?_, fun j other => ?_⟩
  · simp [port, PeriQ.xcyc, XbarCyc.mAxi, axi]
  · simp [port, PeriQ.xcyc, XbarCyc.mAxi, axi]
  · simp [port, PeriQ.xcyc, XbarCyc.mAxi, axi]
  · exact ⟨by rw [aw, beq_eq_false_iff_ne]; exact other.symm, by rw [w, beq_eq_false_iff_ne]; exact other.symm, ar j⟩

/-- A store leaves the CPU: the bridge has its request on both write channels. -/
structure Launch (p : Params) (m : DmemParams) (s : Soc u) (r : Bool) : Prop where
  state : s.bus.bridge.state = .S_IDLE
  clean : s.bus.xbar.Clean
  quiet : ∀ j, s.hands j = .quiet
  req : (s.periReq p m).wvalid = true
  write : (s.periReq p m).we = true
  after : (s.next p m r).cpu.lsu.core.ex.onPeri = false

namespace Launch

theorem axi (launch : s.Launch p m r) : s.bus.bridge.axi (s.periReq p m) =
    { awaddr := (s.periReq p m).addr, awvalid := true, wdata := (s.periReq p m).wdata,
      wstrb := (s.periReq p m).wstrb, wvalid := true, bready := true } := by
  simp [BridgeQ.axi, launch.state, launch.req, launch.write]

theorem offered (launch : s.Launch p m r) : Offered p m s (window (s.periReq p m).addr) (s.periReq p m) :=
  offered_write launch.clean launch.axi

/-- The bridge goes on as the two handshakes come out. -/
theorem bridge (launch : s.Launch p m r) {aw w : Bool} (awHs : (s.bus.xcyc .board (s.periIn p m)).awHs = aw)
    (wHs : s.bus.bridge.wHs (s.periReq p m) (s.bus.xcyc .board (s.periIn p m)).sAxi = w) :
    (s.next p m r).bus.bridge.state =
      if aw && w then .S_WR_WAIT else if aw then .S_WR_ADDR else if w then .S_WR_DATA else .S_WR_BOTH := by
  rw [next_bridge, BridgeQ.stateD, launch.state]
  simp only [launch.req, launch.write, if_true]
  rw [BridgeQ.writeLaunch, bridge_hs.2, awHs, wHs]

/-- To no window. -/
theorem drops (launch : s.Launch p m r) (miss : window (s.periReq p m).addr = 3#2) :
    (s.next p m r).At .written ∧ s.ops p m = [] := by
  obtain ⟨-, awHs, wHs, sel⟩ := write_miss (p := .board) (i := s.periIn p m) launch.clean launch.axi miss
  obtain ⟨quiet', none⟩ := quiet_idle (p := p) (m := m) (r := r) launch.quiet
    fun j hj => launch.offered.still j (by rw [miss]; exact hj)
  have sel' : (s.next p m r).bus.xbar = _ := sel
  refine ⟨.dropped (launch.bridge awHs wHs) ?_ quiet' launch.after, none⟩
  rw [sel']

/-- The data are taken at once, the address unless the TX FIFO shuts it. -/
theorem taken (launch : s.Launch p m r) (hit : window (s.periReq p m).addr ≠ 3#2) :
    (s.bus.xcyc .board (s.periIn p m)).awHs = !s.shut p m (window (s.periReq p m).addr) ∧
      s.bus.bridge.wHs (s.periReq p m) (s.bus.xcyc .board (s.periIn p m)).sAxi = true := by
  obtain ⟨awHs, wHs⟩ := PeriQ.write_hs (p := .board) (i := s.periIn p m) launch.clean launch.axi hit
  obtain ⟨awready, wready, -⟩ := slave_hands (p := p) (m := m) (s := s) hit
  exact ⟨(awHs.trans awready).trans (by rw [launch.quiet]; rfl), (wHs.trans wready).trans (by rw [launch.quiet]; rfl)⟩

theorem commits (launch : s.Launch p m r) (hit : window (s.periReq p m).addr ≠ 3#2)
    (open_ : s.shut p m (window (s.periReq p m).addr) = false) :
    (s.next p m r).At .written ∧
      s.ops p m = [.write (window (s.periReq p m).addr) (s.periReq p m).addr (s.periReq p m).wdata
        (s.periReq p m).wstrb] := by
  have off := launch.offered
  obtain ⟨awHs, wHs⟩ := launch.taken hit
  rw [open_] at awHs
  have free := hold_shut off.aw (by rw [launch.quiet]; rfl) (by rw [launch.quiet]; rfl) open_
  obtain ⟨commits, owes⟩ := Hands.quiet_write off.aw off.w off.ar open_ free
  obtain ⟨hands, ops⟩ := one_moves (r := r) (others_quiet launch.quiet _) hit (fun j other _ => off.still j other) owes
  have whole := writes_whole hit (launch.quiet _) off.aw off.w (by rw [launch.quiet]; exact commits)
  obtain ⟨-, sel⟩ := write_phase (p := .board) (i := s.periIn p m) launch.clean launch.axi hit
  rw [awHs] at sel
  have sel' : (s.next p m r).bus.xbar = _ := sel
  refine ⟨.written (launch.bridge awHs wHs) hit ?_ hands launch.after, ?_⟩
  · rw [sel']
    rfl
  · rw [ops, whole, reads_none off.ar, off.addr, off.data, off.strb]
    rfl

theorem blocks (launch : s.Launch p m r) (hit : window (s.periReq p m).addr ≠ 3#2)
    (shut : s.shut p m (window (s.periReq p m).addr) = true) :
    window (s.periReq p m).addr = 0 ∧ (s.periReq p m).addr.extractLsb 4 2 = REG_TXDATA ∧ s.uart.txFifoFull = true ∧
      (s.next p m r).At (.blocked (s.periReq p m).wdata (s.periReq p m).wstrb) ∧ s.ops p m = [] := by
  have off := launch.offered
  obtain ⟨awHs, wHs⟩ := launch.taken hit
  rw [shut] at awHs
  obtain ⟨none, half⟩ := Hands.quiet_shut (d := s.hold p m (window (s.periReq p m).addr)) off.aw off.w off.ar shut
  obtain ⟨hands, ops⟩ := one_moves (r := r) (others_quiet launch.quiet _) hit (fun j other _ => off.still j other) half
  have quietly := writes_none (by rw [launch.quiet]; exact none) hit
  obtain ⟨-, sel⟩ := write_phase (p := .board) (i := s.periIn p m) launch.clean launch.axi hit
  rw [awHs] at sel
  have sel' : (s.next p m r).bus.xbar = s.bus.xbar := sel
  have latch : (s.next p m r).bus.bridge.Holds (s.periReq p m) :=
    holds_next (p := .board) (i := s.periIn p m) launch.state launch.req
  -- Only the UART shuts its address channel, and only to `TXDATA`.
  obtain ⟨zero, full⟩ : window (s.periReq p m).addr = 0 ∧ s.uart.txFullBlockAw (s.uartIn p m) = true := by
    simpa [Soc.shut] using shut
  have addr : (s.uartIn p m).axi.awaddr = (s.periReq p m).addr := by
    have := off.addr
    rw [zero] at this
    exact this
  obtain ⟨reg, busy⟩ : UartQ.awaddrIn (s.uartIn p m) = REG_TXDATA ∧ s.uart.txFifoFull = true := by
    simpa [UartQ.txFullBlockAw, UartQ.txReady] using full
  rw [UartQ.awaddrIn, addr] at reg
  rw [zero] at hands
  have wHs0 : s.uart.wHs (s.uartIn p m) = true := by
    have valid := off.w
    rw [zero] at valid
    have seen : s.uart.wSeen = false := congrArg Hands.wSeen (launch.quiet 0)
    have owed : s.uart.bvalid = false := congrArg Hands.bvalid (launch.quiet 0)
    rw [UartQ.wHs, UartQ.wready, seen, owed]
    exact Bool.and_eq_true_iff.mpr ⟨valid, rfl⟩
  refine ⟨zero, reg, busy, .blocked (launch.bridge awHs wHs) (by rw [sel']; exact launch.clean) ?_ ?_ hands ?_ ?_
    launch.after, ?_⟩
  · rw [latch.addr]
    exact zero
  · rw [latch.addr]
    exact reg
  · have next : (s.next p m r).uart.wdata = s.uart.wdataEff (s.uartIn p m) := rfl
    have data := off.data
    rw [zero] at data
    rw [next, UartQ.wdataEff, wHs0, if_pos rfl]
    exact data
  · have next : (s.next p m r).uart.wstrb = s.uart.wstrbEff (s.uartIn p m) := rfl
    have strb := off.strb
    rw [zero] at strb
    rw [next, UartQ.wstrbEff, wHs0, if_pos rfl]
    exact strb
  · rw [ops, quietly, reads_none off.ar]
    rfl

end Launch

/-- A slave's word goes through to the CPU. -/
theorem reading_next {addr data : Word} (inv : s.cpu.lsu.Inv p m) (state : s.bus.bridge.state = .S_RD_WAIT)
    (hit : window addr ≠ 3#2)
    (sel : s.bus.xbar = { XbarQ.reset with wrSel := s.bus.xbar.wrSel, rdBusy := true, rdSel := window addr })
    (hands : s.Others (window addr) .answering) (word : s.rdata (window addr) = data)
    (cpu : s.cpu.lsu.core.ex.onPeri = true) (latch : s.cpu.lsu.core.ex.memAddr = addr) :
    s.done p m = [.load addr data] ∧ s.ops p m = [] ∧ (s.next p m r).At .free := by
  obtain ⟨ready, retires⟩ := cpu_word (r := r) inv cpu
  have axi : s.bus.bridge.axi (s.periReq p m) = { rready := true, bready := true } := by
    simp [BridgeQ.axi, state, ready]
  obtain ⟨rHs, rdata⟩ := PeriQ.word_hs (p := .board) (i := s.periIn p m) sel axi hit
  obtain ⟨-, -, -, -, rvalid, data'⟩ := slave_hands (p := p) (m := m) (s := s) hit
  have rHs' : (s.bus.xcyc .board (s.periIn p m)).rHs = true := (rHs.trans rvalid).trans (by rw [hands.1]; rfl)
  have rsp : (s.cpuIn p m).periRsp = s.bus.bridge.rsp (s.periReq p m) (s.bus.xcyc .board (s.periIn p m)).sAxi := rfl
  have hs : s.bus.bridge.rHs (s.periReq p m) (s.bus.xcyc .board (s.periIn p m)).sAxi = true := rHs'
  obtain ⟨done, after⟩ := retires (by rw [rsp, BridgeQ.rsp, state, hs]; rfl)
  have value : (s.cpuIn p m).periRsp.rdata = data := by
    rw [rsp, BridgeQ.rsp, state, if_pos rfl]
    exact (rdata.trans data').trans word
  have still : ∀ j, Hands.Still (s.port p m j) := port_still (by rw [axi]) (by rw [axi]) (by rw [axi])
  have takes : (s.port p m (window addr)).rready = true := by
    have busy : s.bus.xbar.rdBusy = true ∧ s.bus.xbar.rdSel = window addr := by rw [sel]; exact ⟨rfl, rfl⟩
    simp [port, PeriQ.xcyc, XbarCyc.mAxi, axi, busy]
  obtain ⟨quiet, none⟩ := answers_idle (r := r) hands hit still (Hands.answering_still (still _) takes)
  have next : (s.next p m r).bus.xbar = _ := (readWait_phase (p := .board) (i := s.periIn p m) sel
    (axi.trans (by rw [show (s.periIn p m).req.rready = true from ready])) hit).2
  rw [rHs', if_pos rfl] at next
  refine ⟨by rw [done, latch, value], none, .free ?_ (by rw [next]; exact XbarQ.clean_reset _ _) quiet after⟩
  rw [next_bridge, BridgeQ.stateD, state]
  exact if_pos hs

/-- The crossbar's own word is 0. -/
theorem missing_next {addr : Word} (inv : s.cpu.lsu.Inv p m) (state : s.bus.bridge.state = .S_RD_WAIT)
    (sel : s.bus.xbar = { XbarQ.reset with wrSel := s.bus.xbar.wrSel, rdBusy := true, rdSel := 3, errRvalid := true })
    (quiet : ∀ j, s.hands j = .quiet) (cpu : s.cpu.lsu.core.ex.onPeri = true)
    (latch : s.cpu.lsu.core.ex.memAddr = addr) :
    s.done p m = [.load addr 0] ∧ s.ops p m = [] ∧ (s.next p m r).At .free := by
  obtain ⟨ready, retires⟩ := cpu_word (r := r) inv cpu
  have axi : s.bus.bridge.axi (s.periReq p m) = { rready := true, bready := true } := by
    simp [BridgeQ.axi, state, ready]
  obtain ⟨-, rHs, rdata, -, next⟩ := readError_phase (p := .board) (i := s.periIn p m) sel
    (axi.trans (by rw [show (s.periIn p m).req.rready = true from ready]))
  have rsp : (s.cpuIn p m).periRsp = s.bus.bridge.rsp (s.periReq p m) (s.bus.xcyc .board (s.periIn p m)).sAxi := rfl
  have hs : s.bus.bridge.rHs (s.periReq p m) (s.bus.xcyc .board (s.periIn p m)).sAxi = true := rHs.trans ready
  obtain ⟨done, after⟩ := retires (by rw [rsp, BridgeQ.rsp, state, hs]; rfl)
  have value : (s.cpuIn p m).periRsp.rdata = 0 := by
    rw [rsp, BridgeQ.rsp, state, if_pos rfl]
    exact rdata
  obtain ⟨quiet', none⟩ := quiet_idle (p := p) (m := m) (r := r) quiet
    fun j _ => port_still (by rw [axi]) (by rw [axi]) (by rw [axi]) j
  have next' : (s.next p m r).bus.xbar = _ := next
  rw [rHs, show (s.periIn p m).req.rready = true from ready, if_pos rfl] at next'
  refine ⟨by rw [done, latch, value], none, .free ?_ (by rw [next']; exact XbarQ.clean_reset _ _) quiet' after⟩
  rw [next_bridge, BridgeQ.stateD, state]
  exact if_pos hs

/-- The write's response ends it, from a slave -/
theorem written_next (inv : s.cpu.lsu.Inv p m) (state : s.bus.bridge.state = .S_WR_WAIT) (hit : k ≠ 3#2)
    (sel : s.bus.xbar = { XbarQ.reset with rdSel := s.bus.xbar.rdSel, wrBusy := true, wrSel := k })
    (hands : s.Others k .owing) (cpu : s.cpu.lsu.core.ex.onPeri = false) :
    s.done p m = [] ∧ s.ops p m = [] ∧ (s.next p m r).At .free := by
  obtain ⟨done, after⟩ := cpu_out (r := r) inv cpu (by rw [state]; exact BridgeState.noConfusion)
  have axi : s.bus.bridge.axi (s.periReq p m) = { bready := true } := by simp [BridgeQ.axi, state]
  have bHs := PeriQ.answer_hs (p := .board) (i := s.periIn p m) sel axi hit
  obtain ⟨-, -, bvalid, -⟩ := slave_hands (p := p) (m := m) (s := s) hit
  have bHs' : (s.bus.xcyc .board (s.periIn p m)).bHs = true := (bHs.trans bvalid).trans (by rw [hands.1]; rfl)
  have hs : s.bus.bridge.bHs (s.periReq p m) (s.bus.xcyc .board (s.periIn p m)).sAxi = true := bHs'
  have still : ∀ j, Hands.Still (s.port p m j) := port_still (by rw [axi]) (by rw [axi]) (by rw [axi])
  have takes : (s.port p m k).bready = true := by
    have busy : s.bus.xbar.wrBusy = true ∧ s.bus.xbar.wrSel = k := by rw [sel]; exact ⟨rfl, rfl⟩
    simp [port, PeriQ.xcyc, XbarCyc.mAxi, axi, busy]
  obtain ⟨quiet, none⟩ := answers_idle (r := r) hands hit still (Hands.owing_still (still _) takes)
  have next : (s.next p m r).bus.xbar = _ := (wrWait_phase (p := .board) (i := s.periIn p m) sel axi hit).2
  rw [bHs', if_pos rfl] at next
  refine ⟨done, none, .free ?_ (by rw [next]; exact XbarQ.clean_reset _ _) quiet after⟩
  rw [next_bridge, BridgeQ.stateD, state]
  exact if_pos hs

/-- or from the crossbar. -/
theorem dropped_next (inv : s.cpu.lsu.Inv p m) (state : s.bus.bridge.state = .S_WR_WAIT)
    (sel : s.bus.xbar = { XbarQ.reset with rdSel := s.bus.xbar.rdSel, wrBusy := true, wrSel := 3, errBvalid := true })
    (quiet : ∀ j, s.hands j = .quiet) (cpu : s.cpu.lsu.core.ex.onPeri = false) :
    s.done p m = [] ∧ s.ops p m = [] ∧ (s.next p m r).At .free := by
  obtain ⟨done, after⟩ := cpu_out (r := r) inv cpu (by rw [state]; exact BridgeState.noConfusion)
  have axi : s.bus.bridge.axi (s.periReq p m) = { bready := true } := by simp [BridgeQ.axi, state]
  obtain ⟨-, bHs, -, next⟩ := wrError_phase (p := .board) (i := s.periIn p m) sel axi
  obtain ⟨quiet', none⟩ := quiet_idle (p := p) (m := m) (r := r) quiet
    fun j _ => port_still (by rw [axi]) (by rw [axi]) (by rw [axi]) j
  have next' : (s.next p m r).bus.xbar = _ := next
  refine ⟨done, none, .free ?_ (by rw [next']; exact XbarQ.clean_reset _ _) quiet' after⟩
  rw [next_bridge, BridgeQ.stateD, state]
  exact if_pos bHs

/-! ## A write to a full FIFO -/

/-- Its address alone is on the bus. -/
theorem blocked_ports (state : s.bus.bridge.state = .S_WR_DATA) (clean : s.bus.xbar.Clean)
    (hit : window s.bus.bridge.addr = 0) :
    (s.port p m 0).awvalid = true ∧ (s.port p m 0).wvalid = false ∧ (s.port p m 0).arvalid = false ∧
      (s.port p m 0).awaddr = s.bus.bridge.addr ∧ ∀ j, j ≠ 0 → j ≠ 3#2 → Hands.Still (s.port p m j) := by
  have axi : s.bus.bridge.axi (s.periReq p m) =
      { awaddr := s.bus.bridge.addr, awvalid := true, bready := true } := by simp [BridgeQ.axi, state]
  have aw : ∀ j, (s.port p m j).awvalid = (window s.bus.bridge.addr == j) := by
    intro j
    simp [port, PeriQ.xcyc, XbarCyc.mAxi, XbarCyc.wrSelLive, axi, clean.wrBusy]
  refine ⟨?_, ?_, ?_, ?_, fun j other _ => ⟨?_, ?_, ?_⟩⟩
  · rw [aw, hit]
    rfl
  · simp [port, PeriQ.xcyc, XbarCyc.mAxi, axi]
  · simp [port, PeriQ.xcyc, XbarCyc.mAxi, axi]
  · simp [port, PeriQ.xcyc, XbarCyc.mAxi, axi]
  · rw [aw, hit, beq_eq_false_iff_ne]
    exact other.symm
  · simp [port, PeriQ.xcyc, XbarCyc.mAxi, axi]
  · simp [port, PeriQ.xcyc, XbarCyc.mAxi, axi]

/-- It stays until there is room, and is committed then. -/
theorem blocked_next {data : Word} {strb : BitVec 4} (inv : s.cpu.lsu.Inv p m)
    (state : s.bus.bridge.state = .S_WR_DATA) (clean : s.bus.xbar.Clean) (hit : window s.bus.bridge.addr = 0)
    (reg : s.bus.bridge.addr.extractLsb 4 2 = REG_TXDATA) (hands : s.Others 0 .halfway) (wdata : s.uart.wdata = data)
    (wstrb : s.uart.wstrb = strb) (cpu : s.cpu.lsu.core.ex.onPeri = false) :
    s.done p m = [] ∧
      ∃ t, Trip.Moves s.uart.txFifoFull (.blocked data strb) [] (s.ops p m) t ∧ (s.next p m r).At t := by
  obtain ⟨done, after⟩ := cpu_out (r := r) inv cpu (by rw [state]; exact BridgeState.noConfusion)
  obtain ⟨aw, w, ar, addr, still⟩ := blocked_ports (p := p) (m := m) state clean hit
  have axi : s.bus.bridge.axi (s.periReq p m) =
      { awaddr := s.bus.bridge.addr, awvalid := true, bready := true } := by simp [BridgeQ.axi, state]
  have hit' : XbarParams.board.decode s.bus.bridge.addr ≠ 3#2 := by
    rw [show XbarParams.board.decode s.bus.bridge.addr = 0 from hit]
    decide
  have awHs := PeriQ.late_hs (p := .board) (i := s.periIn p m) clean axi hit'
  rw [show XbarParams.board.decode s.bus.bridge.addr = 0 from hit] at awHs
  obtain ⟨ready, -⟩ := slave_hands (p := p) (m := m) (s := s) (show (0 : BitVec 2) ≠ 3#2 by decide)
  have awHs' : (s.bus.xcyc .board (s.periIn p m)).awHs = !s.shut p m 0 :=
    (awHs.trans ready).trans (by rw [hands.1]; rfl)
  have hs : s.bus.bridge.awHs (s.periReq p m) (s.bus.xcyc .board (s.periIn p m)).sAxi = !s.shut p m 0 := awHs'
  have shut : s.shut p m 0 = s.uart.txFifoFull := by
    have same : (s.uartIn p m).axi.awaddr = s.bus.bridge.addr := addr
    have eq : s.shut p m 0 = s.uart.txFullBlockAw (s.uartIn p m) := rfl
    rw [eq, UartQ.txFullBlockAw, UartQ.awaddrIn, same, reg, UartQ.txReady, Bool.not_not]
    rfl
  obtain ⟨-, sel⟩ := @wrData_phase .board s.bus (s.periIn p m) { s.periReq p m with addr := s.bus.bridge.addr }
    clean axi hit'
  have sel' : (s.next p m r).bus.xbar = _ := sel
  have next : (s.next p m r).bus.bridge.state = if s.shut p m 0 then .S_WR_DATA else .S_WR_WAIT := by
    rw [next_bridge, BridgeQ.stateD, state]
    simp only [hs]
    cases s.shut p m 0 <;> rfl
  have wHs : s.uart.wHs (s.uartIn p m) = false := by
    rw [UartQ.wHs, show (s.uartIn p m).axi.wvalid = false from w, Bool.false_and]
  refine ⟨done, ?_⟩
  cases full : s.uart.txFifoFull with
  | true =>
    have closed := shut.trans full
    rw [closed] at awHs' next
    rw [awHs', Bool.not_true, if_neg Bool.false_ne_true] at sel'
    obtain ⟨none, half⟩ := Hands.halfway_shut (d := s.hold p m 0) w ar closed
    obtain ⟨hands', ops⟩ := one_moves (r := r) hands (by decide) still half
    rw [ops, writes_none (by rw [hands.1]; exact none) (by decide), reads_none ar]
    have latch : (s.next p m r).bus.bridge.addr = s.bus.bridge.addr := by
      have accept : s.bus.bridge.accept (s.periReq p m) = false := by simp [BridgeQ.accept, state]
      have eq : (s.next p m r).bus.bridge.addr =
          if s.bus.bridge.accept (s.periReq p m) then (s.periReq p m).addr else s.bus.bridge.addr := rfl
      rw [eq, accept]
      rfl
    refine ⟨_, .stays rfl, .blocked next (by rw [sel']; exact clean) (by rw [latch]; exact hit)
      (by rw [latch]; exact reg) hands' ?_ ?_ after⟩
    · have eq : (s.next p m r).uart.wdata = s.uart.wdataEff (s.uartIn p m) := rfl
      rw [eq, UartQ.wdataEff, wHs]
      exact wdata
    · have eq : (s.next p m r).uart.wstrb = s.uart.wstrbEff (s.uartIn p m) := rfl
      rw [eq, UartQ.wstrbEff, wHs]
      exact wstrb
  | false =>
    have open_ := shut.trans full
    rw [open_] at awHs' next
    rw [awHs', Bool.not_false, if_pos rfl] at sel'
    have free := hold_shut aw (by rw [hands.1]; rfl) (by rw [hands.1]; rfl) open_
    obtain ⟨commits, owes⟩ := Hands.halfway_write aw ar open_ free
    obtain ⟨hands', ops⟩ := one_moves (r := r) hands (by decide) still owes
    have write : s.uart.doWrite (s.uartIn p m) = true := by
      have := commits_eq (p := p) (m := m) (s := s) (show (0 : BitVec 2) ≠ 3#2 by decide)
      rw [hands.1, commits] at this
      exact this.symm
    have hs0 : s.uart.awHs (s.uartIn p m) = true := by
      have here := hands.1
      rw [UartQ.awHs]
      refine Bool.and_eq_true_iff.mpr ⟨aw, ?_⟩
      have eq : s.uart.awready (s.uartIn p m) = (s.hands 0).awready (s.shut p m 0) := rfl
      rw [eq, here, open_]
      rfl
    have sel0 : UartQ.awaddrIn (s.uartIn p m) = REG_TXDATA := by
      have same : (s.uartIn p m).axi.awaddr = s.bus.bridge.addr := addr
      rw [UartQ.awaddrIn, same]
      exact reg
    have wrote : s.writes p m 0 = [.uart REG_TXDATA data strb] := by
      have eq : s.writes p m 0 = (s.uart.write (s.uartIn p m)).toList.map fun w => .uart w.1 w.2.1 w.2.2 := rfl
      rw [eq, UartQ.write, write, UartQ.waddrEff, UartQ.wdataEff, UartQ.wstrbEff, hs0, wHs, sel0, wdata, wstrb]
      rfl
    rw [ops, wrote, reads_none ar]
    refine ⟨_, .enters rfl, .written next (by decide) ?_ hands' after⟩
    rw [sel']
    have hit'' : XbarParams.board.decode s.bus.bridge.addr = 0 := hit
    simp only [hit'']

/-! ## Every cycle -/

/-- One cycle of the closed circuit moves the access on its way. -/
theorem At.next {t : Trip} (inv : s.cpu.lsu.Inv p m) (at_ : s.At t) :
    ∃ t', Trip.Moves s.uart.txFifoFull t (s.done p m) (s.ops p m) t' ∧ (s.next p m r).At t' := by
  cases at_ with
  | free state clean quiet cpu =>
    have ready : (s.cpu.exec p m (s.cpuIn p m)).periRsp.wready = true := by
      have eq : (s.cpu.exec p m (s.cpuIn p m)).periRsp.wready = (s.bus.bridge.state == .S_IDLE) := rfl
      rw [eq, state]
      rfl
    cases portCycle inv with
    | still before req done after =>
      obtain ⟨free, none⟩ := free_rests (r := r) state clean quiet req after
      rw [none, show s.done p m = [] from done]
      exact ⟨_, .rests, free⟩
    | refused before req ready' => rw [ready] at ready'; cases ready'
    | asks before req ready' read done after addr =>
      obtain ⟨t, moves, at'⟩ := free_reads (r := r) state clean quiet req read after addr
      rw [show s.done p m = [] from done]
      exact ⟨t, moves, at'⟩
    | stores before req ready' write done after =>
      have launch : s.Launch p m r := ⟨state, clean, quiet, req, write, after⟩
      rw [show s.done p m =
        [.store (s.periReq p m).addr (s.periReq p m).wdata (s.periReq p m).wstrb] from done]
      by_cases miss : window (s.periReq p m).addr = 3#2
      · obtain ⟨at', none⟩ := launch.drops miss
        rw [none]
        exact ⟨_, .drops miss, at'⟩
      · cases shut : s.shut p m (window (s.periReq p m).addr) with
        | false =>
          obtain ⟨at', one⟩ := launch.commits miss shut
          rw [one]
          exact ⟨_, .writes miss, at'⟩
        | true =>
          obtain ⟨zero, reg, full, at', none⟩ := launch.blocks miss shut
          rw [none]
          exact ⟨_, .blocks zero reg full, at'⟩
    | waits before => rw [show s.cpu.lsu.core.ex.onPeri = true from before] at cpu; cases cpu
    | answered before => rw [show s.cpu.lsu.core.ex.onPeri = true from before] at cpu; cases cpu
  | reading state hit sel hands word cpu latch =>
    obtain ⟨done, none, at'⟩ := reading_next (r := r) inv state hit sel hands word cpu latch
    rw [done, none]
    exact ⟨_, .word hit, at'⟩
  | missing state miss sel quiet cpu latch =>
    obtain ⟨done, none, at'⟩ := missing_next (r := r) inv state sel quiet cpu latch
    rw [done, none]
    exact ⟨_, .noWord miss, at'⟩
  | written state hit sel hands cpu =>
    obtain ⟨done, none, at'⟩ := written_next (r := r) inv state hit sel hands cpu
    rw [done, none]
    exact ⟨_, .answered, at'⟩
  | dropped state sel quiet cpu =>
    obtain ⟨done, none, at'⟩ := dropped_next (r := r) inv state sel quiet cpu
    rw [done, none]
    exact ⟨_, .answered, at'⟩
  | blocked state clean hit reg hands wdata wstrb cpu =>
    obtain ⟨done, moves⟩ := blocked_next (r := r) inv state clean hit reg hands wdata wstrb cpu
    rw [done]
    exact moves

end Soc

end YarvUc
