import YarvUc.Bus.Slaves
import YarvUc.Rtl.Soc
import YarvUc.Uart.Channels

/-!
# The slaves at their ports

The handshake flops of the three slaves move alike; the UART's write channel can also be shut
by a full TX FIFO. What a slave does with a request that comes to it quiet is said here once
for all three, with the operation it performs on its device.
-/

namespace YarvUc

/-! ## Handshakes -/

/-- The handshake flops of a slave. -/
structure Hands where
  awSeen : Bool
  wSeen : Bool
  bvalid : Bool
  rvalid : Bool
deriving DecidableEq

namespace Hands

/-- Nothing kept and nothing owed. -/
def quiet : Hands := { awSeen := false, wSeen := false, bvalid := false, rvalid := false }

/-- A write's response is owed. -/
def owing : Hands := { quiet with bvalid := true }

/-- A read's word is there. -/
def answering : Hands := { quiet with rvalid := true }

/-- A write's data are there, its address is not. -/
def halfway : Hands := { quiet with wSeen := true }

section Cycle

variable (h : Hands) (shut hold : Bool) (m : AxiM)

def awready : Bool := !h.awSeen && !h.bvalid && !shut
def wready : Bool := !h.wSeen && !h.bvalid
def arready : Bool := !h.rvalid || (h.rvalid && m.rready)

/-- The write is committed. -/
def commits : Bool :=
  (h.awSeen || (m.awvalid && h.awready shut)) && (h.wSeen || (m.wvalid && h.wready)) && !h.bvalid && !hold

def next : Hands where
  awSeen := if h.commits shut hold m then false else h.awSeen || (m.awvalid && h.awready shut)
  wSeen := if h.commits shut hold m then false else h.wSeen || (m.wvalid && h.wready)
  bvalid := if h.bvalid && m.bready then false else h.commits shut hold m || h.bvalid
  rvalid := (m.arvalid && h.arready m) || (h.rvalid && !m.rready)

end Cycle

variable {c d : Bool} {m : AxiM}

/-- Nothing is offered to a slave. -/
structure Still (m : AxiM) : Prop where
  aw : m.awvalid = false
  w : m.wvalid = false
  ar : m.arvalid = false

theorem quiet_still (still : Still m) : quiet.commits c d m = false ∧ quiet.next c d m = quiet := by
  simp [quiet, next, commits, still.aw, still.w, still.ar]

theorem owing_still (still : Still m) (ready : m.bready = true) :
    owing.commits c d m = false ∧ owing.next c d m = quiet := by
  simp [owing, quiet, next, commits, still.aw, still.w, still.ar, ready]

theorem answering_still (still : Still m) (ready : m.rready = true) :
    answering.commits c d m = false ∧ answering.next c d m = quiet := by
  simp [answering, quiet, next, commits, still.aw, still.w, still.ar, ready]

theorem quiet_read (aw : m.awvalid = false) (w : m.wvalid = false) (ar : m.arvalid = true) :
    quiet.commits c d m = false ∧ quiet.next c d m = answering := by
  simp [answering, quiet, next, commits, arready, aw, w, ar]

theorem quiet_write (aw : m.awvalid = true) (w : m.wvalid = true) (ar : m.arvalid = false) (open_ : c = false)
    (free : d = false) : quiet.commits c d m = true ∧ quiet.next c d m = owing := by
  simp [owing, quiet, next, commits, awready, wready, aw, w, ar, open_, free]

theorem quiet_shut (aw : m.awvalid = true) (w : m.wvalid = true) (ar : m.arvalid = false) (closed : c = true) :
    quiet.commits c d m = false ∧ quiet.next c d m = halfway := by
  simp [halfway, quiet, next, commits, awready, wready, aw, w, ar, closed]

theorem halfway_shut (w : m.wvalid = false) (ar : m.arvalid = false) (closed : c = true) :
    halfway.commits c d m = false ∧ halfway.next c d m = halfway := by
  simp [halfway, quiet, next, commits, awready, w, ar, closed]

theorem halfway_write (aw : m.awvalid = true) (ar : m.arvalid = false) (open_ : c = false) (free : d = false) :
    halfway.commits c d m = true ∧ halfway.next c d m = owing := by
  simp [owing, halfway, quiet, next, commits, awready, aw, ar, open_, free]

end Hands

/-! ## Operations on the devices -/

/-- What is done to a device: a write a slave commits, with what it keeps of it, or a read
whose address slave `k` takes, with the word it selects. -/
inductive DevOp where
  | uart (reg : BitVec 3) (data : Word) (strb : BitVec 4)
  | timer (reg : BitVec 2) (data : Word)
  | msip (data : Word)
  | read (k : BitVec 2) (addr data : Word)
deriving DecidableEq

/-- A write at slave `k`. -/
def DevOp.write (k : BitVec 2) (addr data : Word) (strb : BitVec 4) : DevOp :=
  if k = 0 then .uart (addr.extractLsb 4 2) data strb
  else if k = 1 then .timer (addr.extractLsb 3 2) data
  else .msip data

namespace Soc

variable {u : UartParams}

section Views

variable (p : Params) (m : DmemParams) (s : Soc u) (k : BitVec 2)

def hands : Hands :=
  if k = 0 then { awSeen := s.uart.awSeen, wSeen := s.uart.wSeen, bvalid := s.uart.bvalid, rvalid := s.uart.rvalid }
  else if k = 1 then
    { awSeen := s.timer.awSeen, wSeen := s.timer.wSeen, bvalid := s.timer.bvalid, rvalid := s.timer.rvalid }
  else if k = 2 then
    { awSeen := s.msip.awSeen, wSeen := s.msip.wSeen, bvalid := s.msip.bvalid, rvalid := s.msip.rvalid }
  else .quiet

/-- The TX FIFO is full for a write to it: its address is refused, its commit put off. -/
def shut : Bool := k == 0 && s.uart.txFullBlockAw (s.uartIn p m)
def hold : Bool := k == 0 && s.uart.txWriteHold (s.uartIn p m)

/-- The word on slave `k`'s read channel. -/
def rdata : Word := if k = 0 then s.uart.rdata else if k = 1 then s.timer.rdata else s.msip.rdata

/-- What slave `k` has at the address on its port. -/
def shows : Word :=
  if k = 0 then s.uart.rdataMux (s.uartIn p m)
  else if k = 1 then s.timer.rdataLaunch (s.port p m 1)
  else 0#31 ++ BitVec.ofBool s.msip.msip

/-- The write slave `k` commits. -/
def writes : List DevOp :=
  if k = 0 then (s.uart.write (s.uartIn p m)).toList.map fun w => .uart w.1 w.2.1 w.2.2
  else if k = 1 then (TimerQ.slave.write s.timer (s.port p m 1)).toList.map fun w => .timer w.1 w.2
  else if k = 2 then (MsipQ.slave.write s.msip (s.port p m 2)).toList.map fun w => .msip w.2
  else []

/-- The read whose address slave `k` takes. -/
def reads : List DevOp :=
  if (s.port p m k).arvalid && (s.hands k).arready (s.port p m k) then
    [.read k (s.port p m k).araddr (s.shows p m k)]
  else []

/-- What a cycle does to the devices. -/
def ops : List DevOp :=
  (s.writes p m 0 ++ s.reads p m 0) ++ (s.writes p m 1 ++ s.reads p m 1) ++ (s.writes p m 2 ++ s.reads p m 2)

end Views

variable {p : Params} {m : DmemParams} {s : Soc u} {k : BitVec 2} {r : Bool}

/-! ## The slaves' side of the bus -/

/-- The slave ports as the crossbar reads them. -/
theorem slave_hands (hk : k ≠ 3#2) :
    let x := (s.bus.xcyc .board (s.periIn p m)).slave k
    x.awready = (s.hands k).awready (s.shut p m k) ∧ x.wready = (s.hands k).wready ∧ x.bvalid = (s.hands k).bvalid ∧
      x.arready = (s.hands k).arready (s.port p m k) ∧ x.rvalid = (s.hands k).rvalid ∧ x.rdata = s.rdata k := by
  rcases sel_cases hk with rfl | rfl | rfl
  · exact ⟨rfl, rfl, rfl, rfl, rfl, rfl⟩
  · refine ⟨?_, rfl, rfl, rfl, rfl, rfl⟩
    exact (Bool.and_true _).symm
  · refine ⟨?_, rfl, rfl, rfl, rfl, rfl⟩
    exact (Bool.and_true _).symm

theorem commits_eq (hk : k ≠ 3#2) :
    (s.hands k).commits (s.shut p m k) (s.hold p m k) (s.port p m k) =
      if k = 0 then s.uart.doWrite (s.uartIn p m)
      else if k = 1 then s.timer.doWrite (s.port p m 1) else s.msip.doWrite (s.port p m 2) := by
  rcases sel_cases hk with rfl | rfl | rfl
  · rfl
  · simp [hands, Hands.commits, Hands.awready, Hands.wready, shut, hold, TimerQ.doWrite, TimerQ.awPresent,
      TimerQ.wPresent, TimerQ.awHs, TimerQ.wHs, TimerQ.awready, TimerQ.wready]
  · simp [hands, Hands.commits, Hands.awready, Hands.wready, shut, hold, MsipQ.doWrite, MsipQ.awPresent,
      MsipQ.wPresent, MsipQ.awHs, MsipQ.wHs, MsipQ.awready, MsipQ.wready]

theorem hands_next (k : BitVec 2) (hk : k ≠ 3#2) :
    (s.next p m r).hands k = (s.hands k).next (s.shut p m k) (s.hold p m k) (s.port p m k) := by
  have commits := commits_eq (p := p) (m := m) (s := s) hk
  rw [Hands.next, commits]
  rcases sel_cases hk with rfl | rfl | rfl
  · rfl
  · simp [hands, Hands.awready, Hands.wready, Hands.arready, shut, Soc.next, TimerQ.next, TimerQ.awHs, TimerQ.wHs,
      TimerQ.bHs, TimerQ.arHs, TimerQ.awready, TimerQ.wready, TimerQ.arready]
  · simp [hands, Hands.awready, Hands.wready, Hands.arready, shut, Soc.next, MsipQ.next, MsipQ.awHs, MsipQ.wHs,
      MsipQ.bHs, MsipQ.arHs, MsipQ.awready, MsipQ.wready, MsipQ.arready]

/-! ## What a slave does with what comes to it -/

theorem writes_timer : s.writes p m 1 =
    if s.timer.doWrite (s.port p m 1) then
      [.timer (s.timer.awSelEff (s.port p m 1)) (s.timer.wdataEff (s.port p m 1))]
    else [] := by
  rcases Bool.eq_false_or_eq_true (s.timer.doWrite (s.port p m 1)) with write | quiet
  · have some : TimerQ.slave.write s.timer (s.port p m 1) =
        some (s.timer.awSelEff (s.port p m 1), s.timer.wdataEff (s.port p m 1)) := if_pos write
    have eq : s.writes p m 1 = (TimerQ.slave.write s.timer (s.port p m 1)).toList.map fun w => .timer w.1 w.2 := rfl
    rw [eq, some, write]
    rfl
  · have none : TimerQ.slave.write s.timer (s.port p m 1) = none := if_neg (by rw [quiet]; exact Bool.false_ne_true)
    have eq : s.writes p m 1 = (TimerQ.slave.write s.timer (s.port p m 1)).toList.map fun w => .timer w.1 w.2 := rfl
    rw [eq, none, quiet]
    rfl

theorem writes_msip : s.writes p m 2 =
    if s.msip.doWrite (s.port p m 2) then [.msip (s.msip.wdataEff (s.port p m 2))] else [] := by
  rcases Bool.eq_false_or_eq_true (s.msip.doWrite (s.port p m 2)) with write | quiet
  · have some : MsipQ.slave.write s.msip (s.port p m 2) = some ((), s.msip.wdataEff (s.port p m 2)) := if_pos write
    have eq : s.writes p m 2 = (MsipQ.slave.write s.msip (s.port p m 2)).toList.map fun w => .msip w.2 := rfl
    rw [eq, some, write]
    rfl
  · have none : MsipQ.slave.write s.msip (s.port p m 2) = none := if_neg (by rw [quiet]; exact Bool.false_ne_true)
    have eq : s.writes p m 2 = (MsipQ.slave.write s.msip (s.port p m 2)).toList.map fun w => .msip w.2 := rfl
    rw [eq, none, quiet]
    rfl

theorem writes_none (none : (s.hands k).commits (s.shut p m k) (s.hold p m k) (s.port p m k) = false)
    (hk : k ≠ 3#2) : s.writes p m k = [] := by
  rw [commits_eq hk] at none
  rcases sel_cases hk with rfl | rfl | rfl
  · have quiet : s.uart.doWrite (s.uartIn p m) = false := none
    simp [writes, UartQ.write, quiet]
  · have quiet : s.timer.doWrite (s.port p m 1) = false := none
    rw [writes_timer, quiet]
    rfl
  · have quiet : s.msip.doWrite (s.port p m 2) = false := none
    rw [writes_msip, quiet]
    rfl

/-- A write that comes whole to a quiet slave is committed as it stands on the port. -/
theorem writes_whole (hk : k ≠ 3#2) (quiet : s.hands k = .quiet) (aw : (s.port p m k).awvalid = true)
    (w : (s.port p m k).wvalid = true)
    (commits : (s.hands k).commits (s.shut p m k) (s.hold p m k) (s.port p m k) = true) :
    s.writes p m k = [.write k (s.port p m k).awaddr (s.port p m k).wdata (s.port p m k).wstrb] := by
  have ready : (s.hands k).awready (s.shut p m k) = true := by
    rw [quiet] at commits ⊢
    simp only [Hands.commits, Hands.quiet, Bool.false_or, Bool.and_eq_true] at commits
    exact commits.1.1.1.2
  rw [commits_eq hk] at commits
  rcases sel_cases hk with rfl | rfl | rfl
  · have seen : s.uart.wSeen = false := congrArg Hands.wSeen quiet
    have owed : s.uart.bvalid = false := congrArg Hands.bvalid quiet
    have write : s.uart.doWrite (s.uartIn p m) = true := commits
    have awHs : s.uart.awHs (s.uartIn p m) = true := by
      rw [UartQ.awHs]
      exact Bool.and_eq_true_iff.mpr ⟨aw, ready⟩
    have wHs : s.uart.wHs (s.uartIn p m) = true := by
      rw [UartQ.wHs, UartQ.wready, seen, owed]
      exact Bool.and_eq_true_iff.mpr ⟨w, rfl⟩
    simp only [writes, UartQ.write, write, UartQ.waddrEff, UartQ.wdataEff, UartQ.wstrbEff, awHs, wHs, if_true]
    rfl
  · have seen : s.timer.wSeen = false := congrArg Hands.wSeen quiet
    have first : s.timer.awSeen = false := congrArg Hands.awSeen quiet
    have owed : s.timer.bvalid = false := congrArg Hands.bvalid quiet
    have write : s.timer.doWrite (s.port p m 1) = true := commits
    have wHs : s.timer.wHs (s.port p m 1) = true := by
      rw [TimerQ.wHs, TimerQ.wready, seen, owed, w]
      rfl
    rw [writes_timer, write, TimerQ.awSelEff, TimerQ.wdataEff, first, wHs]
    rfl
  · have seen : s.msip.wSeen = false := congrArg Hands.wSeen quiet
    have owed : s.msip.bvalid = false := congrArg Hands.bvalid quiet
    have write : s.msip.doWrite (s.port p m 2) = true := commits
    have wHs : s.msip.wHs (s.port p m 2) = true := by
      rw [MsipQ.wHs, MsipQ.wready, seen, owed, w]
      rfl
    rw [writes_msip, write, MsipQ.wdataEff, wHs]
    rfl

theorem reads_none (ar : (s.port p m k).arvalid = false) : s.reads p m k = [] := by
  rw [reads, ar]
  rfl

/-- A read that comes to a quiet slave is taken, and its word is kept for the answer. -/
theorem reads_quiet (hk : k ≠ 3#2) (quiet : s.hands k = .quiet) (ar : (s.port p m k).arvalid = true) :
    s.reads p m k = [.read k (s.port p m k).araddr (s.shows p m k)] ∧
      (s.next p m r).rdata k = s.shows p m k := by
  have ready : (s.hands k).arready (s.port p m k) = true := by
    rw [quiet]
    rfl
  refine ⟨?_, ?_⟩
  · rw [reads, ar, ready]
    rfl
  · rcases sel_cases hk with rfl | rfl | rfl
    · have hs : s.uart.arHs (s.uartIn p m) = true := by
        rw [UartQ.arHs]
        exact Bool.and_eq_true_iff.mpr ⟨ar, ready⟩
      have next : (s.next p m r).uart.rdata =
          if s.uart.arHs (s.uartIn p m) then s.uart.rdataMux (s.uartIn p m) else s.uart.rdata := rfl
      rw [hs] at next
      exact next
    · have hs : s.timer.arHs (s.port p m 1) = true := by
        rw [TimerQ.arHs]
        exact Bool.and_eq_true_iff.mpr ⟨ar, ready⟩
      have next : (s.next p m r).timer.rdata =
          if s.timer.arHs (s.port p m 1) then s.timer.rdataLaunch (s.port p m 1) else s.timer.rdata := rfl
      rw [hs] at next
      exact next
    · have hs : s.msip.arHs (s.port p m 2) = true := by
        rw [MsipQ.arHs]
        exact Bool.and_eq_true_iff.mpr ⟨ar, ready⟩
      have next : (s.next p m r).msip.rdata =
          if s.msip.arHs (s.port p m 2) then 0#31 ++ BitVec.ofBool s.msip.msip else s.msip.rdata := rfl
      rw [hs] at next
      exact next

/-- Only slave `k` is asked for something, -/
theorem ops_one (others : ∀ j, j ≠ k → j ≠ 3#2 → s.writes p m j = [] ∧ s.reads p m j = []) (hk : k ≠ 3#2) :
    s.ops p m = s.writes p m k ++ s.reads p m k := by
  rw [ops]
  rcases sel_cases hk with rfl | rfl | rfl
  · rw [(others 1 (by decide) (by decide)).1, (others 1 (by decide) (by decide)).2,
      (others 2 (by decide) (by decide)).1, (others 2 (by decide) (by decide)).2]
    simp
  · rw [(others 0 (by decide) (by decide)).1, (others 0 (by decide) (by decide)).2,
      (others 2 (by decide) (by decide)).1, (others 2 (by decide) (by decide)).2]
    simp
  · rw [(others 0 (by decide) (by decide)).1, (others 0 (by decide) (by decide)).2,
      (others 1 (by decide) (by decide)).1, (others 1 (by decide) (by decide)).2]
    simp

/-- or none. -/
theorem ops_none (none : ∀ j, j ≠ 3#2 → s.writes p m j = [] ∧ s.reads p m j = []) : s.ops p m = [] := by
  rw [ops_one (fun j _ hj => none j hj) (show (0 : BitVec 2) ≠ 3#2 by decide), (none 0 (by decide)).1,
    (none 0 (by decide)).2]
  rfl

end Soc

end YarvUc
