import YarvUc.Soc.Devices

/-!
# What loads from the devices return

A load is read at its device while everything the program has retired before it is done and
nothing else is. So it returns what the stores before it have left in the register, whatever the
bus has had to wait for, and a load of the counter the number of that cycle.
-/

namespace YarvUc

open Clocked

/-- The interrupt enables of the UART, for TX and RX, behind an operation. -/
def DevOp.storeCtrl (enables : Bool × Bool) : DevOp → Bool × Bool
  | .uart reg data strb => if reg = REG_CTRL ∧ strb.getLsbD 0 = true then (data.getLsbD 0, data.getLsbD 1) else enables
  | _ => enables

/-- The word of a load, behind `stored` and in a cycle: of every register but the UART's queues,
status and divisor. -/
def readsBack (stored : List DevOp) (cycle : ℕ) (addr : Word) : Option Word :=
  if window addr = 0#2 then
    let reg := addr.extractLsb 4 2
    if reg = REG_CTRL then
      let enables := stored.foldl DevOp.storeCtrl (false, false)
      some (0#30 ++ BitVec.ofBool enables.2 ++ BitVec.ofBool enables.1)
    else if reg = REG_RXDATA ∨ reg = REG_STATUS ∨ reg = REG_BAUDDIV then none
    else some 0
  else if window addr = 1#2 then
    let reg : BitVec 2 := addr.extractLsb 3 2
    let cmp := stored.foldl DevOp.storeCmp (BitVec.allOnes 64)
    if reg = REG_MTIME_LO then some ((BitVec.ofNat 64 cycle).extractLsb 31 0)
    else if reg = REG_MTIME_HI then some ((BitVec.ofNat 64 cycle).extractLsb 63 32)
    else if reg = REG_MTIMECMP_LO then some (cmp.extractLsb 31 0)
    else some (cmp.extractLsb 63 32)
  else if window addr = 2#2 then some (0#31 ++ BitVec.ofBool (stored.foldl DevOp.storeMsip false))
  else some 0

namespace Soc

variable {u : UartParams} {p : Params} {m : DmemParams} {s : Soc u} {r : Bool}

/-- A read names the address on its port and returns what the slave has there. -/
theorem read_shows {k : BitVec 2} {addr data : Word} (read : .read k addr data ∈ s.ops p m) :
    (s.port p m k).araddr = addr ∧ s.shows p m k = data := by
  have writes : ∀ j, .read k addr data ∉ s.writes p m j := by
    intro j write
    rw [Soc.writes] at write
    split_ifs at write <;> simp at write
  have reads : ∀ j, .read k addr data ∈ s.reads p m j → (s.port p m k).araddr = addr ∧ s.shows p m k = data := by
    intro j read
    rw [Soc.reads] at read
    split at read
    · simp only [List.mem_singleton, DevOp.read.injEq] at read
      obtain ⟨rfl, rfl, rfl⟩ := read
      exact ⟨rfl, rfl⟩
    · cases read
  simp only [ops, List.mem_append] at read
  rcases read with ((w | q) | (w | q)) | (w | q)
  all_goals first | exact absurd w (writes _) | exact reads _ q

theorem enables_next : ((s.next p m r).uart.txIe, (s.next p m r).uart.rxIe) =
    (s.ops p m).foldl DevOp.storeCtrl (s.uart.txIe, s.uart.rxIe) := by
  have reads := fun k b => reads_fold (p := p) (m := m) (s := s) (f := DevOp.storeCtrl) (fun _ _ _ _ => rfl) k b
  have timer : ∀ b, (s.writes p m 1).foldl DevOp.storeCtrl b = b := by
    intro b
    rw [writes_timer]
    split <;> rfl
  have msip : ∀ b, (s.writes p m 2).foldl DevOp.storeCtrl b = b := by
    intro b
    rw [writes_msip]
    split <;> rfl
  have uart : s.writes p m 0 = (s.uart.write (s.uartIn p m)).toList.map fun w => .uart w.1 w.2.1 w.2.2 := rfl
  have txIe : (s.next p m r).uart.txIe =
      if s.uart.ctrlWrite (s.uartIn p m) then (s.uart.wdataEff (s.uartIn p m)).getLsbD 0 else s.uart.txIe := rfl
  have rxIe : (s.next p m r).uart.rxIe =
      if s.uart.ctrlWrite (s.uartIn p m) then (s.uart.wdataEff (s.uartIn p m)).getLsbD 1 else s.uart.rxIe := rfl
  rw [txIe, rxIe, ops]
  simp only [List.foldl_append, reads, timer, msip]
  rw [uart, UartQ.write, UartQ.ctrlWrite]
  cases write : s.uart.doWrite (s.uartIn p m) with
  | false => rfl
  | true =>
    simp only [Bool.true_and, if_true, Option.toList_some, List.map_cons, List.map_nil, List.foldl_cons, List.foldl_nil,
      DevOp.storeCtrl, UartQ.wrLowByte]
    by_cases ctrl : s.uart.waddrEff (s.uartIn p m) = REG_CTRL <;>
      cases low : (s.uart.wstrbEff (s.uartIn p m)).getLsbD 0 <;> simp [ctrl]

/-! ## Loads -/

variable {i : ℕ → Bool}

theorem enables_stored (n : ℕ) :
    ((run (Soc.next p m) s.start i n).uart.txIe, (run (Soc.next p m) s.start i n).uart.rxIe) =
      ((retired p m s i n).flatMap PortOp.ops).foldl DevOp.storeCtrl (false, false) :=
  stored_fold (fun s : Soc u => (s.uart.txIe, s.uart.rxIe)) (fun _ _ => enables_next) (fun _ _ _ _ => rfl)
    (fun _ _ _ => by simp [DevOp.storeCtrl, REG_CTRL, REG_TXDATA]) n

/-- What slave `k` has at an address in cycle `c`. -/
theorem shows_stored {c : ℕ} {addr word : Word} (hit : window addr ≠ 3#2)
    (port : ((run (Soc.next p m) s.start i c).port p m (window addr)).araddr = addr)
    (back : readsBack ((retired p m s i c).flatMap PortOp.ops) c addr = some word) :
    (run (Soc.next p m) s.start i c).shows p m (window addr) = word := by
  have msip := msip_stored (p := p) (m := m) (s := s) (i := i) c
  have cmp := mtimecmp_stored (p := p) (m := m) (s := s) (i := i) c
  have time := mtime_cycle (p := p) (m := m) (s := s) (i := i) c
  have enables := enables_stored (p := p) (m := m) (s := s) (i := i) c
  rw [readsBack, ← msip, ← cmp, ← time, ← enables] at back
  generalize run (Soc.next p m) s.start i c = now at *
  by_cases uart : window addr = 0#2
  · rw [if_pos uart] at back
    rw [uart] at port ⊢
    have reg : UartQ.araddrIn (now.uartIn p m) = addr.extractLsb 4 2 := by
      rw [← port]
      rfl
    have shown : now.shows p m 0#2 = now.uart.rdataMux (now.uartIn p m) := rfl
    rw [shown, UartQ.rdataMux, reg]
    dsimp only at back
    by_cases ctrl : addr.extractLsb 4 2 = REG_CTRL
    · rw [if_pos ctrl] at back
      rw [ctrl]
      exact Option.some.inj back
    rw [if_neg ctrl] at back ⊢
    split_ifs at back ⊢ <;> simp_all
  by_cases timer : window addr = 1#2
  · rw [if_neg uart, if_pos timer] at back
    rw [timer] at port ⊢
    have shown : now.shows p m 1#2 = now.timer.rdataLaunch (now.port p m 1#2) := rfl
    rw [shown, TimerQ.rdataLaunch, port]
    dsimp only at back ⊢
    split_ifs at back ⊢ <;> exact Option.some.inj back
  by_cases soft : window addr = 2#2
  · rw [if_neg uart, if_neg timer, if_pos soft] at back
    rw [soft]
    exact Option.some.inj back
  · have none : ∀ k : BitVec 2, ¬ k = 0#2 → ¬ k = 1#2 → ¬ k = 2#2 → k = 3#2 := by decide
    exact absurd (none _ uart timer soft) hit

/-- At most one access retires in a cycle, -/
theorem done_one {full : Bool} {t t' : Trip} {done : List PortOp} {ops : List DevOp}
    (moves : Trip.Moves full t done ops t') : done.length ≤ 1 := by
  cases moves <;> simp

/-- and a load only behind the cycle that has taken its address. -/
theorem load_taken {full full' : Bool} {t t' t'' : Trip} {done : List PortOp} {ops ops' : List DevOp}
    {addr data : Word} (first : Trip.Moves full t done ops t')
    (last : Trip.Moves full' t' [.load addr data] ops' t'') :
    done = [] ∧ (window addr ≠ 3#2 ∧ ops = [.read (window addr) addr data] ∨ window addr = 3#2 ∧ data = 0) := by
  cases last with
  | word hit =>
    cases first with
    | reads => exact ⟨rfl, .inl ⟨hit, rfl⟩⟩
  | noWord miss =>
    cases first with
    | misses => exact ⟨rfl, .inr ⟨miss, rfl⟩⟩

/-- Loads follow the stores. In every run of the closed circuit, a load has been read at its
device, as the one thing done to the devices in a cycle in which exactly the accesses before it
had retired, and its word is what they have left: of `msip`, of `mtimecmp`, of the enables of the
UART's interrupts; of `mtime`, it is the number of that cycle; where nothing is, 0. -/
theorem loads_follow (p : Params) (m : DmemParams) (s : Soc u) (i : ℕ → Bool) (n : ℕ) (before after : List PortOp)
    (addr data : Word) (load : retired p m s i n = before ++ .load addr data :: after) :
    ∃ c < n, retired p m s i c = before ∧
      (window addr ≠ 3#2 → (run (Soc.next p m) s.start i c).ops p m = [.read (window addr) addr data]) ∧
      (window addr = 3#2 → data = 0) ∧
      ∀ word, readsBack (before.flatMap PortOp.ops) c addr = some word → data = word := by
  obtain ⟨t, start, -, moves⟩ := trips p m s i
  obtain ⟨j, hj, done, out⟩ := log_entry (fun k => done_one (moves k)) load
  have last := moves j
  rw [out] at last
  have busy : t j ≠ .free := by
    intro free
    rw [free] at last
    cases last
  obtain ⟨c, rfl⟩ := Nat.exists_eq_succ_of_ne_zero fun zero : j = 0 => busy (by rw [zero, start])
  obtain ⟨quiet, taken⟩ := load_taken (moves c) last
  have same : retired p m s i c = before := by
    have grows : retired p m s i (c + 1) = retired p m s i c ++ (run (Soc.next p m) s.start i c).done p m := rfl
    rw [quiet, List.append_nil] at grows
    exact grows.symm.trans done
  refine ⟨c, by omega, same, fun hit => ?_, fun miss => ?_, fun word back => ?_⟩
  · exact (taken.resolve_right fun missed => hit missed.1).2
  · exact (taken.resolve_left fun found => found.1 miss).2
  rcases taken with ⟨hit, read⟩ | ⟨miss, zero⟩
  · obtain ⟨port, shown⟩ := read_shows (read ▸ List.mem_singleton_self _)
    rw [← same] at back
    rw [← shown, shows_stored hit port back]
  · have none : readsBack (before.flatMap PortOp.ops) c addr = some 0 := by
      rw [readsBack, miss]
      rfl
    rw [zero]
    exact Option.some.inj (none.symm.trans back)

/-- A 1 stored to `msip`, loaded back, and a WFI. -/
def echoed : Soc UartQ.tb := ofWords UartQ.tb [0x100030B7#32, 0x00100113#32, 0x0020A023#32, 0x0000A183#32, 0x10500073#32]

theorem loads_follow_echoed :
    ∃ c < 15, retired .board .board echoed (fun _ => true) c = [.store 0x10003000#32 1#32 0b1111#4] ∧
      (window 0x10003000#32 ≠ 3#2 →
        (run (Soc.next .board .board) echoed.start (fun _ => true) c).ops .board .board =
          [.read 2#2 0x10003000#32 1#32]) ∧
      (window 0x10003000#32 = 3#2 → 1#32 = 0#32) ∧
      ∀ word, readsBack [.msip 1#32] c 0x10003000#32 = some word → 1#32 = word :=
  loads_follow .board .board echoed (fun _ => true) 15 [.store 0x10003000#32 1#32 0b1111#4] [] 0x10003000#32 1#32
    (by decide +kernel)

end Soc

end YarvUc
