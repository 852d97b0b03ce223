import YarvUc.Clocked.Fifo
import YarvUc.Uart.Channels
import YarvUc.Uart.RoundTrip

/-!
# The transmit path

The bytes of the committed `TXDATA` writes leave through the TX FIFO in their order, each
once. A write to `TXDATA` that finds the FIFO full waits, and commits as soon as the engine
has taken a byte out, which it does within the frame it is sending.
-/

namespace YarvUc

namespace UartQ

open Clocked

variable {u : UartParams}

/-- The byte a committed write puts into the FIFO: the low one of a `TXDATA` write, if its
strobe is set. -/
def txByte (w : BitVec 3 × Word × BitVec 4) : Option (BitVec 8) :=
  if w.1 = REG_TXDATA ∧ w.2.2.getLsbD 0 = true then some (w.2.1.extractLsb 7 0) else none

/-- The byte the shift register is loaded with, as the engine leaves the idle state. -/
def loads (q : UartQ u) (i : UartIn) : List (BitVec 8) :=
  if q.tx.state = .IDLE ∧ (q.next i).tx.state ≠ .IDLE then [(q.next i).tx.shift] else []

/-- What the FIFO holds. -/
def txList (q : UartQ u) : List (BitVec 8) := fifoList q.txFifo q.txWptr q.txRptr

def txOccupancy (q : UartQ u) : ℕ := occupancy q.txWptr q.txRptr

variable {q : UartQ u} {i : UartIn}

/-! ## The FIFO -/

theorem txFifoEmpty_iff : q.txFifoEmpty = true ↔ q.txOccupancy = 0 := by
  rw [txFifoEmpty, beq_iff_eq, empty_iff]
  rfl

theorem txFifoFull_iff : q.txFifoFull = true ↔ q.txOccupancy = 2 ^ u.txPtrW := by
  rw [txOccupancy, ← full_iff, txFifoFull, Bool.and_eq_true, bne_iff_ne, beq_iff_eq]
  rfl

theorem txReady_iff : q.txReady = true ↔ q.txOccupancy ≠ 2 ^ u.txPtrW := by
  rw [txReady, Bool.not_eq_true', ← Bool.not_eq_true, ne_eq, txFifoFull_iff]

/-- A write that commits to `TXDATA` finds room. -/
theorem doWrite_room (write : q.doWrite i = true) (sel : q.txAddrSel i = true) : q.txReady = true := by
  simp only [doWrite, txWriteHold, sel, Bool.and_eq_true, Bool.not_eq_true', Bool.true_and] at write
  simpa using write.2

theorem txPush_eq :
    (q.write i).toList.filterMap txByte = if q.txPush i then [(q.wdataEff i).extractLsb 7 0] else [] := by
  rw [write, txPush, txAddrSel, wrLowByte]
  by_cases sel : q.waddrEff i = REG_TXDATA <;> cases write : q.doWrite i <;>
    cases low : (q.wstrbEff i).getLsbD 0 <;> simp_all [txByte]

theorem loads_eq : q.loads i = if q.txFifoPop then [q.txFifoHead] else [] := by
  rw [loads, next_tx]
  by_cases idle : q.tx.state = .IDLE
  · cases pop : q.txFifoPop <;> simp [TxQ.next, idle]
  · have quiet : q.txFifoPop = false := by
      simp [txFifoPop, TxQ.idle, idle]
    simp [idle, quiet]

/-- The FIFO before and after an edge. -/
theorem txList_next (fits : q.txOccupancy ≤ 2 ^ u.txPtrW) :
    q.txList ++ (q.write i).toList.filterMap txByte = q.loads i ++ (q.next i).txList := by
  have some : q.txFifoPop = true → 0 < occupancy q.txWptr q.txRptr := by
    intro pop
    simp only [txFifoPop, Bool.and_eq_true, Bool.not_eq_true'] at pop
    have := txFifoEmpty_iff (q := q)
    rw [pop.2] at this
    simp only [Bool.false_eq_true, false_iff] at this
    exact Nat.pos_of_ne_zero this
  have room : q.txPush i = true → occupancy q.txWptr q.txRptr - q.txFifoPop.toNat < 2 ^ u.txPtrW := by
    intro push
    simp only [txPush, Bool.and_eq_true] at push
    have free := txReady_iff.mp (doWrite_room push.1.1 push.1.2)
    unfold txOccupancy at free fits
    omega
  have cycle := fifoList_cycle q.txFifo ((q.wdataEff i).extractLsb 7 0) some room
  have next : (q.next i).txList = (q.txList).drop q.txFifoPop.toNat ++ (q.write i).toList.filterMap txByte := by
    rw [txPush_eq]
    exact cycle
  rw [next, loads_eq]
  cases pop : q.txFifoPop with
  | false => rfl
  | true =>
    have head : q.txList = q.txFifoHead :: q.txList.drop 1 := by
      rw [txList, fifoList_pop (some pop)]
      rfl
    rw [head]
    rfl

theorem txOccupancy_next (fits : q.txOccupancy ≤ 2 ^ u.txPtrW) : (q.next i).txOccupancy ≤ 2 ^ u.txPtrW := by
  have sizes := congrArg List.length (txList_next (i := i) fits)
  simp only [List.length_append, txList, length_fifoList, txPush_eq, loads_eq] at sizes
  rcases Bool.eq_false_or_eq_true (q.txPush i) with push | push
  · have free := txReady_iff.mp (doWrite_room (q := q) (i := i) (by simp_all [txPush]) (by simp_all [txPush]))
    rw [push] at sizes
    unfold txOccupancy at *
    simp at sizes
    omega
  · rw [push] at sizes
    unfold txOccupancy at *
    simp at sizes
    omega

/-! ## A full FIFO drains -/

end UartQ

/-- A bound on the cycles until the engine is idle again: whole bits of `2 ^ 16` clocks, and
the rest of the running one. -/
def TxQ.remaining (t : TxQ) (div : BitVec 16) : ℕ :=
  match t.state with
  | .IDLE => 0
  | .START => 9 * 2 ^ 16 + (div - t.baudCnt).toNat + 1
  | .DATA => (8 - t.bitCnt.toNat) * 2 ^ 16 + (div - t.baudCnt).toNat + 1
  | .STOP => (div - t.baudCnt).toNat + 1

/-- One clock of a bit that goes on. -/
theorem TxQ.wait_lt {t : TxQ} {div : BitVec 16} (wait : t.tick div = false) :
    (div - (t.baudCnt + 1)).toNat < (div - t.baudCnt).toNat := by
  have other : t.baudCnt ≠ div := by simpa [TxQ.tick] using wait
  have neq : t.baudCnt.toNat ≠ div.toNat := fun same => other (BitVec.eq_of_toNat_eq same)
  have hc := t.baudCnt.isLt
  have hd := div.isLt
  have one : (1 : BitVec 16).toNat = 1 := rfl
  simp only [BitVec.toNat_sub, BitVec.toNat_add, one]
  omega

theorem TxQ.remaining_next {t : TxQ} {div : BitVec 16} {head : Option (BitVec 8)} (busy : t.state ≠ .IDLE) :
    (t.next div head).remaining div < t.remaining div := by
  have fresh : (div - 0).toNat < 2 ^ 16 := BitVec.isLt _
  have bits := t.bitCnt.isLt
  cases tick : t.tick div with
  | false =>
    have less := TxQ.wait_lt tick
    rw [TxQ.next_wait busy tick]
    cases state : t.state <;> simp only [TxQ.remaining, state] <;> first | omega | exact absurd state busy
  | true =>
    cases state : t.state with
    | IDLE => exact absurd state busy
    | START =>
      rw [TxQ.next_start state tick]
      simp only [TxQ.remaining, state]
      omega
    | DATA =>
      by_cases last : t.bitCnt = 7
      · rw [TxQ.next_last state tick last]
        simp only [TxQ.remaining, state]
        omega
      · have more := bit_up last
        rw [TxQ.next_data state tick last]
        simp only [TxQ.remaining, state, more]
        omega
    | STOP =>
      rw [TxQ.next_stop state tick]
      simp only [TxQ.remaining, state]
      omega

namespace UartQ

variable {u : UartParams} {q : UartQ u} {i : UartIn}

/-- Nothing goes into a full FIFO. -/
theorem full_push (full : q.txFifoFull = true) : q.txPush i = false := by
  rcases Bool.eq_false_or_eq_true (q.txPush i) with push | push
  · simp only [txPush, Bool.and_eq_true] at push
    have room := doWrite_room push.1.1 push.1.2
    simp [txReady, full] at room
  · exact push

theorem full_next (full : q.txFifoFull = true) (kept : q.txFifoPop = false) : (q.next i).txFifoFull = true := by
  have wptr : (q.next i).txWptr = if q.txPush i then q.txWptr + 1 else q.txWptr := rfl
  have rptr : (q.next i).txRptr = if q.txFifoPop then q.txRptr + 1 else q.txRptr := rfl
  rw [full_push full, if_neg Bool.false_ne_true] at wptr
  rw [kept, if_neg Bool.false_ne_true] at rptr
  rw [txFifoFull, wptr, rptr]
  exact full

/-- A byte that leaves a full FIFO makes room. -/
theorem room_next (full : q.txFifoFull = true) (pop : q.txFifoPop = true) : (q.next i).txFifoFull = false := by
  have wptr : (q.next i).txWptr = if q.txPush i then q.txWptr + 1 else q.txWptr := rfl
  have rptr : (q.next i).txRptr = if q.txFifoPop then q.txRptr + 1 else q.txRptr := rfl
  rw [full_push full, if_neg Bool.false_ne_true] at wptr
  rw [pop, if_pos rfl] at rptr
  have here := txFifoFull_iff.mp full
  have pos : 0 < 2 ^ u.txPtrW := Nat.two_pow_pos _
  have less : Clocked.occupancy q.txWptr (q.txRptr + 1) + 1 = Clocked.occupancy q.txWptr q.txRptr :=
    Clocked.occupancy_pop (by unfold txOccupancy at here; omega)
  rcases Bool.eq_false_or_eq_true (q.next i).txFifoFull with still | free
  · have := txFifoFull_iff.mp still
    rw [txOccupancy, wptr, rptr] at this
    unfold txOccupancy at here
    omega
  · exact free

theorem full_nonempty (full : q.txFifoFull = true) : q.txFifoEmpty = false := by
  rcases Bool.eq_false_or_eq_true q.txFifoEmpty with empty | some
  · have zero := txFifoEmpty_iff.mp empty
    have := txFifoFull_iff.mp full
    have pos : 0 < 2 ^ u.txPtrW := Nat.two_pow_pos _
    omega
  · exact some

/-- The engine takes a byte out of a full FIFO when it is next idle. -/
theorem drains (s : UartQ u) (ins : ℕ → UartIn) (n : ℕ) (full : (Clocked.run next s ins n).txFifoFull = true) :
    ∃ m ≥ n, (∀ k, n ≤ k → k ≤ m → (Clocked.run next s ins k).txFifoFull = true) ∧
      (Clocked.run next s ins m).txFifoPop = true := by
  generalize hr : (Clocked.run next s ins n).tx.remaining (Clocked.run next s ins n).div = r
  induction r using Nat.strong_induction_on generalizing n with
  | _ r ih =>
    by_cases idle : (Clocked.run next s ins n).tx.state = .IDLE
    · refine ⟨n, le_refl n, ?_, ?_⟩
      · intro k hn hk
        rw [Nat.le_antisymm hk hn]
        exact full
      · simp [txFifoPop, TxQ.idle, idle, full_nonempty full]
    · have kept : (Clocked.run next s ins n).txFifoPop = false := by simp [txFifoPop, TxQ.idle, idle]
      have div : (Clocked.run next s ins (n + 1)).div = (Clocked.run next s ins n).div := by
        rw [Clocked.run_succ, next_div]
        simp [divApply, TxQ.idle, idle]
      have less : (Clocked.run next s ins (n + 1)).tx.remaining (Clocked.run next s ins (n + 1)).div < r := by
        rw [div, Clocked.run_succ, next_tx, ← hr]
        exact TxQ.remaining_next idle
      obtain ⟨m, hm, still, pop⟩ := ih _ less (n + 1) (full_next full kept) rfl
      refine ⟨m, by omega, ?_, pop⟩
      intro k hn hk
      rcases Nat.eq_or_lt_of_le hn with rfl | later
      · exact full
      · exact still k later hk

/-! ## A write that waits -/

/-- The write before the slave: both halves kept or offered, and no response owed. -/
def presented (q : UartQ u) (i : UartIn) : Option (BitVec 3 × Word × BitVec 4) :=
  match q.port.left.or (q.offer i).left, q.port.right.or (q.offer i).right with
  | some a, some d => if q.bvalid then none else some (a, d)
  | _, _ => none

theorem presented_eq {w : BitVec 3 × Word × BitVec 4} :
    q.presented i = some w ↔ q.port.left.or (q.offer i).left = some w.1 ∧
      q.port.right.or (q.offer i).right = some w.2 ∧ q.bvalid = false := by
  unfold presented
  constructor
  · intro h
    split at h
    · rename_i a d left right
      split at h
      · cases h
      · rename_i free
        obtain rfl := Option.some.inj h
        exact ⟨left, right, by simpa using free⟩
    · cases h
  · rintro ⟨left, right, free⟩
    rw [left, right, free]
    rfl

/-- With room in the FIFO the write commits. -/
theorem presented_commits {w : BitVec 3 × Word × BitVec 4} (there : q.presented i = some w)
    (room : q.txFifoFull = false) : q.write i = some w := by
  obtain ⟨left, right, free⟩ := presented_eq.mp there
  have ready : q.txReady = true := by simp [txReady, room]
  rw [← commit_eq, Clocked.Pairing.commit_eq_some]
  refine ⟨?_, ?_, free, by simp [txWriteHold, ready]⟩
  · have open' : (q.offer i).shut = false := by simp [txFullBlockAw, ready]
    rw [Clocked.Pairing.leftNow, Clocked.Pairing.takeLeft, open', show q.port.owed = false from free]
    cases kept : q.port.left <;> simp_all
  · rw [Clocked.Pairing.rightNow, Clocked.Pairing.takeRight, show q.port.owed = false from free]
    cases kept : q.port.right <;> simp_all

/-- A `TXDATA` write before a full FIFO does not commit. -/
theorem full_write {d : Word × BitVec 4} (there : q.presented i = some (REG_TXDATA, d)) (full : q.txFifoFull = true) :
    q.doWrite i = false := by
  obtain ⟨left, -, -⟩ := presented_eq.mp there
  have busy : q.txReady = false := by simp [txReady, full]
  rcases Bool.eq_false_or_eq_true (q.doWrite i) with write | quiet
  · exfalso
    cases seen : q.awSeen with
    | true =>
      -- The address came first, when there was room; the commit is put off.
      have hs : q.awHs i = false := by simp [awHs, awready, seen]
      simp only [port_left, seen, if_true, Option.some_or, Option.some.injEq] at left
      simp [doWrite, txWriteHold, txAddrSel, waddrEff, hs, left, busy] at write
    | false =>
      -- The address is offered, and refused.
      have hs : q.awHs i = true := by
        simp only [doWrite, awPresent, seen, Bool.false_or, Bool.and_eq_true] at write
        exact write.1.1.1
      simp only [awHs, awready, txFullBlockAw, busy, Bool.and_eq_true, Bool.not_false, Bool.and_true,
        Bool.not_eq_true', beq_eq_false_iff_ne] at hs
      simp only [port_left, offer_left, seen, hs.1, if_true, Bool.false_eq_true, if_false, Option.none_or,
        Option.some.injEq] at left
      exact hs.2.2 left
  · exact quiet

/-- What a master keeps up until it is taken. -/
structure Keeps (q : UartQ u) (i j : UartIn) : Prop where
  aw : i.axi.awvalid = true → q.awready i = false → j.axi.awvalid = true ∧ j.axi.awaddr = i.axi.awaddr
  w : i.axi.wvalid = true → q.wready = false →
    j.axi.wvalid = true ∧ j.axi.wdata = i.axi.wdata ∧ j.axi.wstrb = i.axi.wstrb

instance (q : UartQ u) (i j : UartIn) : Decidable (q.Keeps i j) :=
  decidable_of_iff (_ ∧ _) ⟨fun h => ⟨h.1, h.2⟩, fun h => ⟨h.aw, h.w⟩⟩

/-- It is still before the slave in the next cycle, and no response is owed. -/
theorem presented_stays {j : UartIn} {d : Word × BitVec 4} (there : q.presented i = some (REG_TXDATA, d))
    (full : q.txFifoFull = true) (keeps : q.Keeps i j) : (q.next i).presented j = some (REG_TXDATA, d) := by
  obtain ⟨left, right, free⟩ := presented_eq.mp there
  have quiet := full_write there full
  have busy : q.txReady = false := by simp [txReady, full]
  have commit : q.port.commit (q.offer i) = none := by simp [commit_eq, write, quiet]
  rw [presented_eq, port_next]
  simp only [Clocked.Pairing.next, commit, Option.isSome_none, Bool.false_eq_true, if_false]
  refine ⟨?_, ?_, by simp [next, quiet, free]⟩
  · rw [leftNow_eq]
    cases seen : q.awSeen with
    | true =>
      have hs : q.awHs i = false := by simp [awHs, awready, seen]
      simp only [port_left, seen, if_true, Option.some_or] at left
      simpa [awPresent, seen, waddrEff, hs] using left
    | false =>
      simp only [port_left, offer_left, seen, Bool.false_eq_true, if_false, Option.none_or] at left
      have valid : i.axi.awvalid = true := by
        by_contra off
        simp [off] at left
      simp only [valid, if_true, Option.some.injEq] at left
      have refused : q.awready i = false := by simp [awready, txFullBlockAw, left, busy]
      obtain ⟨valid', addr⟩ := keeps.aw valid refused
      have same : awaddrIn j = REG_TXDATA := by rw [← left, awaddrIn, awaddrIn, addr]
      simp [awPresent, seen, awHs, refused, valid', same]
  · rw [rightNow_eq]
    cases seen : q.wSeen with
    | true =>
      have hs : q.wHs i = false := by simp [wHs, wready, seen]
      simp only [port_right, seen, if_true, Option.some_or] at right
      simpa [wPresent, seen, wdataEff, wstrbEff, hs] using right
    | false =>
      simp only [port_right, offer_right, seen, Bool.false_eq_true, if_false, Option.none_or] at right
      have valid : i.axi.wvalid = true := by
        by_contra off
        simp [off] at right
      simp only [valid, if_true] at right
      have hs : q.wHs i = true := by simp [wHs, wready, seen, valid, free]
      simpa [wPresent, seen, wdataEff, wstrbEff, hs] using right

/-- A `TXDATA` write commits in the first cycle in which the FIFO has room, and there is one. -/
theorem waits (s : UartQ u) (ins : ℕ → UartIn) (keeps : ∀ k, (Clocked.run next s ins k).Keeps (ins k) (ins (k + 1)))
    {n : ℕ} {d : Word × BitVec 4} (there : (Clocked.run next s ins n).presented (ins n) = some (REG_TXDATA, d)) :
    ∃ m ≥ n,
      (∀ k, n ≤ k → k < m → (Clocked.run next s ins k).txFifoFull = true ∧
        (Clocked.run next s ins k).write (ins k) = none ∧ (Clocked.run next s ins (k + 1)).bvalid = false) ∧
      (Clocked.run next s ins m).txFifoFull = false ∧
      (Clocked.run next s ins m).write (ins m) = some (REG_TXDATA, d) := by
  rcases Bool.eq_false_or_eq_true (Clocked.run next s ins n).txFifoFull with full | room
  · obtain ⟨m, hm, still, pop⟩ := drains s ins n full
    have there : ∀ k, n ≤ k → k ≤ m + 1 → (Clocked.run next s ins k).presented (ins k) = some (REG_TXDATA, d) := by
      intro k hk
      induction k, hk using Nat.le_induction with
      | base =>
        intro _
        exact there
      | succ k hk ih =>
        intro le
        exact presented_stays (ih (by omega)) (still k hk (by omega)) (keeps k)
    have room := room_next (i := ins m) (still m hm (le_refl m)) pop
    refine ⟨m + 1, by omega, ?_, room, presented_commits (there (m + 1) (by omega) (le_refl _)) room⟩
    intro k hk lt
    have here := there k hk (by omega)
    have quiet := full_write here (still k hk (by omega))
    refine ⟨still k hk (by omega), by simp [write, quiet], ?_⟩
    have free := (presented_eq.mp here).2.2
    simp [Clocked.run_succ, next, quiet, free]
  · refine ⟨n, le_refl n, ?_, room, presented_commits there room⟩
    intro k hk lt
    omega

/-! ## Whole runs -/

theorem tx_run (q : UartQ u) (ins : ℕ → UartIn) (n : ℕ) :
    (Clocked.log next (fun q i => (q.write i).toList) q.reset ins n).filterMap txByte =
        Clocked.log next loads q.reset ins n ++ (Clocked.run next q.reset ins n).txList ∧
      (Clocked.run next q.reset ins n).txOccupancy ≤ 2 ^ u.txPtrW := by
  induction n with
  | zero =>
    have none : (q.reset).txOccupancy = 0 := Clocked.occupancy_self _
    have empty : (q.reset).txList = [] := List.length_eq_zero_iff.mp (Clocked.length_fifoList.trans none)
    constructor
    · exact empty.symm
    · rw [Clocked.run_zero, none]
      exact Nat.zero_le _
  | succ n ih =>
    obtain ⟨same, fits⟩ := ih
    refine ⟨?_, txOccupancy_next fits⟩
    rw [Clocked.log_succ, Clocked.log_succ, Clocked.run_succ, List.filterMap_append, same, List.append_assoc,
      txList_next fits, List.append_assoc]

/-- The transmit path, for any depth, divisor and master that keeps its offers up. Every write
is committed once, with the address and the data of its handshakes in their order, and answered
by one B; the bytes of the committed `TXDATA` writes that strobe byte 0 are those loaded into
the shift register and behind them the FIFO's contents; and a `TXDATA` write before a full FIFO
commits, and is answered, once a slot is free. -/
theorem transmits (u : UartParams) (q : UartQ u) (ins : ℕ → UartIn)
    (keeps : ∀ k, (Clocked.run next q.reset ins k).Keeps (ins k) (ins (k + 1))) (n : ℕ) :
    let c := Clocked.run next q.reset ins
    let aws := Clocked.log next (fun q i => if q.awHs i then [awaddrIn i] else []) q.reset ins n
    let ws := Clocked.log next (fun q i => if q.wHs i then [(i.axi.wdata, i.axi.wstrb)] else []) q.reset ins n
    let bs := Clocked.log next (fun q i => if q.bHs i then [()] else []) q.reset ins n
    let writes := Clocked.log next (fun q i => (q.write i).toList) q.reset ins n
    let loaded := Clocked.log next loads q.reset ins n
    (c n).port.Accounts aws ws writes bs.length ∧
      writes.filterMap txByte = loaded ++ (c n).txList ∧
      (c n).txOccupancy + loaded.length = (writes.filterMap txByte).length ∧ (c n).txOccupancy ≤ 2 ^ u.txPtrW ∧
      ∀ d, (c n).presented (ins n) = some (REG_TXDATA, d) →
        ∃ m ≥ n,
          (∀ k, n ≤ k → k < m →
            (c k).txOccupancy = 2 ^ u.txPtrW ∧ (c k).write (ins k) = none ∧ (c (k + 1)).bvalid = false) ∧
          (c m).txOccupancy < 2 ^ u.txPtrW ∧ (c m).write (ins m) = some (REG_TXDATA, d) := by
  intro c aws ws bs writes loaded
  obtain ⟨bytes, fits⟩ := tx_run q ins n
  refine ⟨accounts_run q ins n, bytes, ?_, fits, fun d there => ?_⟩
  · have occupied : (c n).txList.length = (c n).txOccupancy := Clocked.length_fifoList
    have sizes : (writes.filterMap txByte).length = loaded.length + (c n).txList.length := by
      rw [← List.length_append]
      exact congrArg List.length bytes
    omega
  · obtain ⟨m, hm, still, room, commits⟩ := waits q.reset ins keeps there
    refine ⟨m, hm, fun k hk lt => ?_, ?_, commits⟩
    · obtain ⟨full, quiet, unanswered⟩ := still k hk lt
      exact ⟨txFifoFull_iff.mp full, quiet, unanswered⟩
    · have other : (c m).txOccupancy ≠ 2 ^ u.txPtrW := fun full => by
        rw [txFifoFull_iff.mpr full] at room
        cases room
      have most : (c m).txOccupancy ≤ 2 ^ u.txPtrW := (tx_run q ins m).2
      omega

/-- A master that writes four letters, as fast as the slave takes them: the fourth finds the FIFO
full behind a first frame, and its address is refused until cycle 23. -/
def fourLetters (n : ℕ) : UartIn where
  axi :=
    { awaddr := 0, awvalid := n ∈ [0, 2, 4] || (6 ≤ n && n ≤ 23), wdata := BitVec.ofNat 32 (0x41 + n / 2),
      wstrb := 0b0001, wvalid := n ∈ [0, 2, 4, 6], bready := true }
  rxd := true

theorem fourLetters_keeps (k : ℕ) : (Clocked.run next (blank brief).reset fourLetters k).Keeps
    (fourLetters k) (fourLetters (k + 1)) := by
  by_cases early : k < 24
  · have all : ∀ k < 24, (Clocked.run next (blank brief).reset fourLetters k).Keeps
        (fourLetters k) (fourLetters (k + 1)) := by decide +kernel
    exact all k early
  · have aw : (fourLetters k).axi.awvalid = false := by
      simp [fourLetters]
      omega
    have w : (fourLetters k).axi.wvalid = false := by
      simp [fourLetters]
      omega
    constructor
    · intro valid
      rw [aw] at valid
      cases valid
    · intro valid
      rw [w] at valid
      cases valid

/-- The fourth letter waits from cycle 6 on, and is committed. -/
theorem transmits_fourLetters :
    let c := Clocked.run next (blank brief).reset fourLetters
    (c 6).txOccupancy = 2 ∧
      ∃ m > 6, (c 6).write (fourLetters 6) = none ∧
        (c m).write (fourLetters m) = some (REG_TXDATA, 0x44, 0b0001) := by
  intro c
  have quiet : (c 6).write (fourLetters 6) = none := by decide +kernel
  obtain ⟨-, -, -, -, waits⟩ := transmits brief (blank brief) fourLetters fourLetters_keeps 6
  obtain ⟨m, hm, -, -, commits⟩ := waits (0x44, 0b0001) (by decide +kernel)
  refine ⟨by decide +kernel, m, lt_of_le_of_ne hm ?_, quiet, commits⟩
  rintro rfl
  rw [quiet] at commits
  cases commits

end UartQ

end YarvUc
