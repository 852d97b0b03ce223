import YarvUc.Clocked.Ports
import YarvUc.Rtl.AxiRam
import YarvUc.Rtl.Peripherals

/-!
# Write slaves

`axi4_lite_ram`, `clint_timer` and `msip_peri` take the address and the data of a write on
channels of their own. Whatever a master offers, the writes they commit are the addresses taken
paired with the data taken, each once and in order; one B answers each, and the next write is
not taken before it. A read returns what was there when its address was taken.
-/

namespace YarvUc

open Clocked

/-- A slave as an observer of its port sees it: the handshakes of the address and the data
channel, the write committed, the responses. -/
structure Slave (σ ι ρ δ α : Type) where
  next : σ → ι → σ
  aw : σ → ι → Option ρ
  w : σ → ι → Option δ
  write : σ → ι → Option (ρ × δ)
  bvalid : σ → Bool
  bready : ι → Bool
  /-- What the address of a read that is taken selects. -/
  ar : σ → ι → Option α
  /-- The word on the read channel. -/
  rdata : σ → Option α
  rready : ι → Bool

namespace Slave

variable {σ ι ρ δ α : Type} (S : Slave σ ι ρ δ α) (s : σ) (ins : ℕ → ι) (n : ℕ)

def aws : List ρ := log S.next (fun q i => (S.aw q i).toList) s ins n
def ws : List δ := log S.next (fun q i => (S.w q i).toList) s ins n
def writes : List (ρ × δ) := log S.next (fun q i => (S.write q i).toList) s ins n

/-- The B responses taken. -/
def bs : List Unit := log S.next (fun q i => if S.bvalid q && S.bready i then [()] else []) s ins n

def ars : List α := log S.next (fun q i => (S.ar q i).toList) s ins n

/-- The words taken on the read channel. -/
def rs : List α := log S.next (fun q i => Answer.given (S.rdata q) (S.rready i)) s ins n

/-- Before edge `n`: the writes pair the addresses off with the data, each has had its response
or is owed it, a response stays, nothing of a later write is taken before it, and every read
has its word. -/
structure InOrder : Prop where
  pairs : S.writes s ins n = (S.aws s ins n).zip (S.ws s ins n)
  once : (S.writes s ins n).length = (S.bs s ins n).length + (S.bvalid (run S.next s ins n)).toNat
  stays : S.bvalid (run S.next s ins n) = true → S.bready (ins n) = false →
    S.bvalid (run S.next s ins (n + 1)) = true
  aw : (S.aw (run S.next s ins n) (ins n)).isSome = true → (S.aws s ins n).length = (S.bs s ins n).length
  w : (S.w (run S.next s ins n) (ins n)).isSome = true → (S.ws s ins n).length = (S.bs s ins n).length
  reads : S.ars s ins n = S.rs s ins n ++ (S.rdata (run S.next s ins n)).toList
  held : ∀ v, S.rdata (run S.next s ins n) = some v → S.rready (ins n) = false →
    S.rdata (run S.next s ins (n + 1)) = some v

variable {S s}

/-- A slave whose write channels are a prompt `Pairing` and whose read channel is an answer
register. -/
structure Ported (S : Slave σ ι ρ δ α) (view : σ → Pairing ρ δ) (offer : σ → ι → PairingIn ρ δ) : Prop where
  drives : Pairing.Drives S.next view offer
  prompt : ∀ q i, (offer q i).hold = false
  aw : ∀ q i, (view q).takeLeft (offer q i) = S.aw q i
  w : ∀ q i, (view q).takeRight (offer q i) = S.w q i
  write : ∀ q i, (view q).commit (offer q i) = S.write q i
  owed : ∀ q, (view q).owed = S.bvalid q
  collect : ∀ q i, (offer q i).collect = S.bready i
  answer : ∀ q i, S.rdata (S.next q i) = Answer.next (S.rdata q) (S.ar q i) (S.rready i)
  room : ∀ q i, (S.ar q i).isSome = true → S.rdata q = none ∨ S.rready i = true

theorem Ported.inOrder {view : σ → Pairing ρ δ} {offer : σ → ι → PairingIn ρ δ} (port : S.Ported view offer)
    (init : view s = Pairing.empty) (silent : S.rdata s = none) (ins : ℕ → ι) (n : ℕ) : S.InOrder s ins n := by
  have accounts := port.drives.run init ins n
  have one := port.drives.one_half init port.prompt ins n
  have taken : ∀ q i, (view q).collected (offer q i) = (S.bvalid q && S.bready i) := by
    intro q i
    rw [Pairing.collected, port.owed, port.collect]
  simp only [port.aw, port.w, port.write, taken] at accounts
  refine ⟨accounts.eq_zip one, ?_, ?_, ?_, ?_, ?_, ?_⟩
  · rw [← port.owed]
    exact accounts.owed
  · intro owed wait
    rw [run_succ, ← port.owed, port.drives]
    simp [Pairing.next, port.owed, port.collect, owed, wait]
  · intro takes
    rw [← port.aw] at takes
    exact accounts.taken_left takes
  · intro takes
    rw [← port.w] at takes
    exact accounts.taken_right takes
  · exact Answer.run port.answer port.room silent ins n
  · intro v here wait
    rw [run_succ, port.answer]
    cases asks : S.ar (run S.next s ins n) (ins n) with
    | none => simp [Answer.next, wait, here]
    | some w =>
      rcases port.room _ _ (by rw [asks]; rfl) with none | ready
      · rw [none] at here
        cases here
      · rw [ready] at wait
        cases wait

/-- The same with flags and latches. -/
structure Flagged (S : Slave σ ι ρ δ α) (flags : σ → Flags ρ δ) (channels : ι → FlagsIn ρ δ) : Prop where
  next : ∀ q i, flags (S.next q i) = (flags q).next (channels i)
  prompt : ∀ i, (channels i).hold = false
  aw : ∀ q i, S.aw q i = if (flags q).leftHs (channels i) then some (channels i).left else none
  w : ∀ q i, S.w q i = if (flags q).rightHs (channels i) then some (channels i).right else none
  write : ∀ q i, S.write q i =
    if (flags q).go (channels i) then some ((flags q).leftNow (channels i), (flags q).rightNow (channels i)) else none
  owed : ∀ q, (flags q).owed = S.bvalid q
  collect : ∀ i, (channels i).collect = S.bready i
  answer : ∀ q i, S.rdata (S.next q i) = Answer.next (S.rdata q) (S.ar q i) (S.rready i)
  room : ∀ q i, (S.ar q i).isSome = true → S.rdata q = none ∨ S.rready i = true

theorem Flagged.ported {flags : σ → Flags ρ δ} {channels : ι → FlagsIn ρ δ} (port : S.Flagged flags channels) :
    S.Ported (fun q => (flags q).view) fun _ i => (channels i).offer := by
  refine ⟨?_, fun _ i => port.prompt i, ?_, ?_, ?_, port.owed, fun _ i => port.collect i, port.answer, port.room⟩
  · intro q i
    change (flags (S.next q i)).view = _
    rw [port.next]
    exact Flags.view_next
  · intro q i
    rw [port.aw]
    exact Flags.takeLeft
  · intro q i
    rw [port.w]
    exact Flags.takeRight
  · intro q i
    rw [port.write]
    exact Flags.commit

end Slave

/-! ## The RAM -/

namespace AxiRamQ

variable {strbW : ℕ}

def flags (q : AxiRamQ strbW) : Flags ℕ (BitVec (8 * strbW) × BitVec strbW) where
  leftSeen := q.awSeen
  rightSeen := q.wSeen
  left := q.awWord
  right := (q.wdata, q.wstrb)
  owed := q.bvalid

def channels (addrW : ℕ) (i : AxiRamIn strbW) : FlagsIn ℕ (BitVec (8 * strbW) × BitVec strbW) where
  leftValid := i.awvalid
  left := awWordIn addrW i
  rightValid := i.wvalid
  right := (i.wdata, i.wstrb)
  collect := i.bready
  shut := false
  hold := false

def slave (strbW addrW : ℕ) :
    Slave (AxiRamQ strbW) (AxiRamIn strbW) ℕ (BitVec (8 * strbW) × BitVec strbW) (BitVec (8 * strbW)) where
  next := next addrW
  aw q i := if q.awHs i then some (i.awaddr.toNat % 2 ^ addrW / strbW) else none
  w q i := if q.wHs i then some (i.wdata, i.wstrb) else none
  write q i := if q.doWrite i then some (q.waddrEff addrW i, q.wdataEff i, q.wstrbEff i) else none
  bvalid q := q.bvalid
  bready i := i.bready
  ar q i := if q.arHs i then some (q.mem (i.araddr.toNat % 2 ^ addrW / strbW)) else none
  rdata q := if q.rvalid then some q.rdata else none
  rready i := i.rready

/-- A write replaces the strobed bytes of its word. -/
def store (mem : ℕ → BitVec (8 * strbW)) (c : ℕ × BitVec (8 * strbW) × BitVec strbW) : ℕ → BitVec (8 * strbW) :=
  Function.update mem c.1 (BitVec.strobed (mem c.1) c.2.1 c.2.2)

variable {addrW : ℕ} {q : AxiRamQ strbW} {i : AxiRamIn strbW}

theorem rightNow_flags : q.flags.rightNow (channels addrW i) = (q.wdataEff i, q.wstrbEff i) := by
  have hs : q.flags.rightHs (channels addrW i) = q.wHs i := rfl
  rw [Flags.rightNow, hs, wdataEff, wstrbEff]
  cases q.wHs i <;> rfl

theorem awHs_flags : q.flags.leftHs (channels addrW i) = q.awHs i := by
  simp [Flags.leftHs, flags, channels, awHs, awready]

theorem go_flags : q.flags.go (channels addrW i) = q.doWrite i := by
  rw [Flags.go, awHs_flags]
  simp only [channels, Bool.not_false, Bool.and_true]
  rfl

theorem flagged : (slave strbW addrW).Flagged flags (channels addrW) := by
  refine ⟨?_, fun _ => rfl, ?_, fun _ _ => rfl, ?_, fun _ => rfl, fun _ => rfl, ?_, ?_⟩
  · intro q i
    rw [Flags.next, go_flags, awHs_flags, rightNow_flags, Flags.leftNow, awHs_flags]
    rfl
  · intro q i
    rw [awHs_flags]
    rfl
  · intro q i
    rw [go_flags, rightNow_flags, Flags.leftNow, awHs_flags]
    rfl
  · intro q i
    exact Answer.flag_next _ _ _ _ _
  · intro q i asks
    exact Answer.flag_room asks

/-- The storage is the writes committed, over what it was. -/
theorem mem_next : (q.next addrW i).mem = ((slave strbW addrW).write q i).toList.foldl store q.mem := by
  have strobes := strobeWrite_eq (q.mem (q.waddrEff addrW i)) (q.wdataEff i) (q.wstrbEff i)
  change (if q.doWrite i then Function.update q.mem (q.waddrEff addrW i) (strobeWrite _ _ _) else q.mem) =
    (if q.doWrite i then some (q.waddrEff addrW i, q.wdataEff i, q.wstrbEff i) else none).toList.foldl store q.mem
  rw [strobes]
  cases q.doWrite i <;> rfl

end AxiRamQ

/-! ## The timer -/

namespace TimerQ

/-- The registers as the block of memory they are read from: `mtime` at 0, `mtimecmp` at 8. -/
def block (q : TimerQ) : BitVec 128 := q.mtimecmp ++ q.mtime

/-- The compare value after a write: its word 2 is the lower half, its word 3 the upper one. -/
def store (cmp : BitVec 64) (w : BitVec 2 × Word) : BitVec 64 :=
  if w.1 = 2#2 then cmp.extractLsb 63 32 ++ w.2
  else if w.1 = 3#2 then w.2 ++ cmp.extractLsb 31 0
  else cmp

def flags (q : TimerQ) : Flags (BitVec 2) Word where
  leftSeen := q.awSeen
  rightSeen := q.wSeen
  left := q.awaddr
  right := q.wdata
  owed := q.bvalid

def channels (i : AxiM) : FlagsIn (BitVec 2) Word where
  leftValid := i.awvalid
  left := awSelLive i
  rightValid := i.wvalid
  right := i.wdata
  collect := i.bready
  shut := false
  hold := false

def slave : Slave TimerQ AxiM (BitVec 2) Word Word where
  next := next
  aw q i := if q.awHs i then some (i.awaddr.extractLsb 3 2) else none
  w q i := if q.wHs i then some i.wdata else none
  write q i := if q.doWrite i then some (q.awSelEff i, q.wdataEff i) else none
  bvalid q := q.bvalid
  bready i := i.bready
  ar q i := if q.arHs i then some (q.block.extractLsb' (32 * (i.araddr.toNat / 4 % 4)) 32) else none
  rdata q := if q.rvalid then some q.rdata else none
  rready i := i.rready

variable {q : TimerQ} {i : AxiM}

theorem awHs_flags : q.flags.leftHs (channels i) = q.awHs i := by
  simp [Flags.leftHs, flags, channels, awHs, awready]

theorem go_flags : q.flags.go (channels i) = q.doWrite i := by
  rw [Flags.go, awHs_flags]
  simp only [channels, Bool.not_false, Bool.and_true]
  rfl

theorem block_words (q : TimerQ) : q.block.extractLsb' 0 32 = q.mtime.extractLsb 31 0 ∧
    q.block.extractLsb' 32 32 = q.mtime.extractLsb 63 32 ∧ q.block.extractLsb' 64 32 = q.mtimecmp.extractLsb 31 0 ∧
      q.block.extractLsb' 96 32 = q.mtimecmp.extractLsb 63 32 := by
  have bit : ∀ k, q.block.getLsbD k = if k < 64 then q.mtime.getLsbD k else q.mtimecmp.getLsbD (k - 64) :=
    fun k => BitVec.getLsbD_append
  refine ⟨?_, ?_, ?_, ?_⟩ <;> apply BitVec.eq_of_getLsbD_eq <;> intro k hk <;>
    rw [BitVec.extractLsb, BitVec.getLsbD_extractLsb', BitVec.getLsbD_extractLsb', bit] <;> congr 1
  · rw [if_pos (by omega)]
  · rw [if_pos (by omega)]
  · rw [if_neg (by omega)]
    congr 1
    omega
  · rw [if_neg (by omega)]
    congr 1
    omega

/-- The word a read selects is the one at its address. -/
theorem rdataLaunch_eq : q.rdataLaunch i = q.block.extractLsb' (32 * (i.araddr.toNat / 4 % 4)) 32 := by
  have sel : i.araddr.toNat / 4 % 4 = (i.araddr.extractLsb 3 2).toNat := by
    rw [BitVec.extractLsb_toNat, Nat.shiftRight_eq_div_pow]
  obtain ⟨timeLo, timeHi, cmpLo, cmpHi⟩ := q.block_words
  rw [sel, rdataLaunch]
  generalize i.araddr.extractLsb 3 2 = a
  have four : a = 0#2 ∨ a = 1#2 ∨ a = 2#2 ∨ a = 3#2 := by
    revert a
    decide
  rcases four with rfl | rfl | rfl | rfl
  · exact timeLo.symm
  · exact timeHi.symm
  · exact cmpLo.symm
  · exact cmpHi.symm

/-- The latched select is read once it is there, the live one before. -/
theorem awSelEff_flags (write : q.doWrite i = true) : q.awSelEff i = q.flags.leftNow (channels i) := by
  rw [Flags.leftNow, awHs_flags, awSelEff]
  cases seen : q.awSeen with
  | true =>
    have hs : q.awHs i = false := by simp [awHs, awready, seen]
    rw [hs]
    rfl
  | false =>
    have hs : q.awHs i = true := by
      simp only [doWrite, awPresent, seen, Bool.false_or, Bool.and_eq_true] at write
      exact write.1.1
    rw [hs]
    rfl

theorem flagged : slave.Flagged flags channels := by
  refine ⟨?_, fun _ => rfl, ?_, fun _ _ => rfl, ?_, fun _ => rfl, fun _ => rfl, ?_, ?_⟩
  · intro q i
    rw [Flags.next, go_flags, awHs_flags, Flags.leftNow, awHs_flags]
    rfl
  · intro q i
    rw [awHs_flags]
    rfl
  · intro q i
    rw [go_flags]
    change (if q.doWrite i then some (q.awSelEff i, q.wdataEff i) else none) = _
    rcases Bool.eq_false_or_eq_true (q.doWrite i) with write | write
    · rw [if_pos write, if_pos write, awSelEff_flags write]
      rfl
    · simp [write]
  · intro q i
    change _ = Answer.next _
      (if q.arHs i then some (q.block.extractLsb' (32 * (i.araddr.toNat / 4 % 4)) 32) else none) _
    rw [← rdataLaunch_eq]
    exact Answer.flag_next _ _ _ _ _
  · intro q i asks
    exact Answer.flag_room asks

theorem compare_next : (q.next i).mtimecmp = (slave.write q i).toList.foldl store q.mtimecmp := by
  change q.mtimecmpD i =
    (if q.doWrite i then some (q.awSelEff i, q.wdataEff i) else none).toList.foldl store q.mtimecmp
  rw [mtimecmpD]
  cases q.doWrite i <;> rfl

/-- The counter counts the cycles. -/
theorem mtime_run (ins : ℕ → AxiM) (n : ℕ) : (run next reset ins n).mtime = BitVec.ofNat 64 n := by
  induction n with
  | zero => rfl
  | succ n ih =>
    rw [run_succ, BitVec.ofNat_add, ← ih]
    rfl

end TimerQ

/-! ## The software interrupt -/

namespace MsipQ

/-- There is one register, so the address is not looked at. -/
def flags (q : MsipQ) : Flags Unit Word where
  leftSeen := q.awSeen
  rightSeen := q.wSeen
  left := ()
  right := q.wdata
  owed := q.bvalid

def channels (i : AxiM) : FlagsIn Unit Word where
  leftValid := i.awvalid
  left := ()
  rightValid := i.wvalid
  right := i.wdata
  collect := i.bready
  shut := false
  hold := false

def slave : Slave MsipQ AxiM Unit Word Word where
  next := next
  aw q i := if q.awHs i then some () else none
  w q i := if q.wHs i then some i.wdata else none
  write q i := if q.doWrite i then some ((), q.wdataEff i) else none
  bvalid q := q.bvalid
  bready i := i.bready
  ar q i := if q.arHs i then some (0#31 ++ BitVec.ofBool q.msip) else none
  rdata q := if q.rvalid then some q.rdata else none
  rready i := i.rready

def store (_ : Bool) (c : Unit × Word) : Bool := c.2.getLsbD 0

variable {q : MsipQ} {i : AxiM}

theorem awHs_flags : q.flags.leftHs (channels i) = q.awHs i := by
  simp [Flags.leftHs, flags, channels, awHs, awready]

theorem go_flags : q.flags.go (channels i) = q.doWrite i := by
  rw [Flags.go, awHs_flags]
  simp only [channels, Bool.not_false, Bool.and_true]
  rfl

theorem flagged : slave.Flagged flags channels := by
  refine ⟨?_, fun _ => rfl, ?_, fun _ _ => rfl, ?_, fun _ => rfl, fun _ => rfl, ?_, ?_⟩
  · intro q i
    rw [Flags.next, go_flags, awHs_flags]
    rfl
  · intro q i
    rw [awHs_flags]
    rfl
  · intro q i
    rw [go_flags]
    rfl
  · intro q i
    exact Answer.flag_next _ _ _ _ _
  · intro q i asks
    exact Answer.flag_room asks

theorem msip_next : (q.next i).msip = (slave.write q i).toList.foldl store q.msip := by
  change (if q.doWrite i then (q.wdataEff i).getLsbD 0 else q.msip) =
    (if q.doWrite i then some ((), q.wdataEff i) else none).toList.foldl store q.msip
  cases q.doWrite i <;> rfl

end MsipQ

/-- The three slaves, for every master, from reset: the writes committed are the addresses taken
paired with the data taken, in order and each answered once, reads are answered once, in order
and with what was there, and what is there is what the writes so far have stored. -/
theorem write_slaves (n : ℕ) :
    (∀ (strbW addrW : ℕ) (q : AxiRamQ strbW) (ins : ℕ → AxiRamIn strbW),
        let S := AxiRamQ.slave strbW addrW
        S.InOrder q.reset ins n ∧ (run S.next q.reset ins n).mem = (S.writes q.reset ins n).foldl AxiRamQ.store q.mem) ∧
      (∀ ins : ℕ → AxiM,
        let S := TimerQ.slave
        S.InOrder TimerQ.reset ins n ∧
          (run S.next TimerQ.reset ins n).mtimecmp =
            (S.writes TimerQ.reset ins n).foldl TimerQ.store (BitVec.allOnes 64) ∧
          (run S.next TimerQ.reset ins n).mtime = BitVec.ofNat 64 n) ∧
      ∀ ins : ℕ → AxiM,
        let S := MsipQ.slave
        S.InOrder MsipQ.reset ins n ∧
          (run S.next MsipQ.reset ins n).msip = (S.writes MsipQ.reset ins n).foldl MsipQ.store false := by
  refine ⟨?_, ?_, ?_⟩
  · intro strbW addrW q ins S
    refine ⟨AxiRamQ.flagged.ported.inOrder rfl rfl ins n, ?_⟩
    exact run_foldl AxiRamQ.mem AxiRamQ.store _ (fun _ _ => AxiRamQ.mem_next) n
  · intro ins S
    refine ⟨TimerQ.flagged.ported.inOrder rfl rfl ins n, ?_, TimerQ.mtime_run ins n⟩
    exact run_foldl TimerQ.mtimecmp TimerQ.store _ (fun _ _ => TimerQ.compare_next) n
  · intro ins S
    refine ⟨MsipQ.flagged.ported.inOrder rfl rfl ins n, ?_⟩
    exact run_foldl MsipQ.msip MsipQ.store _ (fun _ _ => MsipQ.msip_next) n

/-- The data of a write comes before its address, that of the next one while its B waits; then
both words are read. -/
def crossed (n : ℕ) : AxiRamIn 4 where
  awaddr := if n < 5 then 0x4 else 0x8
  awvalid := n ∈ [2, 7]
  wdata := if n < 1 then 0xA1B2C3D4 else 0x01020304
  wstrb := if n < 1 then 0b0101 else 0b1100
  wvalid := n ∈ [0, 3, 4, 5, 6]
  bready := n ∈ [5, 9]
  araddr := if n < 11 then 0x4 else 0x8
  arvalid := n ∈ [10, 11, 12]
  rready := 12 ≤ n

theorem write_slaves_crossed :
    let S := AxiRamQ.slave 4 12
    let q : AxiRamQ 4 :=
      { awSeen := false, wSeen := false, awWord := 0, wstrb := 0, wdata := 0, bvalid := false, rvalid := false,
        rdata := 0, mem := fun _ => 0xFFFFFFFF }
    S.writes q.reset crossed 14 = [(1, 0xA1B2C3D4, 0b0101), (2, 0x01020304, 0b1100)] ∧
      S.rs q.reset crossed 14 = [0xFFB2FFD4, 0x0102FFFF] := by
  intro S q
  obtain ⟨inOrder, -⟩ := (write_slaves 14).1 4 12 q crossed
  have pairs := inOrder.pairs
  have reads := inOrder.reads
  refine ⟨pairs.trans (by decide +kernel), ?_⟩
  have none : S.rdata (run S.next q.reset crossed 14) = none := by decide +kernel
  rw [none, Option.toList_none, List.append_nil] at reads
  exact reads.symm.trans (by decide +kernel)

end YarvUc
