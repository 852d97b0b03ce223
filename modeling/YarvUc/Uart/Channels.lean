import YarvUc.Clocked.Ports
import YarvUc.Rtl.Uart

/-!
# The UART's channels

The write channels are a `Pairing` of the register select with the data and its strobes. An
address of `TXDATA` is refused while the TX FIFO is full, and a commit to it is put off. The
read channel is an answer register.
-/

namespace YarvUc

namespace UartQ

open Clocked

variable {u : UartParams}

/-- The flags and latches of the write channels. -/
def flags (q : UartQ u) : Flags (BitVec 3) (Word × BitVec 4) where
  leftSeen := q.awSeen
  rightSeen := q.wSeen
  left := q.awaddrWord
  right := (q.wdata, q.wstrb)
  owed := q.bvalid

def channels (q : UartQ u) (i : UartIn) : FlagsIn (BitVec 3) (Word × BitVec 4) where
  leftValid := i.axi.awvalid
  left := awaddrIn i
  rightValid := i.axi.wvalid
  right := (i.axi.wdata, i.axi.wstrb)
  collect := i.axi.bready
  shut := q.txFullBlockAw i
  hold := q.txWriteHold i

/-- The halves of a write that are kept, and whether a B response is owed. -/
def port (q : UartQ u) : Pairing (BitVec 3) (Word × BitVec 4) := q.flags.view

def offer (q : UartQ u) (i : UartIn) : PairingIn (BitVec 3) (Word × BitVec 4) := (q.channels i).offer

/-- The write a cycle commits: the register, the data and the strobes. -/
def write (q : UartQ u) (i : UartIn) : Option (BitVec 3 × Word × BitVec 4) :=
  if q.doWrite i then some (q.waddrEff i, q.wdataEff i, q.wstrbEff i) else none

variable {q : UartQ u} {i : UartIn}

@[simp] theorem port_left : q.port.left = if q.awSeen then some q.awaddrWord else none := rfl
@[simp] theorem port_right : q.port.right = if q.wSeen then some (q.wdata, q.wstrb) else none := rfl
@[simp] theorem port_owed : q.port.owed = q.bvalid := rfl
@[simp] theorem offer_left : (q.offer i).left = if i.axi.awvalid then some (awaddrIn i) else none := rfl
@[simp] theorem offer_right : (q.offer i).right = if i.axi.wvalid then some (i.axi.wdata, i.axi.wstrb) else none := rfl
@[simp] theorem offer_shut : (q.offer i).shut = q.txFullBlockAw i := rfl
@[simp] theorem offer_hold : (q.offer i).hold = q.txWriteHold i := rfl

theorem rightNow_flags : q.flags.rightNow (q.channels i) = (q.wdataEff i, q.wstrbEff i) := by
  have hs : q.flags.rightHs (q.channels i) = q.wHs i := rfl
  rw [Flags.rightNow, hs, wdataEff, wstrbEff]
  cases q.wHs i <;> rfl

theorem flags_next : (q.next i).flags = q.flags.next (q.channels i) := by
  rw [Flags.next, rightNow_flags]
  rfl

theorem port_reset : q.reset.port = Pairing.empty := rfl

theorem port_next : (q.next i).port = q.port.next (q.offer i) := by
  rw [port, flags_next]
  exact Flags.view_next

theorem takeLeft_eq : q.port.takeLeft (q.offer i) = if q.awHs i then some (awaddrIn i) else none := Flags.takeLeft

theorem takeRight_eq : q.port.takeRight (q.offer i) = if q.wHs i then some (i.axi.wdata, i.axi.wstrb) else none :=
  Flags.takeRight

/-- The address of this cycle is the live one exactly when none is kept. -/
theorem leftNow_eq : q.port.leftNow (q.offer i) = if q.awPresent i then some (q.waddrEff i) else none :=
  Flags.view_leftNow

theorem rightNow_eq :
    q.port.rightNow (q.offer i) = if q.wPresent i then some (q.wdataEff i, q.wstrbEff i) else none := by
  rw [← rightNow_flags]
  exact Flags.view_rightNow

theorem commit_eq : q.port.commit (q.offer i) = q.write i := by
  rw [write, ← rightNow_flags]
  exact Flags.commit

/-- A B response is taken. -/
theorem collected_eq : q.port.collected (q.offer i) = q.bHs i := rfl

/-- The writes committed are the pairs of what the AW and the W channel have taken, in order. -/
theorem accounts_run (q : UartQ u) (ins : ℕ → UartIn) (n : ℕ) :
    (run next q.reset ins n).port.Accounts
      (log next (fun q i => if q.awHs i then [awaddrIn i] else []) q.reset ins n)
      (log next (fun q i => if q.wHs i then [(i.axi.wdata, i.axi.wstrb)] else []) q.reset ins n)
      (log next (fun q i => (q.write i).toList) q.reset ins n)
      (log next (fun q i => if q.bHs i then [()] else []) q.reset ins n).length := by
  have drives : Pairing.Drives next port (offer (u := u)) := fun _ _ => port_next
  have accounts := drives.run (port_reset (q := q)) ins n
  simp only [takeLeft_eq, takeRight_eq, commit_eq, collected_eq, apply_ite Option.toList, Option.toList_some,
    Option.toList_none] at accounts
  exact accounts

/-! ## Reads -/

/-- The answer that is held, and the one read in a cycle. -/
def held (q : UartQ u) : Option Word := if q.rvalid then some q.rdata else none
def asked (q : UartQ u) (i : UartIn) : Option Word := if q.arHs i then some (q.rdataMux i) else none

theorem held_next : (q.next i).held = Answer.next q.held (q.asked i) i.axi.rready := Answer.flag_next _ _ _ _ _

theorem asked_room (asks : (q.asked i).isSome = true) : q.held = none ∨ i.axi.rready = true := Answer.flag_room asks

end UartQ

end YarvUc
