import YarvUc.Rtl.Bus

/-!
# `axi4_lite_uart`

The UART slave: its write and read channels, the FIFOs, the divisor update and the two
bit engines. The FIFO arrays are functions of the slot, the pointers carry the wrap bit.
-/

namespace YarvUc

/-- The parameters, the first two `int unsigned`; `TX_PTR_W` and `RX_PTR_W` are the logarithms of
the FIFO depths. -/
structure UartParams where
  clkFreqHz : BitVec 32
  baudRate : BitVec 32
  txPtrW : ℕ
  rxPtrW : ℕ

/-- `BAUD_DIV_RESET`: the low 16 bits of the 32-bit difference, `0xFFFF` for a clock below the
baud rate. -/
def UartParams.baudDivReset (u : UartParams) : BitVec 16 := (u.clkFreqHz / u.baudRate - 1).setWidth 16

/-- The instance of `top_module`. -/
def UartParams.board : UartParams := { clkFreqHz := 50000000, baudRate := 115200, txPtrW := 4, rxPtrW := 4 }

def REG_TXDATA : BitVec 3 := 0#3
def REG_RXDATA : BitVec 3 := 1#3
def REG_STATUS : BitVec 3 := 2#3
def REG_CTRL : BitVec 3 := 3#3
def REG_BAUDDIV : BitVec 3 := 4#3

/-- `tx_state_e`. -/
inductive TxState where
  | IDLE | START | DATA | STOP
deriving DecidableEq, Inhabited, Repr

/-- `rx_state_e`. -/
inductive RxState where
  | IDLE | START | DATA | STOP
deriving DecidableEq, Inhabited, Repr

/-- The transmitter's flops. -/
structure TxQ where
  state : TxState
  shift : BitVec 8
  bitCnt : BitVec 3
  txd : Bool
  baudCnt : BitVec 16
deriving DecidableEq, Inhabited

/-- The receiver's flops. -/
structure RxQ where
  state : RxState
  shift : BitVec 8
  bitCnt : BitVec 3
  cnt : BitVec 16
deriving DecidableEq, Inhabited

/-! ## The engines -/

namespace TxQ

def reset : TxQ := { state := .IDLE, shift := 0, bitCnt := 0, txd := true, baudCnt := 0 }

variable (t : TxQ) (div : BitVec 16)

/-- `tx_idle`. -/
def idle : Bool := t.state == .IDLE

/-- `tx_baud_tick`. -/
def tick : Bool := t.baudCnt == div

/-- The engine's edge; `head` is the byte pulled from the FIFO in this cycle, if any. -/
def next (head : Option (BitVec 8)) : TxQ :=
  match t.state with
  | .IDLE =>
    match head with
    | some b => { t with baudCnt := 0, shift := b, state := .START, txd := false }
    | none => { t with baudCnt := 0 }
  | .START =>
    if t.tick div then { t with baudCnt := 0, state := .DATA, bitCnt := 0, txd := t.shift.getLsbD 0 }
    else { t with baudCnt := t.baudCnt + 1 }
  | .DATA =>
    if t.tick div then
      if t.bitCnt = 7 then { t with baudCnt := 0, state := .STOP, txd := true }
      else { t with baudCnt := 0, bitCnt := t.bitCnt + 1, shift := t.shift >>> 1, txd := t.shift.getLsbD 1 }
    else { t with baudCnt := t.baudCnt + 1 }
  | .STOP =>
    if t.tick div then { t with baudCnt := 0, state := .IDLE } else { t with baudCnt := t.baudCnt + 1 }

end TxQ

namespace RxQ

def reset : RxQ := { state := .IDLE, shift := 0, bitCnt := 0, cnt := 0 }

variable (r : RxQ) (div : BitVec 16) (rxd : Bool)

/-- `rx_idle`. -/
def idle : Bool := r.state == .IDLE

/-- `rx_frame_done`. -/
def frameDone : Bool := r.state == .STOP && r.cnt == div

/-- `rx_half_div`. -/
def halfDiv : BitVec 16 := 0#1 ++ div.extractLsb 15 1

/-- The engine's edge. -/
def next : RxQ :=
  match r.state with
  | .IDLE => { r with cnt := 0, state := if rxd then .IDLE else .START }
  | .START =>
    if r.cnt = halfDiv div then
      if rxd then { r with cnt := 0, state := .IDLE } else { r with cnt := 0, state := .DATA, bitCnt := 0 }
    else { r with cnt := r.cnt + 1 }
  | .DATA =>
    if r.cnt = div then
      if r.bitCnt = 7 then { r with cnt := 0, shift := BitVec.ofBool rxd ++ r.shift.extractLsb 7 1, state := .STOP }
      else { r with cnt := 0, shift := BitVec.ofBool rxd ++ r.shift.extractLsb 7 1, bitCnt := r.bitCnt + 1 }
    else { r with cnt := r.cnt + 1 }
  | .STOP => if r.cnt = div then { r with cnt := 0, state := .IDLE } else { r with cnt := r.cnt + 1 }

end RxQ

/-! ## The slave -/

/-- The flops. -/
structure UartQ (u : UartParams) where
  div : BitVec 16
  divPending : BitVec 16
  divPendingValid : Bool
  tx : TxQ
  rx : RxQ
  rxOverrun : Bool
  txFifo : ℕ → BitVec 8
  rxFifo : ℕ → BitVec 8
  txWptr : BitVec (u.txPtrW + 1)
  txRptr : BitVec (u.txPtrW + 1)
  rxWptr : BitVec (u.rxPtrW + 1)
  rxRptr : BitVec (u.rxPtrW + 1)
  txIe : Bool
  rxIe : Bool
  awSeen : Bool
  wSeen : Bool
  wdata : Word
  wstrb : BitVec 4
  awaddrWord : BitVec 3
  bvalid : Bool
  rvalid : Bool
  rdata : Word

/-- The inputs of one cycle. -/
structure UartIn where
  axi : AxiM
  rxd : Bool

namespace UartQ

variable {u : UartParams}

/-- The reset branch: the FIFO arrays are not reset. -/
def reset (q : UartQ u) : UartQ u :=
  { q with div := u.baudDivReset, divPending := 0, divPendingValid := false, tx := .reset, rx := .reset,
           rxOverrun := false, txWptr := 0, txRptr := 0, rxWptr := 0, rxRptr := 0, txIe := false, rxIe := false,
           awSeen := false, wSeen := false, wdata := 0, wstrb := 0, awaddrWord := 0, bvalid := false,
           rvalid := false, rdata := 0 }

variable (q : UartQ u) (i : UartIn)

/-! FIFOs: full when the wrap bits differ and the indices agree. -/

def slot {w : ℕ} (ptr : BitVec (w + 1)) : ℕ := ptr.toNat % 2 ^ w

def txFifoEmpty : Bool := q.txWptr == q.txRptr
def txFifoFull : Bool :=
  (q.txWptr.getLsbD u.txPtrW != q.txRptr.getLsbD u.txPtrW) && slot q.txWptr == slot q.txRptr
def rxFifoEmpty : Bool := q.rxWptr == q.rxRptr
def rxFifoFull : Bool :=
  (q.rxWptr.getLsbD u.rxPtrW != q.rxRptr.getLsbD u.rxPtrW) && slot q.rxWptr == slot q.rxRptr
def txFifoHead : BitVec 8 := q.txFifo (slot q.txRptr)
def rxFifoHead : BitVec 8 := q.rxFifo (slot q.rxRptr)
def txReady : Bool := !q.txFifoFull
def rxReady : Bool := !q.rxFifoEmpty
def txFifoPop : Bool := q.tx.idle && !q.txFifoEmpty

/-! The write channel. -/

def awaddrIn : BitVec 3 := i.axi.awaddr.extractLsb 4 2
def txFullBlockAw : Bool := awaddrIn i == REG_TXDATA && !q.txReady
def awready : Bool := !q.awSeen && !q.bvalid && !q.txFullBlockAw i
def wready : Bool := !q.wSeen && !q.bvalid
def awHs : Bool := i.axi.awvalid && q.awready i
def wHs : Bool := i.axi.wvalid && q.wready
def awPresent : Bool := q.awSeen || q.awHs i
def wPresent : Bool := q.wSeen || q.wHs i
def waddrEff : BitVec 3 := if q.awHs i then awaddrIn i else q.awaddrWord
def wdataEff : Word := if q.wHs i then i.axi.wdata else q.wdata
def wstrbEff : BitVec 4 := if q.wHs i then i.axi.wstrb else q.wstrb
def wrLowByte : Bool := (q.wstrbEff i).getLsbD 0
def bHs : Bool := q.bvalid && i.axi.bready
def txAddrSel : Bool := q.waddrEff i == REG_TXDATA
def txWriteHold : Bool := q.txAddrSel i && !q.txReady
def doWrite : Bool := q.awPresent i && q.wPresent i && !q.bvalid && !q.txWriteHold i
def txPush : Bool := q.doWrite i && q.txAddrSel i && q.wrLowByte i

/-- The branches of the `case` of the write commit. -/
def ctrlWrite : Bool := q.doWrite i && q.waddrEff i == REG_CTRL && q.wrLowByte i
def bauddivWrite : Bool := q.doWrite i && q.waddrEff i == REG_BAUDDIV && q.wrLowByte i

/-- A pending `BAUDDIV` update is applied. -/
def divApply : Bool := q.divPendingValid && q.tx.idle && q.rx.idle

/-! The read channel. -/

def arready : Bool := !q.rvalid || (q.rvalid && i.axi.rready)
def arHs : Bool := i.axi.arvalid && q.arready i
def araddrIn : BitVec 3 := i.axi.araddr.extractLsb 4 2

def rdataMux : Word :=
  if araddrIn i = REG_RXDATA then 0#24 ++ q.rxFifoHead
  else if araddrIn i = REG_STATUS then
    0#29 ++ BitVec.ofBool q.rxOverrun ++ BitVec.ofBool q.rxReady ++ BitVec.ofBool q.txReady
  else if araddrIn i = REG_CTRL then 0#30 ++ BitVec.ofBool q.rxIe ++ BitVec.ofBool q.txIe
  else if araddrIn i = REG_BAUDDIV then 0#16 ++ q.div
  else 0

def rxRead : Bool := q.arHs i && araddrIn i == REG_RXDATA
def rxFifoPop : Bool := q.rxRead i && q.rxReady
def rxFrameDone : Bool := q.rx.frameDone q.div
def rxFifoPush : Bool := q.rxFrameDone && (!q.rxFifoFull || q.rxFifoPop i)

/-- `txd_o`. -/
def txd : Bool := q.tx.txd

/-- `uart_irq_o`. -/
def irq : Bool := (q.txReady && q.txIe) || (q.rxReady && q.rxIe)

/-- The slave's side of the port. -/
def axiS : AxiS where
  awready := q.awready i
  wready := q.wready
  bresp := 0
  bvalid := q.bvalid
  arready := q.arready i
  rdata := q.rdata
  rresp := 0
  rvalid := q.rvalid

/-- The clock edge. The clearing of `div_pending_valid_q` stands behind the write's `case`
and wins over it. -/
def next : UartQ u where
  div := if q.divApply then q.divPending else q.div
  divPending := if q.bauddivWrite i then (q.wdataEff i).extractLsb 15 0 else q.divPending
  divPendingValid := if q.divApply then false else if q.bauddivWrite i then true else q.divPendingValid
  tx := q.tx.next q.div (if q.txFifoPop then some q.txFifoHead else none)
  rx := q.rx.next q.div i.rxd
  rxOverrun :=
    if q.rxFrameDone && q.rxFifoFull && !q.rxFifoPop i then true else if q.rxRead i then false else q.rxOverrun
  txFifo := if q.txPush i then Function.update q.txFifo (slot q.txWptr) ((q.wdataEff i).extractLsb 7 0) else q.txFifo
  rxFifo := if q.rxFifoPush i then Function.update q.rxFifo (slot q.rxWptr) q.rx.shift else q.rxFifo
  txWptr := if q.txPush i then q.txWptr + 1 else q.txWptr
  txRptr := if q.txFifoPop then q.txRptr + 1 else q.txRptr
  rxWptr := if q.rxFifoPush i then q.rxWptr + 1 else q.rxWptr
  rxRptr := if q.rxFifoPop i then q.rxRptr + 1 else q.rxRptr
  txIe := if q.ctrlWrite i then (q.wdataEff i).getLsbD 0 else q.txIe
  rxIe := if q.ctrlWrite i then (q.wdataEff i).getLsbD 1 else q.rxIe
  awSeen := if q.doWrite i then false else q.awSeen || q.awHs i
  wSeen := if q.doWrite i then false else q.wSeen || q.wHs i
  wdata := q.wdataEff i
  wstrb := q.wstrbEff i
  awaddrWord := q.waddrEff i
  bvalid := if q.bHs i then false else q.doWrite i || q.bvalid
  rvalid := q.arHs i || (q.rvalid && !i.axi.rready)
  rdata := if q.arHs i then q.rdataMux i else q.rdata

@[simp] theorem next_div : (q.next i).div = if q.divApply then q.divPending else q.div := rfl
@[simp] theorem next_divPending :
    (q.next i).divPending = if q.bauddivWrite i then (q.wdataEff i).extractLsb 15 0 else q.divPending := rfl
@[simp] theorem next_divPendingValid : (q.next i).divPendingValid =
    if q.divApply then false else if q.bauddivWrite i then true else q.divPendingValid := rfl
@[simp] theorem next_tx : (q.next i).tx = q.tx.next q.div (if q.txFifoPop then some q.txFifoHead else none) := rfl
@[simp] theorem next_rx : (q.next i).rx = q.rx.next q.div i.rxd := rfl

end UartQ

end YarvUc
