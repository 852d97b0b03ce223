import YarvUc.Bus.Transactions
import YarvUc.Rtl.Cpu
import YarvUc.Rtl.Peripherals
import YarvUc.Rtl.Uart

/-!
# `top_module`

The CPU with its memories, the peripheral bus and the three slaves, closed: the interrupt
lines and the peripheral port's response come from the slaves, and the serial line is the
only input left. The bridge, which the source has inside the CPU, stands with the crossbar in
`bus`.
-/

namespace YarvUc

/-- The flops of the instances, and `uart_rxd_sync_q`. -/
structure Soc (u : UartParams) where
  cpu : Cpu
  bus : PeriQ
  uart : UartQ u
  timer : TimerQ
  msip : MsipQ
  rxdSync : BitVec 2

namespace Soc

variable {u : UartParams}

/-- The reset branch of every instance but the predictor's. -/
def start (s : Soc u) : Soc u where
  cpu := s.cpu.start 0
  bus := { bridge := s.bus.bridge.reset, xbar := .reset }
  uart := s.uart.reset
  timer := .reset
  msip := .reset
  rxdSync := 0b11#2

/-- The reset branch of every instance. -/
def reset (s : Soc u) : Soc u := { s.start with cpu := s.cpu.reset 0 }

variable (p : Params) (m : DmemParams) (s : Soc u) (rxd : Bool)

/-- `msip`, `mtip` and `meip`. -/
def lines : IrqLines where
  msip := s.msip.msip
  mtip := s.timer.mtip
  meip := s.uart.irq

/-- `peri_req`: it does not read the response. -/
def periReq : MemReq := (s.cpu.exec p m { lines := s.lines, periRsp := {} }).periReq

/-- `axi_bus_uart`, `axi_bus_timer` and `axi_bus_msip`, the master's side: it does not read the
slaves'. -/
def port (k : BitVec 2) : AxiM :=
  (s.bus.xcyc .board { req := s.periReq p m, m0 := {}, m1 := {}, m2 := {} }).mAxi k

def uartIn : UartIn where
  axi := s.port p m 0
  rxd := s.rxdSync.getLsbD 1

def periIn : PeriIn where
  req := s.periReq p m
  m0 := s.uart.axiS (s.uartIn p m)
  m1 := s.timer.axiS (s.port p m 1)
  m2 := s.msip.axiS (s.port p m 2)

def cpuIn : CpuIn where
  lines := s.lines
  periRsp := s.bus.rsp .board (s.periIn p m)

/-- The clock edge; `rxd` is `uart_rxd_i`. -/
def next : Soc u where
  cpu := s.cpu.next p m (s.cpuIn p m)
  bus := s.bus.next .board (s.periIn p m)
  uart := s.uart.next (s.uartIn p m)
  timer := s.timer.next (s.port p m 1)
  msip := s.msip.next (s.port p m 2)
  rxdSync := s.rxdSync.extractLsb' 0 1 ++ BitVec.ofBool rxd

/-- `uart_txd_o`. -/
def txd : Bool := s.uart.txd

end Soc

end YarvUc
