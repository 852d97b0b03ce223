import YarvUc.Rtl.Bus

/-!
# `clint_timer` and `msip_peri`

The machine timer and the software-interrupt slave. Neither has a flop for the write
strobes: the port's `wstrb` is not read.
-/

namespace YarvUc

/-! ## The timer -/

def REG_MTIME_LO : BitVec 2 := 0b00#2
def REG_MTIME_HI : BitVec 2 := 0b01#2
def REG_MTIMECMP_LO : BitVec 2 := 0b10#2
def REG_MTIMECMP_HI : BitVec 2 := 0b11#2

/-- The flops of `clint_timer`. -/
structure TimerQ where
  mtime : BitVec 64
  mtimecmp : BitVec 64
  geHi : Bool
  eqHi : Bool
  geLo : Bool
  mtip : Bool
  awSeen : Bool
  wSeen : Bool
  wdata : Word
  awaddr : BitVec 2
  bvalid : Bool
  rvalid : Bool
  rdata : Word
deriving DecidableEq, Inhabited

namespace TimerQ

def reset : TimerQ :=
  { mtime := 0, mtimecmp := BitVec.allOnes 64, geHi := false, eqHi := false, geLo := false, mtip := false,
    awSeen := false, wSeen := false, wdata := 0, awaddr := 0, bvalid := false, rvalid := false, rdata := 0 }

variable (q : TimerQ) (i : AxiM)

def awready : Bool := !q.awSeen && !q.bvalid
def wready : Bool := !q.wSeen && !q.bvalid
def awHs : Bool := i.awvalid && q.awready
def wHs : Bool := i.wvalid && q.wready
def awPresent : Bool := q.awSeen || q.awHs i
def wPresent : Bool := q.wSeen || q.wHs i
def doWrite : Bool := q.awPresent i && q.wPresent i && !q.bvalid
def awSelLive : BitVec 2 := i.awaddr.extractLsb 3 2
def awSelEff : BitVec 2 := if q.awSeen then q.awaddr else awSelLive i
def wdataEff : Word := if q.wHs i then i.wdata else q.wdata
def bHs : Bool := q.bvalid && i.bready
def arready : Bool := !q.rvalid || (q.rvalid && i.rready)
def arHs : Bool := i.arvalid && q.arready i

def rdataLaunch : Word :=
  let sel : BitVec 2 := i.araddr.extractLsb 3 2
  if sel = REG_MTIME_LO then q.mtime.extractLsb 31 0
  else if sel = REG_MTIME_HI then q.mtime.extractLsb 63 32
  else if sel = REG_MTIMECMP_LO then q.mtimecmp.extractLsb 31 0
  else q.mtimecmp.extractLsb 63 32

/-- `mtimecmp_q` after a commit: a whole word is written. -/
def mtimecmpD : BitVec 64 :=
  if q.doWrite i then
    if q.awSelEff i = REG_MTIMECMP_LO then q.mtimecmp.extractLsb 63 32 ++ q.wdataEff i
    else if q.awSelEff i = REG_MTIMECMP_HI then q.wdataEff i ++ q.mtimecmp.extractLsb 31 0
    else q.mtimecmp
  else q.mtimecmp

/-- The slave's side of the port. -/
def axiS : AxiS where
  awready := q.awready
  wready := q.wready
  bresp := 0
  bvalid := q.bvalid
  arready := q.arready i
  rdata := q.rdata
  rresp := 0
  rvalid := q.rvalid

/-- The clock edge. -/
def next : TimerQ where
  mtime := q.mtime + 1
  mtimecmp := q.mtimecmpD i
  geHi := decide (q.mtimecmp.extractLsb 63 32 < q.mtime.extractLsb 63 32)
  eqHi := q.mtime.extractLsb 63 32 == q.mtimecmp.extractLsb 63 32
  geLo := decide (q.mtimecmp.extractLsb 31 0 ≤ q.mtime.extractLsb 31 0)
  mtip := q.geHi || (q.eqHi && q.geLo)
  awSeen := if q.doWrite i then false else q.awSeen || q.awHs i
  wSeen := if q.doWrite i then false else q.wSeen || q.wHs i
  wdata := q.wdataEff i
  awaddr := if q.awHs i then awSelLive i else q.awaddr
  bvalid := if q.bHs i then false else q.doWrite i || q.bvalid
  rvalid := q.arHs i || (q.rvalid && !i.rready)
  rdata := if q.arHs i then q.rdataLaunch i else q.rdata

end TimerQ

/-! ## The software interrupt -/

/-- The flops of `msip_peri`. -/
structure MsipQ where
  msip : Bool
  awSeen : Bool
  wSeen : Bool
  wdata : Word
  bvalid : Bool
  rvalid : Bool
  rdata : Word
deriving DecidableEq, Inhabited

namespace MsipQ

def reset : MsipQ :=
  { msip := false, awSeen := false, wSeen := false, wdata := 0, bvalid := false, rvalid := false, rdata := 0 }

variable (q : MsipQ) (i : AxiM)

def awready : Bool := !q.awSeen && !q.bvalid
def wready : Bool := !q.wSeen && !q.bvalid
def awHs : Bool := i.awvalid && q.awready
def wHs : Bool := i.wvalid && q.wready
def awPresent : Bool := q.awSeen || q.awHs i
def wPresent : Bool := q.wSeen || q.wHs i
def doWrite : Bool := q.awPresent i && q.wPresent i && !q.bvalid
def wdataEff : Word := if q.wHs i then i.wdata else q.wdata
def bHs : Bool := q.bvalid && i.bready
def arready : Bool := !q.rvalid || (q.rvalid && i.rready)
def arHs : Bool := i.arvalid && q.arready i

/-- The slave's side of the port. -/
def axiS : AxiS where
  awready := q.awready
  wready := q.wready
  bresp := 0
  bvalid := q.bvalid
  arready := q.arready i
  rdata := q.rdata
  rresp := 0
  rvalid := q.rvalid

/-- The clock edge. -/
def next : MsipQ where
  msip := if q.doWrite i then (q.wdataEff i).getLsbD 0 else q.msip
  awSeen := if q.doWrite i then false else q.awSeen || q.awHs i
  wSeen := if q.doWrite i then false else q.wSeen || q.wHs i
  wdata := q.wdataEff i
  bvalid := if q.bHs i then false else q.doWrite i || q.bvalid
  rvalid := q.arHs i || (q.rvalid && !i.rready)
  rdata := if q.arHs i then 0#31 ++ BitVec.ofBool q.msip else q.rdata

end MsipQ

end YarvUc
