import YarvUc.Rtl.Pkg

/-!
# `axi4_lite_master_bridge` and `axi4_lite_xbar_3`

The native-to-AXI bridge of the peripheral port and the crossbar behind it. An
AXI4-Lite port is split by direction, as its modports are.
-/

namespace YarvUc

/-- What a master drives. -/
structure AxiM where
  awaddr : Word := 0
  awvalid : Bool := false
  wdata : Word := 0
  wstrb : BitVec 4 := 0
  wvalid : Bool := false
  bready : Bool := false
  araddr : Word := 0
  arvalid : Bool := false
  rready : Bool := false
deriving DecidableEq, Inhabited

/-- What a slave drives. -/
structure AxiS where
  awready : Bool := false
  wready : Bool := false
  bresp : BitVec 2 := 0
  bvalid : Bool := false
  arready : Bool := false
  rdata : Word := 0
  rresp : BitVec 2 := 0
  rvalid : Bool := false
deriving DecidableEq, Inhabited

/-! ## The bridge -/

/-- `state_t`. -/
inductive BridgeState where
  | S_IDLE | S_RD_ADDR | S_RD_WAIT | S_WR_BOTH | S_WR_ADDR | S_WR_DATA | S_WR_WAIT
deriving DecidableEq, Inhabited, Repr

/-- The state and the request latch. -/
structure BridgeQ where
  state : BridgeState
  addr : Word
  wdata : Word
  wstrb : BitVec 4

namespace BridgeQ

/-- The latch is not reset. -/
def reset (q : BridgeQ) : BridgeQ := { q with state := .S_IDLE }

variable (q : BridgeQ) (req : MemReq)

/-- `accept`. -/
def accept : Bool := q.state == .S_IDLE && req.wvalid

/-- The AXI outputs; they do not read the slave's side. -/
def axi : AxiM :=
  match q.state with
  | .S_IDLE =>
    if req.wvalid then
      if req.we then
        { awaddr := req.addr, awvalid := true, wdata := req.wdata, wstrb := req.wstrb, wvalid := true, bready := true }
      else { araddr := req.addr, arvalid := true, bready := true }
    else { bready := true }
  | .S_RD_ADDR => { araddr := q.addr, arvalid := true, bready := true }
  | .S_RD_WAIT => { rready := req.rready, bready := true }
  | .S_WR_BOTH =>
    { awaddr := q.addr, awvalid := true, wdata := q.wdata, wstrb := q.wstrb, wvalid := true, bready := true }
  | .S_WR_ADDR => { wdata := q.wdata, wstrb := q.wstrb, wvalid := true, bready := true }
  | .S_WR_DATA => { awaddr := q.addr, awvalid := true, bready := true }
  | .S_WR_WAIT => { bready := true }

variable (s : AxiS)

def arHs : Bool := (q.axi req).arvalid && s.arready
def awHs : Bool := (q.axi req).awvalid && s.awready
def wHs : Bool := (q.axi req).wvalid && s.wready
def rHs : Bool := s.rvalid && (q.axi req).rready
def bHs : Bool := s.bvalid && (q.axi req).bready

/-- `rsp_o`. -/
def rsp : MemRsp where
  wready := q.state == .S_IDLE
  rvalid := q.state == .S_RD_WAIT && q.rHs req s
  rdata := if q.state = .S_RD_WAIT then s.rdata else 0
  bvalid := q.state == .S_WR_WAIT && q.bHs req s

/-- The branch of the write launch, shared by `S_IDLE` and `S_WR_BOTH`. -/
def writeLaunch : BridgeState :=
  if q.awHs req s && q.wHs req s then .S_WR_WAIT
  else if q.awHs req s then .S_WR_ADDR
  else if q.wHs req s then .S_WR_DATA
  else .S_WR_BOTH

/-- `state_d`. -/
def stateD : BridgeState :=
  match q.state with
  | .S_IDLE =>
    if req.wvalid then
      if req.we then q.writeLaunch req s else if q.arHs req s then .S_RD_WAIT else .S_RD_ADDR
    else .S_IDLE
  | .S_RD_ADDR => if q.arHs req s then .S_RD_WAIT else .S_RD_ADDR
  | .S_RD_WAIT => if q.rHs req s then .S_IDLE else .S_RD_WAIT
  | .S_WR_BOTH => q.writeLaunch req s
  | .S_WR_ADDR => if q.wHs req s then .S_WR_WAIT else .S_WR_ADDR
  | .S_WR_DATA => if q.awHs req s then .S_WR_WAIT else .S_WR_DATA
  | .S_WR_WAIT => if q.bHs req s then .S_IDLE else .S_WR_WAIT

def next : BridgeQ where
  state := q.stateD req s
  addr := if q.accept req then req.addr else q.addr
  wdata := if q.accept req then req.wdata else q.wdata
  wstrb := if q.accept req then req.wstrb else q.wstrb

end BridgeQ

/-! ## The crossbar -/

/-- `BASE0` .. `SIZE2`. -/
structure XbarParams where
  base0 : Word
  size0 : Word
  base1 : Word
  size1 : Word
  base2 : Word
  size2 : Word

/-- The defaults, which are also `rv32_pkg`'s address map. -/
def XbarParams.board : XbarParams :=
  { base0 := 0x10000000#32, size0 := 0x00001000#32, base1 := 0x10001000#32, size1 := 0x00002000#32,
    base2 := 0x10003000#32, size2 := 0x00001000#32 }

/-- `decode`: the port of an address, 3 for none. -/
def XbarParams.decode (p : XbarParams) (addr : Word) : BitVec 2 :=
  if p.base0 ≤ addr ∧ addr < p.base0 + p.size0 then 0
  else if p.base1 ≤ addr ∧ addr < p.base1 + p.size1 then 1
  else if p.base2 ≤ addr ∧ addr < p.base2 + p.size2 then 2
  else 3

def RESP_DECERR : BitVec 2 := 0b11#2

/-- The select latches and the decode-error terminator. -/
structure XbarQ where
  wrBusy : Bool
  wrSel : BitVec 2
  rdBusy : Bool
  rdSel : BitVec 2
  errAwSeen : Bool
  errWSeen : Bool
  errBvalid : Bool
  errRvalid : Bool

def XbarQ.reset : XbarQ :=
  { wrBusy := false, wrSel := 0, rdBusy := false, rdSel := 0, errAwSeen := false, errWSeen := false,
    errBvalid := false, errRvalid := false }

/-- One clock cycle: the slave port's inputs and the three master ports'. -/
structure XbarCyc where
  p : XbarParams
  q : XbarQ
  s : AxiM
  m0 : AxiS
  m1 : AxiS
  m2 : AxiS

namespace XbarCyc

variable (x : XbarCyc)

/-- The slave behind a select code; code 3 has none. -/
def slave (sel : BitVec 2) : AxiS :=
  if sel = 0 then x.m0 else if sel = 1 then x.m1 else if sel = 2 then x.m2 else {}

def errAwready : Bool := !x.q.errAwSeen && !x.q.errBvalid
def errWready : Bool := !x.q.errWSeen && !x.q.errBvalid
def errArready : Bool := !x.q.errRvalid

def wrSelLive : BitVec 2 := x.p.decode x.s.awaddr
def rdSelLive : BitVec 2 := x.p.decode x.s.araddr
def wrSelEff : BitVec 2 := if x.q.wrBusy then x.q.wrSel else x.wrSelLive

/-- What master port `sel` drives. -/
def mAxi (sel : BitVec 2) : AxiM where
  awaddr := x.s.awaddr
  awvalid := !x.q.wrBusy && x.s.awvalid && x.wrSelLive == sel
  wdata := x.s.wdata
  wstrb := x.s.wstrb
  wvalid := x.s.wvalid && x.wrSelEff == sel
  bready := x.q.wrBusy && x.q.wrSel == sel && x.s.bready
  araddr := x.s.araddr
  arvalid := !x.q.rdBusy && x.s.arvalid && x.rdSelLive == sel
  rready := x.q.rdBusy && x.q.rdSel == sel && x.s.rready

def m0Axi : AxiM := x.mAxi 0
def m1Axi : AxiM := x.mAxi 1
def m2Axi : AxiM := x.mAxi 2

/-- What the slave port drives. -/
def sAxi : AxiS where
  awready :=
    !x.q.wrBusy && x.s.awvalid && (if x.wrSelLive = 3 then x.errAwready else (x.slave x.wrSelLive).awready)
  wready := x.s.wvalid && (if x.wrSelEff = 3 then x.errWready else (x.slave x.wrSelEff).wready)
  bvalid := x.q.wrBusy && (if x.q.wrSel = 3 then x.q.errBvalid else (x.slave x.q.wrSel).bvalid)
  bresp :=
    if x.q.wrBusy then (if x.q.wrSel = 3 then RESP_DECERR else (x.slave x.q.wrSel).bresp) else 0
  arready :=
    !x.q.rdBusy && x.s.arvalid && (if x.rdSelLive = 3 then x.errArready else (x.slave x.rdSelLive).arready)
  rvalid := x.q.rdBusy && (if x.q.rdSel = 3 then x.q.errRvalid else (x.slave x.q.rdSel).rvalid)
  rdata := if x.q.rdBusy then (if x.q.rdSel = 3 then 0 else (x.slave x.q.rdSel).rdata) else 0
  rresp := if x.q.rdBusy then (if x.q.rdSel = 3 then RESP_DECERR else (x.slave x.q.rdSel).rresp) else 0

def awHs : Bool := x.s.awvalid && x.sAxi.awready
def bHs : Bool := x.sAxi.bvalid && x.s.bready
def arHs : Bool := x.s.arvalid && x.sAxi.arready
def rHs : Bool := x.sAxi.rvalid && x.s.rready

def errAwHs : Bool := x.awHs && x.wrSelLive == 3
def errWHs : Bool := x.s.wvalid && x.sAxi.wready && x.wrSelEff == 3
def errDoWrite : Bool := (x.q.errAwSeen || x.errAwHs) && (x.q.errWSeen || x.errWHs) && !x.q.errBvalid
def errBHs : Bool := x.bHs && x.q.wrSel == 3
def errArHs : Bool := x.arHs && x.rdSelLive == 3
def errRHs : Bool := x.rHs && x.q.rdSel == 3

def next : XbarQ where
  wrBusy := if x.awHs then true else if x.bHs then false else x.q.wrBusy
  wrSel := if x.awHs then x.wrSelLive else x.q.wrSel
  rdBusy := if x.arHs then true else if x.rHs then false else x.q.rdBusy
  rdSel := if x.arHs then x.rdSelLive else x.q.rdSel
  errAwSeen := if x.errDoWrite then false else x.q.errAwSeen || x.errAwHs
  errWSeen := if x.errDoWrite then false else x.q.errWSeen || x.errWHs
  errBvalid := if x.errBHs then false else x.q.errBvalid || x.errDoWrite
  errRvalid := if x.errArHs then true else if x.errRHs then false else x.q.errRvalid

end XbarCyc

end YarvUc
