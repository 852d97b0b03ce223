import YarvUc.Rtl.NativeRam

/-!
# `axi4_lite_ram`

The single-beat RAM slave, for any data width: `strbW` is the number of bytes of a word. The
storage is a function of the word index and is not reset.
-/

namespace YarvUc

/-- The flops and the storage array. -/
structure AxiRamQ (strbW : ℕ) where
  awSeen : Bool
  wSeen : Bool
  awWord : ℕ
  wstrb : BitVec strbW
  wdata : BitVec (8 * strbW)
  bvalid : Bool
  rvalid : Bool
  rdata : BitVec (8 * strbW)
  mem : ℕ → BitVec (8 * strbW)

/-- What the master drives. -/
structure AxiRamIn (strbW : ℕ) where
  awaddr : Word
  awvalid : Bool
  wdata : BitVec (8 * strbW)
  wstrb : BitVec strbW
  wvalid : Bool
  bready : Bool
  araddr : Word
  arvalid : Bool
  rready : Bool

namespace AxiRamQ

variable {strbW : ℕ}

/-- The reset branch. -/
def reset (q : AxiRamQ strbW) : AxiRamQ strbW :=
  { q with awSeen := false, wSeen := false, awWord := 0, wstrb := 0, wdata := 0, bvalid := false, rvalid := false,
           rdata := 0 }

variable (addrW : ℕ) (q : AxiRamQ strbW) (i : AxiRamIn strbW)

/-- `aw_word` and `ar_word`. -/
def awWordIn : ℕ := wordAddr addrW strbW i.awaddr
def arWordIn : ℕ := wordAddr addrW strbW i.araddr

def awready : Bool := !q.awSeen && !q.bvalid
def wready : Bool := !q.wSeen && !q.bvalid
def awHs : Bool := i.awvalid && q.awready
def wHs : Bool := i.wvalid && q.wready
def awPresent : Bool := q.awSeen || q.awHs i
def wPresent : Bool := q.wSeen || q.wHs i
def doWrite : Bool := q.awPresent i && q.wPresent i && !q.bvalid
def waddrEff : ℕ := if q.awHs i then awWordIn addrW i else q.awWord
def wdataEff : BitVec (8 * strbW) := if q.wHs i then i.wdata else q.wdata
def wstrbEff : BitVec strbW := if q.wHs i then i.wstrb else q.wstrb
def bHs : Bool := q.bvalid && i.bready
def arready : Bool := !q.rvalid || (q.rvalid && i.rready)
def arHs : Bool := i.arvalid && q.arready i

/-- The clock edge. -/
def next : AxiRamQ strbW where
  awSeen := if q.doWrite i then false else q.awSeen || q.awHs i
  wSeen := if q.doWrite i then false else q.wSeen || q.wHs i
  awWord := q.waddrEff addrW i
  wstrb := q.wstrbEff i
  wdata := q.wdataEff i
  bvalid := if q.bHs i then false else q.doWrite i || q.bvalid
  rvalid := q.arHs i || (q.rvalid && !i.rready)
  rdata := if q.arHs i then q.mem (arWordIn addrW i) else q.rdata
  mem :=
    if q.doWrite i then
      let a := q.waddrEff addrW i
      Function.update q.mem a (strobeWrite (q.mem a) (q.wdataEff i) (q.wstrbEff i))
    else q.mem

end AxiRamQ

end YarvUc
