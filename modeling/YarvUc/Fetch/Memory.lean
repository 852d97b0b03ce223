import YarvUc.Rtl.FetchStage
import YarvUc.Rtl.NativeRam
import YarvUc.Clocked.Run

/-!
# Fetch and its instruction memory

`top_module` closes `fetch_stage`'s I-mem port with a read-only 64-bit `native_ram`
of two outstanding reads. Everything else the stage reads is an input here.
-/

namespace YarvUc

/-- The parameters of `u_imem`. -/
def imemParams (p : Params) : RamParams :=
  { addrW := p.imemAddrW, strbW := 8, readOnly := true, outstanding := 2 }

/-- The flops of the pair. -/
structure FetchMem where
  fetch : FetchQ
  ram : RamQ 8

/-- What the rest of the core feeds fetch in one cycle. -/
structure FetchIn where
  stall : Bool
  branchValid : Bool
  branchAddr : Word
  predValid : Bool
  predAddr : Word
  fePop2 : Bool
  bpPush : Word → Word → BpPushRsp

/-- A cycle in which decode pops one entry and nothing redirects. -/
def FetchIn.sequential : FetchIn :=
  { stall := false, branchValid := false, branchAddr := 0, predValid := false, predAddr := 0, fePop2 := false,
    bpPush := fun _ _ => { ghr := 0, pred0Lo := false, pred0Hi := false, pred1Lo := false, pred1Hi := false } }

namespace FetchMem

/-- A preloaded memory behind cleared flops. -/
def ofImage (image : Nat → BitVec 64) : FetchMem where
  fetch := { pc := 0, reqPc := 0, inflight := 0, stale := 0, redirLaunched := false, head := 0, tail := 0,
             count := 0, buf := fun _ => default }
  ram := { rif := false, rdD := 0, count := 0, skid := fun _ => 0, mem := image }

def reset (boot : Word) (s : FetchMem) : FetchMem := { fetch := s.fetch.reset boot, ram := s.ram.reset }

/-- `imem_rsp`. -/
def imemRsp (p : Params) (s : FetchMem) : IfetchRsp where
  ready := s.ram.wready (imemParams p) s.fetch.rready
  rvalid := s.ram.rvalid
  rdata := s.ram.rdata

/-- The fetch stage's cycle. -/
def cyc (p : Params) (s : FetchMem) (i : FetchIn) : FetchCyc where
  p := p
  q := s.fetch
  stall := i.stall
  branchValid := i.branchValid
  branchAddr := i.branchAddr
  predValid := i.predValid
  predAddr := i.predAddr
  imemRsp := s.imemRsp p
  bpPush := i.bpPush
  fePop2 := i.fePop2

/-- The memory's request port. -/
def ramIn (p : Params) (s : FetchMem) (i : FetchIn) : RamIn 8 where
  reqValid := (s.cyc p i).imemReq.valid
  reqWe := false
  reqAddr := (s.cyc p i).imemReq.addr
  reqWdata := 0
  reqWstrb := 0
  reqRready := (s.cyc p i).imemReq.rready

def next (p : Params) (s : FetchMem) (i : FetchIn) : FetchMem where
  fetch := (s.cyc p i).next
  ram := s.ram.next (imemParams p) (s.ramIn p i)

end FetchMem

end YarvUc
