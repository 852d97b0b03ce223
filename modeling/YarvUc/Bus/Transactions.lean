import YarvUc.Rtl.Bus
import YarvUc.Clocked.Run

/-!
# The peripheral bus as a sequence of transactions

The bridge and the crossbar together, and what an observer of the native port and of
the three slave ports sees: a request is accepted, its address and data handshakes
happen at the slave whose window holds the address, the slave answers, the native
side gets the answer, and only then is the next request accepted. `Open` lists the
states a transaction passes through with what has been seen of it so far.
-/

namespace YarvUc

structure PeriQ where
  bridge : BridgeQ
  xbar : XbarQ

structure PeriIn where
  req : MemReq
  m0 : AxiS
  m1 : AxiS
  m2 : AxiS

/-- What the observer writes down. `k` is a slave port; `bvalid` and `rvalid` are the
native answers, with the response code on the bridge's side of the crossbar. -/
inductive BusEvent where
  | accept (req : MemReq)
  | aw (k : BitVec 2) (addr : Word)
  | w (k : BitVec 2) (data : Word) (strb : BitVec 4)
  | ar (k : BitVec 2) (addr : Word)
  | b (k : BitVec 2)
  | r (k : BitVec 2) (data : Word)
  | bvalid (resp : BitVec 2)
  | rvalid (data : Word) (resp : BitVec 2)
deriving DecidableEq

namespace PeriQ

variable (p : XbarParams) (q : PeriQ) (i : PeriIn)

/-- The bridge's master port, which is the crossbar's slave port. -/
def xcyc : XbarCyc :=
  { p := p, q := q.xbar, s := q.bridge.axi i.req, m0 := i.m0, m1 := i.m1, m2 := i.m2 }

def rsp : MemRsp := q.bridge.rsp i.req (q.xcyc p i).sAxi

def next : PeriQ := { bridge := q.bridge.next i.req (q.xcyc p i).sAxi, xbar := (q.xcyc p i).next }

/-- The handshakes of slave port `k`. -/
def portEvents (k : BitVec 2) : List BusEvent :=
  let m := (q.xcyc p i).mAxi k
  let s := (q.xcyc p i).slave k
  (if m.awvalid && s.awready then [.aw k m.awaddr] else []) ++
    (if m.wvalid && s.wready then [.w k m.wdata m.wstrb] else []) ++
    (if m.arvalid && s.arready then [.ar k m.araddr] else []) ++
    (if s.bvalid && m.bready then [.b k] else []) ++ (if s.rvalid && m.rready then [.r k s.rdata] else [])

/-- The handshakes at the three slaves. -/
def slaveEvents : List BusEvent := q.portEvents p i 0 ++ q.portEvents p i 1 ++ q.portEvents p i 2

/-- Everything observed in one cycle. -/
def events : List BusEvent :=
  (if i.req.wvalid && (q.rsp p i).wready then [.accept i.req] else []) ++ q.slaveEvents p i ++
    (if (q.rsp p i).bvalid then [.bvalid (q.xcyc p i).sAxi.bresp] else []) ++
    (if (q.rsp p i).rvalid then [.rvalid (q.rsp p i).rdata (q.xcyc p i).sAxi.rresp] else [])

end PeriQ

/-! ## Whole transactions -/

/-- Window `k` holds the address. -/
def XbarParams.Hits (p : XbarParams) (k : BitVec 2) (a : Word) : Prop :=
  k = 0 ∧ p.base0 ≤ a ∧ a < p.base0 + p.size0 ∨ k = 1 ∧ p.base1 ≤ a ∧ a < p.base1 + p.size1 ∨
    k = 2 ∧ p.base2 ≤ a ∧ a < p.base2 + p.size2

theorem XbarParams.decode_hits {p : XbarParams} {a : Word} (h : p.decode a ≠ 3#2) : p.Hits (p.decode a) a := by
  unfold XbarParams.decode at h ⊢
  unfold XbarParams.Hits
  split
  · rename_i h0; exact .inl ⟨rfl, h0⟩
  · split
    · rename_i h1; exact .inr (.inl ⟨rfl, h1⟩)
    · split
      · rename_i h2; exact .inr (.inr ⟨rfl, h2⟩)
      · simp_all

theorem XbarParams.decode_none {p : XbarParams} {a : Word} (h : p.decode a = 3#2) (k : BitVec 2) : ¬ p.Hits k a := by
  unfold XbarParams.decode at h
  unfold XbarParams.Hits
  split at h
  · cases h
  · split at h
    · cases h
    · split at h
      · cases h
      · rintro (⟨-, h'⟩ | ⟨-, h'⟩ | ⟨-, h'⟩) <;> contradiction

/-- A complete transaction: the request, one address and one data handshake in either
order (or one read address handshake) at the slave it addresses, that slave's answer,
the native answer; or, for an address in no window, the decode error alone. -/
inductive Whole (p : XbarParams) (req : MemReq) : List BusEvent → Prop
  | awFirst {k resp} (we : req.we = true) (hits : p.Hits k req.addr) :
      Whole p req [.accept req, .aw k req.addr, .w k req.wdata req.wstrb, .b k, .bvalid resp]
  | wFirst {k resp} (we : req.we = true) (hits : p.Hits k req.addr) :
      Whole p req [.accept req, .w k req.wdata req.wstrb, .aw k req.addr, .b k, .bvalid resp]
  | writeNone (we : req.we = true) (miss : ∀ k, ¬ p.Hits k req.addr) :
      Whole p req [.accept req, .bvalid RESP_DECERR]
  | read {k data resp} (re : req.we = false) (hits : p.Hits k req.addr) :
      Whole p req [.accept req, .ar k req.addr, .r k data, .rvalid data resp]
  | readNone (re : req.we = false) (miss : ∀ k, ¬ p.Hits k req.addr) :
      Whole p req [.accept req, .rvalid 0 RESP_DECERR]

/-- The crossbar has nothing latched. -/
structure XbarQ.Clean (q : XbarQ) : Prop where
  wrBusy : q.wrBusy = false
  rdBusy : q.rdBusy = false
  errAwSeen : q.errAwSeen = false
  errWSeen : q.errWSeen = false
  errBvalid : q.errBvalid = false
  errRvalid : q.errRvalid = false

/-- The latch holds the request. -/
structure BridgeQ.Holds (q : BridgeQ) (req : MemReq) : Prop where
  addr : q.addr = req.addr
  wdata : q.wdata = req.wdata
  wstrb : q.wstrb = req.wstrb

/-- The open transaction of a state, with what has been seen of it. -/
inductive Open (p : XbarParams) : PeriQ → List BusEvent → Prop
  | idle {q} (state : q.bridge.state = .S_IDLE) (clean : q.xbar.Clean) : Open p q []
  | rdAddr {q req} (state : q.bridge.state = .S_RD_ADDR) (clean : q.xbar.Clean) (latch : q.bridge.Holds req)
      (re : req.we = false) (hit : p.decode req.addr ≠ 3#2) : Open p q [.accept req]
  | rdWait {q : PeriQ} {req} (state : q.bridge.state = .S_RD_WAIT) (re : req.we = false)
      (sel : q.xbar = { XbarQ.reset with wrSel := q.xbar.wrSel, rdBusy := true, rdSel := p.decode req.addr })
      (hit : p.decode req.addr ≠ 3#2) : Open p q [.accept req, .ar (p.decode req.addr) req.addr]
  | rdError {q : PeriQ} {req} (state : q.bridge.state = .S_RD_WAIT) (re : req.we = false)
      (sel : q.xbar = { XbarQ.reset with wrSel := q.xbar.wrSel, rdBusy := true, rdSel := 3, errRvalid := true })
      (miss : p.decode req.addr = 3#2) : Open p q [.accept req]
  | wrBoth {q req} (state : q.bridge.state = .S_WR_BOTH) (clean : q.xbar.Clean) (latch : q.bridge.Holds req)
      (we : req.we = true) (hit : p.decode req.addr ≠ 3#2) : Open p q [.accept req]
  | wrAddr {q : PeriQ} {req} (state : q.bridge.state = .S_WR_ADDR) (latch : q.bridge.Holds req) (we : req.we = true)
      (sel : q.xbar = { XbarQ.reset with rdSel := q.xbar.rdSel, wrBusy := true, wrSel := p.decode req.addr })
      (hit : p.decode req.addr ≠ 3#2) : Open p q [.accept req, .aw (p.decode req.addr) req.addr]
  | wrData {q req} (state : q.bridge.state = .S_WR_DATA) (clean : q.xbar.Clean) (latch : q.bridge.Holds req)
      (we : req.we = true) (hit : p.decode req.addr ≠ 3#2) :
      Open p q [.accept req, .w (p.decode req.addr) req.wdata req.wstrb]
  | wrWait {q : PeriQ} {req} (state : q.bridge.state = .S_WR_WAIT) (we : req.we = true)
      (sel : q.xbar = { XbarQ.reset with rdSel := q.xbar.rdSel, wrBusy := true, wrSel := p.decode req.addr })
      (hit : p.decode req.addr ≠ 3#2) {seen}
      (both : seen = [.aw (p.decode req.addr) req.addr, .w (p.decode req.addr) req.wdata req.wstrb] ∨
        seen = [.w (p.decode req.addr) req.wdata req.wstrb, .aw (p.decode req.addr) req.addr]) :
      Open p q (.accept req :: seen)
  | wrError {q : PeriQ} {req} (state : q.bridge.state = .S_WR_WAIT) (we : req.we = true)
      (sel : q.xbar = { XbarQ.reset with rdSel := q.xbar.rdSel, wrBusy := true, wrSel := 3, errBvalid := true })
      (miss : p.decode req.addr = 3#2) : Open p q [.accept req]

/-! ## One cycle of each phase -/

section Phases

variable {p : XbarParams} {q : PeriQ} {i : PeriIn} {req : MemReq}

theorem sel_cases {s : BitVec 2} (h : s ≠ 3#2) : s = 0 ∨ s = 1 ∨ s = 2 := by
  revert s
  decide

theorem XbarQ.Clean.eq {q : XbarQ} (c : q.Clean) :
    q = { XbarQ.reset with wrSel := q.wrSel, rdSel := q.rdSel } := by
  cases q
  cases c
  simp_all [XbarQ.reset]

theorem XbarQ.clean_reset (a b : BitVec 2) : XbarQ.Clean { XbarQ.reset with wrSel := a, rdSel := b } := by
  constructor <;> rfl

/-- The two sides of the crossbar's slave port see the same handshakes. -/
theorem hs_eq (p : XbarParams) (q : PeriQ) (i : PeriIn) :
    q.bridge.awHs i.req (q.xcyc p i).sAxi = (q.xcyc p i).awHs ∧
      q.bridge.arHs i.req (q.xcyc p i).sAxi = (q.xcyc p i).arHs ∧
      q.bridge.rHs i.req (q.xcyc p i).sAxi = (q.xcyc p i).rHs ∧
      q.bridge.bHs i.req (q.xcyc p i).sAxi = (q.xcyc p i).bHs := ⟨rfl, rfl, rfl, rfl⟩

/-- Nothing driven, nothing latched: nothing happens. -/
theorem quiet_phase (clean : q.xbar.Clean) (axi : q.bridge.axi i.req = { bready := true }) :
    q.slaveEvents p i = [] ∧ (q.next p i).xbar.Clean := by
  refine ⟨?_, ?_⟩
  · simp [PeriQ.slaveEvents, PeriQ.portEvents, PeriQ.xcyc, XbarCyc.mAxi, axi, clean.wrBusy, clean.rdBusy]
  · constructor <;>
      simp [PeriQ.next, PeriQ.xcyc, XbarCyc.next, XbarCyc.awHs, XbarCyc.arHs, XbarCyc.bHs, XbarCyc.rHs,
        XbarCyc.errDoWrite, XbarCyc.errAwHs, XbarCyc.errWHs, XbarCyc.errArHs, XbarCyc.errRHs, XbarCyc.errBHs,
        XbarCyc.sAxi, axi, clean.wrBusy, clean.rdBusy, clean.errAwSeen, clean.errWSeen, clean.errBvalid,
        clean.errRvalid]

/-- The read address on the bus. -/
theorem read_phase (clean : q.xbar.Clean)
    (axi : q.bridge.axi i.req = { araddr := req.addr, arvalid := true, bready := true })
    (hit : p.decode req.addr ≠ 3#2) :
    q.slaveEvents p i = (if (q.xcyc p i).arHs then [.ar (p.decode req.addr) req.addr] else []) ∧
      (q.next p i).xbar =
        if (q.xcyc p i).arHs then
          { XbarQ.reset with wrSel := q.xbar.wrSel, rdBusy := true, rdSel := p.decode req.addr }
        else q.xbar := by
  have hs : (q.xcyc p i).s = { araddr := req.addr, arvalid := true, bready := true } := axi
  have hx : (q.xcyc p i).q = q.xbar := rfl
  have hsel : (q.xcyc p i).rdSelLive = p.decode req.addr := by rw [XbarCyc.rdSelLive, hs]; rfl
  have hhs : (q.xcyc p i).arHs = ((q.xcyc p i).slave (p.decode req.addr)).arready := by
    simp [XbarCyc.arHs, XbarCyc.sAxi, hs, hx, clean.rdBusy, hsel, hit]
  have haw : (q.xcyc p i).awHs = false := by simp [XbarCyc.awHs, hs]
  have hb : (q.xcyc p i).bHs = false := by simp [XbarCyc.bHs, XbarCyc.sAxi, hx, clean.wrBusy]
  have hr : (q.xcyc p i).rHs = false := by simp [XbarCyc.rHs, hs]
  refine ⟨?_, ?_⟩
  · rw [hhs]
    rcases sel_cases hit with h | h | h <;>
      simp [PeriQ.slaveEvents, PeriQ.portEvents, XbarCyc.mAxi, hs, hx, clean.wrBusy, clean.rdBusy, hsel, h]
  · have hnext : (q.next p i).xbar = (q.xcyc p i).next := rfl
    rw [hnext, XbarCyc.next, clean.eq]
    cases h : (q.xcyc p i).arHs <;>
      simp [XbarCyc.errDoWrite, XbarCyc.errAwHs, XbarCyc.errWHs, XbarCyc.errArHs, XbarCyc.errRHs, XbarCyc.errBHs,
        h, haw, hb, hr, hs, hx, hsel, hit, clean.errAwSeen, clean.errWSeen, clean.errBvalid, clean.errRvalid,
        clean.wrBusy, clean.rdBusy, XbarQ.reset]

/-- An address in no window is taken by the terminator at once. -/
theorem read_miss (clean : q.xbar.Clean)
    (axi : q.bridge.axi i.req = { araddr := req.addr, arvalid := true, bready := true })
    (miss : p.decode req.addr = 3#2) :
    q.slaveEvents p i = [] ∧ (q.xcyc p i).arHs = true ∧
      (q.next p i).xbar =
        { XbarQ.reset with wrSel := q.xbar.wrSel, rdBusy := true, rdSel := 3, errRvalid := true } := by
  have hs : (q.xcyc p i).s = { araddr := req.addr, arvalid := true, bready := true } := axi
  have hx : (q.xcyc p i).q = q.xbar := rfl
  have hsel : (q.xcyc p i).rdSelLive = 3#2 := by rw [XbarCyc.rdSelLive, hs]; exact miss
  have har : (q.xcyc p i).arHs = true := by
    simp [XbarCyc.arHs, XbarCyc.sAxi, hs, hx, clean.rdBusy, hsel, XbarCyc.errArready, clean.errRvalid]
  have haw : (q.xcyc p i).awHs = false := by simp [XbarCyc.awHs, hs]
  have hb : (q.xcyc p i).bHs = false := by simp [XbarCyc.bHs, XbarCyc.sAxi, hx, clean.wrBusy]
  have hr : (q.xcyc p i).rHs = false := by simp [XbarCyc.rHs, hs]
  refine ⟨?_, har, ?_⟩
  · simp [PeriQ.slaveEvents, PeriQ.portEvents, XbarCyc.mAxi, hs, hx, clean.wrBusy, clean.rdBusy, hsel]
  · have hnext : (q.next p i).xbar = (q.xcyc p i).next := rfl
    rw [hnext, XbarCyc.next, clean.eq]
    simp [XbarCyc.errDoWrite, XbarCyc.errAwHs, XbarCyc.errWHs, XbarCyc.errArHs, XbarCyc.errBHs,
      har, haw, hb, hs, hx, hsel, clean.errAwSeen, clean.errWSeen, clean.errBvalid, clean.wrBusy, XbarQ.reset]

/-- Waiting for the slave's read data. -/
theorem readWait_phase {k a : BitVec 2} (busy : q.xbar = { XbarQ.reset with wrSel := a, rdBusy := true, rdSel := k })
    (axi : q.bridge.axi i.req = { rready := i.req.rready, bready := true }) (hit : k ≠ 3#2) :
    q.slaveEvents p i = (if (q.xcyc p i).rHs then [.r k (q.xcyc p i).sAxi.rdata] else []) ∧
      (q.next p i).xbar = if (q.xcyc p i).rHs then { XbarQ.reset with wrSel := a, rdSel := k } else q.xbar := by
  have hs : (q.xcyc p i).s = { rready := i.req.rready, bready := true } := axi
  have hx : (q.xcyc p i).q = { XbarQ.reset with wrSel := a, rdBusy := true, rdSel := k } := busy
  have hrdata : (q.xcyc p i).sAxi.rdata = ((q.xcyc p i).slave k).rdata := by simp [XbarCyc.sAxi, hx, hit]
  have hhs : (q.xcyc p i).rHs = (((q.xcyc p i).slave k).rvalid && i.req.rready) := by
    simp [XbarCyc.rHs, XbarCyc.sAxi, hs, hx, hit]
  have haw : (q.xcyc p i).awHs = false := by simp [XbarCyc.awHs, hs]
  have har : (q.xcyc p i).arHs = false := by simp [XbarCyc.arHs, hs]
  have hb : (q.xcyc p i).bHs = false := by simp [XbarCyc.bHs, XbarCyc.sAxi, hx, XbarQ.reset]
  refine ⟨?_, ?_⟩
  · rw [hhs, hrdata]
    rcases sel_cases hit with h | h | h <;>
      simp [PeriQ.slaveEvents, PeriQ.portEvents, XbarCyc.mAxi, hs, hx, h, XbarQ.reset]
  · have hnext : (q.next p i).xbar = (q.xcyc p i).next := rfl
    rw [hnext, XbarCyc.next, busy]
    cases h : (q.xcyc p i).rHs <;>
      simp [XbarCyc.errDoWrite, XbarCyc.errAwHs, XbarCyc.errWHs, XbarCyc.errArHs, XbarCyc.errRHs, XbarCyc.errBHs,
        h, haw, har, hb, hs, hx, hit, XbarQ.reset]

/-- Waiting for the terminator's read answer. -/
theorem readError_phase {a : BitVec 2}
    (busy : q.xbar = { XbarQ.reset with wrSel := a, rdBusy := true, rdSel := 3, errRvalid := true })
    (axi : q.bridge.axi i.req = { rready := i.req.rready, bready := true }) :
    q.slaveEvents p i = [] ∧ (q.xcyc p i).rHs = i.req.rready ∧ (q.xcyc p i).sAxi.rdata = 0 ∧
      (q.xcyc p i).sAxi.rresp = RESP_DECERR ∧
      (q.next p i).xbar = if (q.xcyc p i).rHs then { XbarQ.reset with wrSel := a, rdSel := 3 } else q.xbar := by
  have hs : (q.xcyc p i).s = { rready := i.req.rready, bready := true } := axi
  have hx : (q.xcyc p i).q = { XbarQ.reset with wrSel := a, rdBusy := true, rdSel := 3, errRvalid := true } := busy
  have hhs : (q.xcyc p i).rHs = i.req.rready := by simp [XbarCyc.rHs, XbarCyc.sAxi, hs, hx]
  have haw : (q.xcyc p i).awHs = false := by simp [XbarCyc.awHs, hs]
  have har : (q.xcyc p i).arHs = false := by simp [XbarCyc.arHs, hs]
  have hb : (q.xcyc p i).bHs = false := by simp [XbarCyc.bHs, XbarCyc.sAxi, hx, XbarQ.reset]
  refine ⟨?_, hhs, ?_, ?_, ?_⟩
  · simp [PeriQ.slaveEvents, PeriQ.portEvents, XbarCyc.mAxi, hs, hx, XbarQ.reset]
  · simp [XbarCyc.sAxi, hx]
  · simp [XbarCyc.sAxi, hx]
  · have hnext : (q.next p i).xbar = (q.xcyc p i).next := rfl
    rw [hnext, XbarCyc.next, busy]
    cases h : (q.xcyc p i).rHs <;>
      simp [XbarCyc.errDoWrite, XbarCyc.errAwHs, XbarCyc.errWHs, XbarCyc.errArHs, XbarCyc.errRHs, XbarCyc.errBHs,
        h, haw, har, hb, hs, hx, XbarQ.reset]

/-- Address and data of a write on the bus. -/
theorem write_phase (clean : q.xbar.Clean)
    (axi : q.bridge.axi i.req = { awaddr := req.addr, awvalid := true, wdata := req.wdata, wstrb := req.wstrb,
                                  wvalid := true, bready := true })
    (hit : p.decode req.addr ≠ 3#2) :
    q.slaveEvents p i =
        (if (q.xcyc p i).awHs then [.aw (p.decode req.addr) req.addr] else []) ++
          (if (q.bridge.wHs i.req (q.xcyc p i).sAxi) then [.w (p.decode req.addr) req.wdata req.wstrb] else []) ∧
      (q.next p i).xbar =
        if (q.xcyc p i).awHs then
          { XbarQ.reset with rdSel := q.xbar.rdSel, wrBusy := true, wrSel := p.decode req.addr }
        else q.xbar := by
  have hs : (q.xcyc p i).s = { awaddr := req.addr, awvalid := true, wdata := req.wdata, wstrb := req.wstrb,
                               wvalid := true, bready := true } := axi
  have hx : (q.xcyc p i).q = q.xbar := rfl
  have hsel : (q.xcyc p i).wrSelLive = p.decode req.addr := by rw [XbarCyc.wrSelLive, hs]; rfl
  have heff : (q.xcyc p i).wrSelEff = p.decode req.addr := by simp [XbarCyc.wrSelEff, hx, clean.wrBusy, hsel]
  have haw : (q.xcyc p i).awHs = ((q.xcyc p i).slave (p.decode req.addr)).awready := by
    simp [XbarCyc.awHs, XbarCyc.sAxi, hs, hx, clean.wrBusy, hsel, hit]
  have hw : q.bridge.wHs i.req (q.xcyc p i).sAxi = ((q.xcyc p i).slave (p.decode req.addr)).wready := by
    simp [BridgeQ.wHs, XbarCyc.sAxi, axi, hs, heff, hit]
  have har : (q.xcyc p i).arHs = false := by simp [XbarCyc.arHs, hs]
  have hb : (q.xcyc p i).bHs = false := by simp [XbarCyc.bHs, XbarCyc.sAxi, hx, clean.wrBusy]
  have hr : (q.xcyc p i).rHs = false := by simp [XbarCyc.rHs, hs]
  refine ⟨?_, ?_⟩
  · rw [haw, hw]
    rcases sel_cases hit with h | h | h <;>
      simp [PeriQ.slaveEvents, PeriQ.portEvents, XbarCyc.mAxi, hs, hx, clean.wrBusy, clean.rdBusy, hsel, heff, h]
  · have hnext : (q.next p i).xbar = (q.xcyc p i).next := rfl
    rw [hnext, XbarCyc.next, clean.eq]
    cases h : (q.xcyc p i).awHs <;>
      simp [XbarCyc.errDoWrite, XbarCyc.errAwHs, XbarCyc.errWHs, XbarCyc.errArHs, XbarCyc.errRHs, XbarCyc.errBHs,
        h, har, hb, hr, hs, hx, hsel, heff, hit, clean.errAwSeen, clean.errWSeen, clean.errBvalid, clean.errRvalid,
        clean.wrBusy, clean.rdBusy, XbarQ.reset]

/-- A write to no window is taken by the terminator at once. -/
theorem write_miss (clean : q.xbar.Clean)
    (axi : q.bridge.axi i.req = { awaddr := req.addr, awvalid := true, wdata := req.wdata, wstrb := req.wstrb,
                                  wvalid := true, bready := true })
    (miss : p.decode req.addr = 3#2) :
    q.slaveEvents p i = [] ∧ (q.xcyc p i).awHs = true ∧ q.bridge.wHs i.req (q.xcyc p i).sAxi = true ∧
      (q.next p i).xbar =
        { XbarQ.reset with rdSel := q.xbar.rdSel, wrBusy := true, wrSel := 3, errBvalid := true } := by
  have hs : (q.xcyc p i).s = { awaddr := req.addr, awvalid := true, wdata := req.wdata, wstrb := req.wstrb,
                               wvalid := true, bready := true } := axi
  have hx : (q.xcyc p i).q = q.xbar := rfl
  have hsel : (q.xcyc p i).wrSelLive = 3#2 := by rw [XbarCyc.wrSelLive, hs]; exact miss
  have heff : (q.xcyc p i).wrSelEff = 3#2 := by simp [XbarCyc.wrSelEff, hx, clean.wrBusy, hsel]
  have haw : (q.xcyc p i).awHs = true := by
    simp [XbarCyc.awHs, XbarCyc.sAxi, hs, hx, clean.wrBusy, hsel, XbarCyc.errAwready, clean.errAwSeen, clean.errBvalid]
  have hw' : (q.xcyc p i).sAxi.wready = true := by
    simp [XbarCyc.sAxi, hs, heff, XbarCyc.errWready, hx, clean.errWSeen, clean.errBvalid]
  have hw : q.bridge.wHs i.req (q.xcyc p i).sAxi = true := by simp [BridgeQ.wHs, axi, hw']
  have har : (q.xcyc p i).arHs = false := by simp [XbarCyc.arHs, hs]
  have hb : (q.xcyc p i).bHs = false := by simp [XbarCyc.bHs, XbarCyc.sAxi, hx, clean.wrBusy]
  have hr : (q.xcyc p i).rHs = false := by simp [XbarCyc.rHs, hs]
  refine ⟨?_, haw, hw, ?_⟩
  · simp [PeriQ.slaveEvents, PeriQ.portEvents, XbarCyc.mAxi, hs, hx, clean.wrBusy, clean.rdBusy, hsel, heff]
  · have hnext : (q.next p i).xbar = (q.xcyc p i).next := rfl
    rw [hnext, XbarCyc.next, clean.eq]
    simp [XbarCyc.errDoWrite, XbarCyc.errAwHs, XbarCyc.errWHs, XbarCyc.errArHs, XbarCyc.errRHs, XbarCyc.errBHs,
      haw, har, hb, hr, hs, hx, hsel, heff, hw', clean.errAwSeen, clean.errWSeen, clean.errBvalid, clean.errRvalid,
      clean.rdBusy, XbarQ.reset]

/-- The address taken, the data still on the bus; the slave does not answer yet. -/
theorem wrAddr_phase {k a : BitVec 2} (busy : q.xbar = { XbarQ.reset with rdSel := a, wrBusy := true, wrSel := k })
    (axi : q.bridge.axi i.req = { wdata := req.wdata, wstrb := req.wstrb, wvalid := true, bready := true })
    (hit : k ≠ 3#2) (early : ((q.xcyc p i).slave k).bvalid = false) :
    q.slaveEvents p i = (if (q.bridge.wHs i.req (q.xcyc p i).sAxi) then [.w k req.wdata req.wstrb] else []) ∧
      (q.next p i).xbar = q.xbar := by
  have hs : (q.xcyc p i).s = { wdata := req.wdata, wstrb := req.wstrb, wvalid := true, bready := true } := axi
  have hx : (q.xcyc p i).q = { XbarQ.reset with rdSel := a, wrBusy := true, wrSel := k } := busy
  have heff : (q.xcyc p i).wrSelEff = k := by simp [XbarCyc.wrSelEff, hx]
  have hw : q.bridge.wHs i.req (q.xcyc p i).sAxi = ((q.xcyc p i).slave k).wready := by
    simp [BridgeQ.wHs, XbarCyc.sAxi, axi, hs, heff, hit]
  have haw : (q.xcyc p i).awHs = false := by simp [XbarCyc.awHs, hs]
  have har : (q.xcyc p i).arHs = false := by simp [XbarCyc.arHs, hs]
  have hb : (q.xcyc p i).bHs = false := by simp [XbarCyc.bHs, XbarCyc.sAxi, hx, hit, early]
  have hr : (q.xcyc p i).rHs = false := by simp [XbarCyc.rHs, hs]
  refine ⟨?_, ?_⟩
  · rw [hw]
    rcases sel_cases hit with h | h | h <;>
      simp [h] at early <;>
      simp [PeriQ.slaveEvents, PeriQ.portEvents, XbarCyc.mAxi, hs, hx, heff, h, early, XbarQ.reset]
  · have hnext : (q.next p i).xbar = (q.xcyc p i).next := rfl
    rw [hnext, XbarCyc.next, busy]
    simp [XbarCyc.errDoWrite, XbarCyc.errAwHs, XbarCyc.errWHs, XbarCyc.errArHs, XbarCyc.errRHs, XbarCyc.errBHs,
      haw, har, hb, hr, hs, hx, heff, hit, XbarQ.reset]

/-- The data taken, the address still on the bus. -/
theorem wrData_phase (clean : q.xbar.Clean)
    (axi : q.bridge.axi i.req = { awaddr := req.addr, awvalid := true, bready := true })
    (hit : p.decode req.addr ≠ 3#2) :
    q.slaveEvents p i = (if (q.xcyc p i).awHs then [.aw (p.decode req.addr) req.addr] else []) ∧
      (q.next p i).xbar =
        if (q.xcyc p i).awHs then
          { XbarQ.reset with rdSel := q.xbar.rdSel, wrBusy := true, wrSel := p.decode req.addr }
        else q.xbar := by
  have hs : (q.xcyc p i).s = { awaddr := req.addr, awvalid := true, bready := true } := axi
  have hx : (q.xcyc p i).q = q.xbar := rfl
  have hsel : (q.xcyc p i).wrSelLive = p.decode req.addr := by rw [XbarCyc.wrSelLive, hs]; rfl
  have haw : (q.xcyc p i).awHs = ((q.xcyc p i).slave (p.decode req.addr)).awready := by
    simp [XbarCyc.awHs, XbarCyc.sAxi, hs, hx, clean.wrBusy, hsel, hit]
  have har : (q.xcyc p i).arHs = false := by simp [XbarCyc.arHs, hs]
  have hb : (q.xcyc p i).bHs = false := by simp [XbarCyc.bHs, XbarCyc.sAxi, hx, clean.wrBusy]
  have hr : (q.xcyc p i).rHs = false := by simp [XbarCyc.rHs, hs]
  refine ⟨?_, ?_⟩
  · rw [haw]
    rcases sel_cases hit with h | h | h <;>
      simp [PeriQ.slaveEvents, PeriQ.portEvents, XbarCyc.mAxi, hs, hx, clean.wrBusy, clean.rdBusy, hsel, h]
  · have hnext : (q.next p i).xbar = (q.xcyc p i).next := rfl
    rw [hnext, XbarCyc.next, clean.eq]
    cases h : (q.xcyc p i).awHs <;>
      simp [XbarCyc.errDoWrite, XbarCyc.errAwHs, XbarCyc.errWHs, XbarCyc.errArHs, XbarCyc.errRHs, XbarCyc.errBHs,
        h, har, hb, hr, hs, hx, hsel, hit, clean.errAwSeen, clean.errWSeen, clean.errBvalid, clean.errRvalid,
        clean.wrBusy, clean.rdBusy, XbarQ.reset]

/-- Waiting for the slave's write answer. -/
theorem wrWait_phase {k a : BitVec 2} (busy : q.xbar = { XbarQ.reset with rdSel := a, wrBusy := true, wrSel := k })
    (axi : q.bridge.axi i.req = { bready := true }) (hit : k ≠ 3#2) :
    q.slaveEvents p i = (if (q.xcyc p i).bHs then [.b k] else []) ∧
      (q.next p i).xbar = if (q.xcyc p i).bHs then { XbarQ.reset with rdSel := a, wrSel := k } else q.xbar := by
  have hs : (q.xcyc p i).s = { bready := true } := axi
  have hx : (q.xcyc p i).q = { XbarQ.reset with rdSel := a, wrBusy := true, wrSel := k } := busy
  have hhs : (q.xcyc p i).bHs = ((q.xcyc p i).slave k).bvalid := by
    simp [XbarCyc.bHs, XbarCyc.sAxi, hs, hx, hit]
  have haw : (q.xcyc p i).awHs = false := by simp [XbarCyc.awHs, hs]
  have har : (q.xcyc p i).arHs = false := by simp [XbarCyc.arHs, hs]
  have hr : (q.xcyc p i).rHs = false := by simp [XbarCyc.rHs, hs]
  refine ⟨?_, ?_⟩
  · rw [hhs]
    rcases sel_cases hit with h | h | h <;>
      simp [PeriQ.slaveEvents, PeriQ.portEvents, XbarCyc.mAxi, hs, hx, h, XbarQ.reset]
  · have hnext : (q.next p i).xbar = (q.xcyc p i).next := rfl
    rw [hnext, XbarCyc.next, busy]
    cases h : (q.xcyc p i).bHs <;>
      simp [XbarCyc.errDoWrite, XbarCyc.errAwHs, XbarCyc.errWHs, XbarCyc.errArHs, XbarCyc.errRHs, XbarCyc.errBHs,
        h, haw, har, hr, hs, hx, hit, XbarQ.reset]

/-- Waiting for the terminator's write answer. -/
theorem wrError_phase {a : BitVec 2}
    (busy : q.xbar = { XbarQ.reset with rdSel := a, wrBusy := true, wrSel := 3, errBvalid := true })
    (axi : q.bridge.axi i.req = { bready := true }) :
    q.slaveEvents p i = [] ∧ (q.xcyc p i).bHs = true ∧ (q.xcyc p i).sAxi.bresp = RESP_DECERR ∧
      (q.next p i).xbar = { XbarQ.reset with rdSel := a, wrSel := 3 } := by
  have hs : (q.xcyc p i).s = { bready := true } := axi
  have hx : (q.xcyc p i).q = { XbarQ.reset with rdSel := a, wrBusy := true, wrSel := 3, errBvalid := true } := busy
  have hb : (q.xcyc p i).bHs = true := by simp [XbarCyc.bHs, XbarCyc.sAxi, hs, hx]
  have haw : (q.xcyc p i).awHs = false := by simp [XbarCyc.awHs, hs]
  have har : (q.xcyc p i).arHs = false := by simp [XbarCyc.arHs, hs]
  have hr : (q.xcyc p i).rHs = false := by simp [XbarCyc.rHs, hs]
  refine ⟨?_, hb, ?_, ?_⟩
  · simp [PeriQ.slaveEvents, PeriQ.portEvents, XbarCyc.mAxi, hs, hx, XbarQ.reset]
  · simp [XbarCyc.sAxi, hx]
  · have hnext : (q.next p i).xbar = (q.xcyc p i).next := rfl
    rw [hnext, XbarCyc.next]
    simp [XbarCyc.errDoWrite, XbarCyc.errAwHs, XbarCyc.errWHs, XbarCyc.errArHs, XbarCyc.errRHs, XbarCyc.errBHs,
      hb, haw, har, hr, hs, hx, XbarQ.reset]

/-! ## One edge of a transaction -/

/-- The edge continues the open transaction, or completes it and leaves the bus idle. -/
def Moves (p : XbarParams) (q : PeriQ) (i : PeriIn) (part : List BusEvent) : Prop :=
  Open p (q.next p i) (part ++ q.events p i) ∨
    (∃ req, Whole p req (part ++ q.events p i)) ∧ Open p (q.next p i) []

/-- The native answers of a state that has none. -/
theorem events_pending (idle : q.bridge.state ≠ .S_IDLE) (rd : (q.rsp p i).rvalid = false)
    (wr : (q.rsp p i).bvalid = false) : q.events p i = q.slaveEvents p i := by
  have : (q.rsp p i).wready = false := by simpa [PeriQ.rsp, BridgeQ.rsp] using idle
  simp [PeriQ.events, this, rd, wr]

theorem events_accept (idle : q.bridge.state = .S_IDLE) (valid : i.req.wvalid = true) :
    q.events p i = .accept i.req :: q.slaveEvents p i := by
  simp [PeriQ.events, PeriQ.rsp, BridgeQ.rsp, idle, valid]

theorem holds_next (idle : q.bridge.state = .S_IDLE) (valid : i.req.wvalid = true) :
    (q.next p i).bridge.Holds i.req := by
  constructor <;> simp [PeriQ.next, BridgeQ.next, BridgeQ.accept, idle, valid]

theorem BridgeQ.Holds.next (latch : q.bridge.Holds req) (idle : q.bridge.state ≠ .S_IDLE) :
    (q.next p i).bridge.Holds req := by
  have : q.bridge.accept i.req = false := by simp [BridgeQ.accept, idle]
  constructor <;> simp [PeriQ.next, BridgeQ.next, this, latch.addr, latch.wdata, latch.wstrb]

/-- The request is on the read address channel, for the first time or again. -/
theorem read_moves (clean : q.xbar.Clean) (latch : (q.next p i).bridge.Holds req) (re : req.we = false)
    (axi : q.bridge.axi i.req = { araddr := req.addr, arvalid := true, bready := true })
    (state : (q.next p i).bridge.state = if (q.xcyc p i).arHs then .S_RD_WAIT else .S_RD_ADDR) {part : List BusEvent}
    (events : part ++ q.events p i = .accept req :: q.slaveEvents p i) : Moves p q i part := by
  left
  rw [events]
  by_cases hit : p.decode req.addr = 3#2
  · obtain ⟨hev, har, hx⟩ := read_miss clean axi hit
    rw [hev]
    refine .rdError (by rw [state, har]; rfl) re ?_ hit
    rw [hx]
  · obtain ⟨hev, hx⟩ := read_phase clean axi hit
    rw [hev]
    cases har : (q.xcyc p i).arHs with
    | true =>
      refine .rdWait (by rw [state, har]; rfl) re ?_ hit
      rw [hx, har]
      rfl
    | false =>
      refine .rdAddr (by rw [state, har]; rfl) ?_ latch re hit
      rw [hx, har]
      exact clean

/-- The request is on both write channels, for the first time or again. -/
theorem write_moves (clean : q.xbar.Clean) (latch : (q.next p i).bridge.Holds req) (we : req.we = true)
    (axi : q.bridge.axi i.req = { awaddr := req.addr, awvalid := true, wdata := req.wdata, wstrb := req.wstrb,
                                  wvalid := true, bready := true })
    (state : (q.next p i).bridge.state = q.bridge.writeLaunch i.req (q.xcyc p i).sAxi) {part : List BusEvent}
    (events : part ++ q.events p i = .accept req :: q.slaveEvents p i) : Moves p q i part := by
  left
  rw [events]
  rw [BridgeQ.writeLaunch, (hs_eq p q i).1] at state
  by_cases hit : p.decode req.addr = 3#2
  · obtain ⟨hev, haw, hw, hx⟩ := write_miss clean axi hit
    rw [hev]
    refine .wrError (by rw [state, haw, hw]; rfl) we ?_ hit
    rw [hx]
  · obtain ⟨hev, hx⟩ := write_phase clean axi hit
    rw [hev]
    cases haw : (q.xcyc p i).awHs <;> cases hw : q.bridge.wHs i.req (q.xcyc p i).sAxi <;>
      simp only [haw, hw, Bool.and_self, Bool.and_false, Bool.false_and, Bool.false_eq_true, if_false, if_true]
        at state hx ⊢
    · exact .wrBoth state (by rw [hx]; exact clean) latch we hit
    · exact .wrData state (by rw [hx]; exact clean) latch we hit
    · exact .wrAddr state latch we (by rw [hx]) hit
    · exact .wrWait state we (by rw [hx]) hit (.inl rfl)

/-- A read waits for its answer from a slave, -/
theorem readWait_moves (state : q.bridge.state = .S_RD_WAIT) (re : req.we = false)
    (sel : q.xbar = { XbarQ.reset with wrSel := q.xbar.wrSel, rdBusy := true, rdSel := p.decode req.addr })
    (hit : p.decode req.addr ≠ 3#2) : Moves p q i [.accept req, .ar (p.decode req.addr) req.addr] := by
  obtain ⟨hev, hx⟩ := readWait_phase (p := p) (i := i) sel (by simp [BridgeQ.axi, state]) hit
  cases hr : (q.xcyc p i).rHs with
  | false =>
    left
    have hnil : q.events p i = [] := by
      rw [events_pending (by simp [state]) (by simp [PeriQ.rsp, BridgeQ.rsp, hs_eq, hr])
        (by simp [PeriQ.rsp, BridgeQ.rsp, state]), hev, hr]
      rfl
    rw [hnil, List.append_nil]
    refine .rdWait (by simp [PeriQ.next, BridgeQ.next, BridgeQ.stateD, state, hs_eq, hr]) re ?_ hit
    rw [hx, hr, if_neg (by simp)]
    exact sel
  | true =>
    right
    refine ⟨⟨req, ?_⟩, ?_⟩
    · have hrsp : q.events p i =
          [.r (p.decode req.addr) (q.xcyc p i).sAxi.rdata,
           .rvalid (q.xcyc p i).sAxi.rdata (q.xcyc p i).sAxi.rresp] := by
        simp [PeriQ.events, hev, PeriQ.rsp, BridgeQ.rsp, hs_eq, hr, state]
      rw [hrsp]
      exact .read re (p.decode_hits hit)
    · refine .idle (by simp [PeriQ.next, BridgeQ.next, BridgeQ.stateD, state, hs_eq, hr]) ?_
      rw [hx, hr]
      exact XbarQ.clean_reset _ _

/-- or from the crossbar. -/
theorem readError_moves (state : q.bridge.state = .S_RD_WAIT) (re : req.we = false)
    (sel : q.xbar = { XbarQ.reset with wrSel := q.xbar.wrSel, rdBusy := true, rdSel := 3, errRvalid := true })
    (miss : p.decode req.addr = 3#2) : Moves p q i [.accept req] := by
  obtain ⟨hev, hr, hd, hc, hx⟩ := readError_phase (p := p) (i := i) sel (by simp [BridgeQ.axi, state])
  cases hrr : i.req.rready with
  | false =>
    left
    rw [hrr] at hr
    have hnil : q.events p i = [] := by
      rw [events_pending (by simp [state]) (by simp [PeriQ.rsp, BridgeQ.rsp, hs_eq, hr])
        (by simp [PeriQ.rsp, BridgeQ.rsp, state]), hev]
    rw [hnil, List.append_nil]
    refine .rdError (by simp [PeriQ.next, BridgeQ.next, BridgeQ.stateD, state, hs_eq, hr]) re ?_ miss
    rw [hx, hr, if_neg (by simp)]
    exact sel
  | true =>
    right
    rw [hrr] at hr
    refine ⟨⟨req, ?_⟩, ?_⟩
    · have hrsp : q.events p i = [.rvalid 0 RESP_DECERR] := by
        simp [PeriQ.events, hev, PeriQ.rsp, BridgeQ.rsp, hs_eq, hr, state, hd, hc]
      rw [hrsp]
      exact .readNone re (p.decode_none miss)
    · refine .idle (by simp [PeriQ.next, BridgeQ.next, BridgeQ.stateD, state, hs_eq, hr]) ?_
      rw [hx, hr]
      exact XbarQ.clean_reset _ _

/-- A write whose address was taken first, as long as the slave does not answer without its data. -/
theorem writeAddr_moves (state : q.bridge.state = .S_WR_ADDR) (latch : q.bridge.Holds req) (we : req.we = true)
    (sel : q.xbar = { XbarQ.reset with rdSel := q.xbar.rdSel, wrBusy := true, wrSel := p.decode req.addr })
    (hit : p.decode req.addr ≠ 3#2) (early : ((q.xcyc p i).slave (p.decode req.addr)).bvalid = false) :
    Moves p q i [.accept req, .aw (p.decode req.addr) req.addr] := by
  left
  have haxi : q.bridge.axi i.req = { wdata := req.wdata, wstrb := req.wstrb, wvalid := true, bready := true } := by
    simp [BridgeQ.axi, state, latch.wdata, latch.wstrb]
  obtain ⟨hev, hx⟩ := wrAddr_phase (p := p) (i := i) sel haxi hit early
  have hnext : (q.next p i).bridge.state =
      if q.bridge.wHs i.req (q.xcyc p i).sAxi then .S_WR_WAIT else .S_WR_ADDR := by
    simp [PeriQ.next, BridgeQ.next, BridgeQ.stateD, state]
  rw [events_pending (by simp [state]) (by simp [PeriQ.rsp, BridgeQ.rsp, state])
    (by simp [PeriQ.rsp, BridgeQ.rsp, state]), hev]
  cases hw : q.bridge.wHs i.req (q.xcyc p i).sAxi with
  | true =>
    refine .wrWait (by rw [hnext, hw]; rfl) we ?_ hit (.inl rfl)
    rw [hx]
    exact sel
  | false =>
    refine .wrAddr (by rw [hnext, hw]; rfl) (latch.next (by simp [state])) we ?_ hit
    rw [hx]
    exact sel

/-- A write whose data were taken first. -/
theorem writeData_moves (state : q.bridge.state = .S_WR_DATA) (clean : q.xbar.Clean) (latch : q.bridge.Holds req)
    (we : req.we = true) (hit : p.decode req.addr ≠ 3#2) :
    Moves p q i [.accept req, .w (p.decode req.addr) req.wdata req.wstrb] := by
  left
  obtain ⟨hev, hx⟩ := wrData_phase (p := p) (i := i) clean (by simp [BridgeQ.axi, state, latch.addr]) hit
  have hnext : (q.next p i).bridge.state = if (q.xcyc p i).awHs then .S_WR_WAIT else .S_WR_DATA := by
    simp [PeriQ.next, BridgeQ.next, BridgeQ.stateD, state, hs_eq]
  rw [events_pending (by simp [state]) (by simp [PeriQ.rsp, BridgeQ.rsp, state])
    (by simp [PeriQ.rsp, BridgeQ.rsp, state]), hev]
  cases haw : (q.xcyc p i).awHs with
  | true =>
    refine .wrWait (by rw [hnext, haw]; rfl) we ?_ hit (.inr rfl)
    rw [hx, haw]
    rfl
  | false =>
    refine .wrData (by rw [hnext, haw]; rfl) ?_ (latch.next (by simp [state])) we hit
    rw [hx, haw]
    exact clean

/-- A write waits for its response from a slave, -/
theorem writeWait_moves (state : q.bridge.state = .S_WR_WAIT) (we : req.we = true)
    (sel : q.xbar = { XbarQ.reset with rdSel := q.xbar.rdSel, wrBusy := true, wrSel := p.decode req.addr })
    (hit : p.decode req.addr ≠ 3#2) {seen : List BusEvent}
    (both : seen = [.aw (p.decode req.addr) req.addr, .w (p.decode req.addr) req.wdata req.wstrb] ∨
      seen = [.w (p.decode req.addr) req.wdata req.wstrb, .aw (p.decode req.addr) req.addr]) :
    Moves p q i (.accept req :: seen) := by
  obtain ⟨hev, hx⟩ := wrWait_phase (p := p) (i := i) sel (by simp [BridgeQ.axi, state]) hit
  have hnext : (q.next p i).bridge.state = if (q.xcyc p i).bHs then .S_IDLE else .S_WR_WAIT := by
    simp [PeriQ.next, BridgeQ.next, BridgeQ.stateD, state, hs_eq]
  cases hb : (q.xcyc p i).bHs with
  | false =>
    left
    have hnil : q.events p i = [] := by
      rw [events_pending (by simp [state]) (by simp [PeriQ.rsp, BridgeQ.rsp, state])
        (by simp [PeriQ.rsp, BridgeQ.rsp, hs_eq, hb]), hev, hb]
      rfl
    rw [hnil, List.append_nil]
    refine .wrWait (by rw [hnext, hb]; rfl) we ?_ hit both
    rw [hx, hb, if_neg (by simp)]
    exact sel
  | true =>
    right
    have hrsp : q.events p i = [.b (p.decode req.addr), .bvalid (q.xcyc p i).sAxi.bresp] := by
      simp [PeriQ.events, hev, PeriQ.rsp, BridgeQ.rsp, hs_eq, hb, state]
    refine ⟨⟨req, ?_⟩, ?_⟩
    · rw [hrsp]
      rcases both with h | h <;> rw [h]
      · exact .awFirst we (p.decode_hits hit)
      · exact .wFirst we (p.decode_hits hit)
    · refine .idle (by rw [hnext, hb]; rfl) ?_
      rw [hx, hb]
      exact XbarQ.clean_reset _ _

/-- or from the crossbar. -/
theorem writeError_moves (state : q.bridge.state = .S_WR_WAIT) (we : req.we = true)
    (sel : q.xbar = { XbarQ.reset with rdSel := q.xbar.rdSel, wrBusy := true, wrSel := 3, errBvalid := true })
    (miss : p.decode req.addr = 3#2) : Moves p q i [.accept req] := by
  obtain ⟨hev, hb, hc, hx⟩ := wrError_phase (p := p) (i := i) sel (by simp [BridgeQ.axi, state])
  right
  refine ⟨⟨req, ?_⟩, ?_⟩
  · have hrsp : q.events p i = [.bvalid RESP_DECERR] := by
      simp [PeriQ.events, hev, PeriQ.rsp, BridgeQ.rsp, hs_eq, hb, state, hc]
    rw [hrsp]
    exact .writeNone we (p.decode_none miss)
  · refine .idle (by simp [PeriQ.next, BridgeQ.next, BridgeQ.stateD, state, hs_eq, hb]) ?_
    rw [hx]
    exact XbarQ.clean_reset _ _

/-- Every edge moves the open transaction along, as long as a slave that still waits for
write data does not answer. -/
theorem Open.moves {part : List BusEvent} (opn : Open p q part)
    (early : ∀ req k a, part = [.accept req, .aw k a] → ((q.xcyc p i).slave k).bvalid = false) :
    Moves p q i part := by
  cases opn with
  | idle state clean =>
    cases hv : i.req.wvalid with
    | false =>
      left
      obtain ⟨hev, hx⟩ := quiet_phase (p := p) (i := i) clean (by simp [BridgeQ.axi, state, hv])
      have : q.events p i = [] := by simp [PeriQ.events, PeriQ.rsp, BridgeQ.rsp, state, hv, hev]
      rw [this]
      exact .idle (by simp [PeriQ.next, BridgeQ.next, BridgeQ.stateD, state, hv]) hx
    | true =>
      cases hw : i.req.we with
      | false =>
        refine read_moves clean (holds_next state hv) hw (by simp [BridgeQ.axi, state, hv, hw]) ?_
          (by rw [events_accept state hv]; rfl)
        simp [PeriQ.next, BridgeQ.next, BridgeQ.stateD, state, hv, hw, hs_eq]
      | true =>
        refine write_moves clean (holds_next state hv) hw (by simp [BridgeQ.axi, state, hv, hw]) ?_
          (by rw [events_accept state hv]; rfl)
        simp [PeriQ.next, BridgeQ.next, BridgeQ.stateD, state, hv, hw]
  | @rdAddr req state clean latch re hit =>
    have hidle : q.bridge.state ≠ .S_IDLE := by simp [state]
    refine read_moves clean (latch.next hidle) re (by simp [BridgeQ.axi, state, latch.addr]) ?_ ?_
    · simp [PeriQ.next, BridgeQ.next, BridgeQ.stateD, state, hs_eq]
    · rw [events_pending hidle (by simp [PeriQ.rsp, BridgeQ.rsp, state]) (by simp [PeriQ.rsp, BridgeQ.rsp, state])]
      rfl
  | rdWait state re sel hit => exact readWait_moves state re sel hit
  | rdError state re sel miss => exact readError_moves state re sel miss
  | @wrBoth req state clean latch we hit =>
    have hidle : q.bridge.state ≠ .S_IDLE := by simp [state]
    refine write_moves clean (latch.next hidle) we
      (by simp [BridgeQ.axi, state, latch.addr, latch.wdata, latch.wstrb]) ?_ ?_
    · simp [PeriQ.next, BridgeQ.next, BridgeQ.stateD, state]
    · rw [events_pending hidle (by simp [PeriQ.rsp, BridgeQ.rsp, state]) (by simp [PeriQ.rsp, BridgeQ.rsp, state])]
      rfl
  | wrAddr state latch we sel hit => exact writeAddr_moves state latch we sel hit (early _ _ _ rfl)
  | wrData state clean latch we hit => exact writeData_moves state clean latch we hit
  | wrWait state we sel hit both => exact writeWait_moves state we sel hit both
  | wrError state we sel miss => exact writeError_moves state we sel miss

/-! ## What the slaves see -/

/-- The request of an open transaction, whose first event is its acceptance. -/
structure Targets (p : XbarParams) (m : AxiM) (k : BitVec 2) (seen : List BusEvent) : Prop where
  request : ∃ req, seen.head? = some (.accept req) ∧ p.Hits k req.addr ∧
    (m.awvalid = true → req.we = true ∧ m.awaddr = req.addr) ∧
    (m.wvalid = true → req.we = true ∧ m.wdata = req.wdata ∧ m.wstrb = req.wstrb) ∧
    (m.arvalid = true → req.we = false ∧ m.araddr = req.addr)

theorem targets_of {part : List BusEvent} {k : BitVec 2} (hk : k ≠ 3#2) (sel : p.decode req.addr = k)
    (head : (part ++ q.events p i).head? = some (.accept req))
    (aw : ((q.xcyc p i).mAxi k).awvalid = true → req.we = true ∧ ((q.xcyc p i).mAxi k).awaddr = req.addr)
    (w : ((q.xcyc p i).mAxi k).wvalid = true →
      req.we = true ∧ ((q.xcyc p i).mAxi k).wdata = req.wdata ∧ ((q.xcyc p i).mAxi k).wstrb = req.wstrb)
    (ar : ((q.xcyc p i).mAxi k).arvalid = true → req.we = false ∧ ((q.xcyc p i).mAxi k).araddr = req.addr) :
    Targets p ((q.xcyc p i).mAxi k) k (part ++ q.events p i) :=
  ⟨req, head, sel ▸ p.decode_hits (sel ▸ hk), aw, w, ar⟩

/-- A valid at a slave port belongs to the open transaction, whose address is in that slave's window. -/
theorem Open.targets {part : List BusEvent} (opn : Open p q part) {k : BitVec 2} (hk : k ≠ 3#2)
    (valid : (((q.xcyc p i).mAxi k).awvalid || ((q.xcyc p i).mAxi k).wvalid ||
      ((q.xcyc p i).mAxi k).arvalid) = true) :
    Targets p ((q.xcyc p i).mAxi k) k (part ++ q.events p i) := by
  have hs : (q.xcyc p i).s = q.bridge.axi i.req := rfl
  have hx : (q.xcyc p i).q = q.xbar := rfl
  have hp : (q.xcyc p i).p = p := rfl
  cases opn with
  | idle state clean =>
    cases hv : i.req.wvalid with
    | false => simp [XbarCyc.mAxi, hs, BridgeQ.axi, state, hv] at valid
    | true =>
      have head : ([] ++ q.events p i).head? = some (.accept i.req) := by rw [events_accept state hv]; rfl
      cases hw : i.req.we with
      | false =>
        simp [XbarCyc.mAxi, hs, hx, hp, BridgeQ.axi, state, hv, hw, XbarCyc.rdSelLive] at valid
        refine targets_of hk valid.2 head ?_ ?_ ?_ <;> simp [XbarCyc.mAxi, hs, BridgeQ.axi, state, hv, hw]
      | true =>
        simp [XbarCyc.mAxi, hs, hx, hp, BridgeQ.axi, state, hv, hw, XbarCyc.wrSelEff, XbarCyc.wrSelLive,
          clean.wrBusy] at valid
        refine targets_of hk valid head ?_ ?_ ?_ <;> simp [XbarCyc.mAxi, hs, BridgeQ.axi, state, hv, hw]
  | @rdAddr req state clean latch re hit =>
    simp [XbarCyc.mAxi, hs, hx, hp, BridgeQ.axi, state, XbarCyc.rdSelLive, latch.addr] at valid
    refine targets_of hk valid.2 rfl ?_ ?_ ?_ <;> simp [XbarCyc.mAxi, hs, BridgeQ.axi, state, latch.addr, re]
  | rdWait state => simp [XbarCyc.mAxi, hs, BridgeQ.axi, state] at valid
  | rdError state => simp [XbarCyc.mAxi, hs, BridgeQ.axi, state] at valid
  | @wrBoth req state clean latch we hit =>
    simp [XbarCyc.mAxi, hs, hx, hp, BridgeQ.axi, state, XbarCyc.wrSelEff, XbarCyc.wrSelLive, clean.wrBusy,
      latch.addr] at valid
    refine targets_of hk valid rfl ?_ ?_ ?_ <;>
      simp [XbarCyc.mAxi, hs, BridgeQ.axi, state, latch.addr, latch.wdata, latch.wstrb, we]
  | @wrAddr req state latch we sel hit =>
    have hbusy : q.xbar.wrBusy = true ∧ q.xbar.wrSel = p.decode req.addr := by rw [sel]; exact ⟨rfl, rfl⟩
    simp [XbarCyc.mAxi, hs, hx, BridgeQ.axi, state, XbarCyc.wrSelEff, hbusy] at valid
    refine targets_of hk valid rfl ?_ ?_ ?_ <;>
      simp [XbarCyc.mAxi, hs, BridgeQ.axi, state, latch.wdata, latch.wstrb, we]
  | @wrData req state clean latch we hit =>
    simp [XbarCyc.mAxi, hs, hx, hp, BridgeQ.axi, state, XbarCyc.wrSelLive, clean.wrBusy, latch.addr] at valid
    refine targets_of hk valid rfl ?_ ?_ ?_ <;> simp [XbarCyc.mAxi, hs, BridgeQ.axi, state, latch.addr, we]
  | wrWait state => simp [XbarCyc.mAxi, hs, BridgeQ.axi, state] at valid
  | wrError state => simp [XbarCyc.mAxi, hs, BridgeQ.axi, state] at valid

end Phases

end YarvUc
