import YarvUc.Bus.Transactions

/-!
# The peripheral bus over whole runs

Every run of the bridge and the crossbar, against slaves that keep the one rule of
AXI the crossbar relies on (no write answer before the write data), observes whole
transactions one after another. Against slaves that stall no channel for ever, each
of them ends.
-/

namespace YarvUc

/-- What slave port `k` drives. -/
def PeriIn.slave (i : PeriIn) (k : BitVec 2) : AxiS :=
  if k = 0 then i.m0 else if k = 1 then i.m1 else if k = 2 then i.m2 else {}

namespace BusEvent

def isAw (k : BitVec 2) : BusEvent → Bool
  | .aw j _ => j == k
  | _ => false

def isW (k : BitVec 2) : BusEvent → Bool
  | .w j _ _ => j == k
  | _ => false

def isAr (k : BitVec 2) : BusEvent → Bool
  | .ar j _ => j == k
  | _ => false

def isB (k : BitVec 2) : BusEvent → Bool
  | .b j => j == k
  | _ => false

def isR (k : BitVec 2) : BusEvent → Bool
  | .r j _ => j == k
  | _ => false

end BusEvent

open BusEvent

/-- The handshakes of one slave port balance: as many answers as requests. -/
structure Balanced (k : BitVec 2) (t : List BusEvent) : Prop where
  aw : t.countP (isAw k) = t.countP (isB k)
  w : t.countP (isW k) = t.countP (isB k)
  ar : t.countP (isAr k) = t.countP (isR k)

theorem Whole.balanced {p : XbarParams} {req : MemReq} {t : List BusEvent} (h : Whole p req t) (k : BitVec 2) :
    Balanced k t := by
  cases h <;> constructor <;> simp [List.countP_cons, isAw, isW, isAr, isB, isR]

theorem balanced_flatten {k : BitVec 2} {ts : List (List BusEvent)} (h : ∀ t ∈ ts, Balanced k t) :
    Balanced k ts.flatten := by
  induction ts with
  | nil => constructor <;> rfl
  | cons t ts ih =>
    have ht := h t (by simp)
    have hts := ih fun u hu => h u (by simp [hu])
    constructor <;>
      simp only [List.flatten_cons, List.countP_append, ht.aw, ht.w, ht.ar, hts.aw, hts.w, hts.ar]

/-! ## One transaction after another -/

namespace PeriQ

/-- The state and the log of whole transactions and one open one. -/
def Sequenced (p : XbarParams) (q : PeriQ) (log : List BusEvent) : Prop :=
  Clocked.Episodes (fun t => ∃ req, Whole p req t) (Open p q) log

/-- A slave answers a write after it has the data. -/
def NotEarly (i : PeriIn) (log : List BusEvent) : Prop :=
  ∀ k, k ≠ 3#2 → (i.slave k).bvalid = true → log.countP (isB k) < log.countP (isW k)

variable {p : XbarParams} {q : PeriQ} {i : PeriIn} {req : MemReq}

theorem xcyc_slave (k : BitVec 2) : (q.xcyc p i).slave k = i.slave k := rfl

theorem done_balanced {done : List (List BusEvent)} (whole : ∀ t ∈ done, ∃ req, Whole p req t) (k : BitVec 2) :
    Balanced k done.flatten :=
  balanced_flatten fun t ht => (whole t ht).elim fun _ h => h.balanced k

/-- After whole transactions and an address alone, no slave may answer. -/
theorem NotEarly.addr {done : List (List BusEvent)} {k : BitVec 2} {a : Word} (hk : k ≠ 3#2)
    (whole : ∀ t ∈ done, ∃ req, Whole p req t) (rule : NotEarly i (done.flatten ++ [.accept req, .aw k a])) :
    (i.slave k).bvalid = false := by
  have balance := (done_balanced whole k).w
  by_contra h
  have := rule k hk (by simpa using h)
  simp [List.countP_append, isB, isW, balance] at this

theorem Open.hit {part : List BusEvent} (opn : Open p q part) {k : BitVec 2} {a : Word}
    (h : part = [.accept req, .aw k a]) : k ≠ 3#2 := by
  cases opn with
  | wrAddr _ _ _ _ hit => simp only [List.cons.injEq, BusEvent.aw.injEq] at h; exact h.2.1.1 ▸ hit
  | wrWait _ _ _ _ both => rcases both with h' | h' <;> subst h' <;> simp at h
  | _ => simp at h

theorem Sequenced.step {log : List BusEvent} (seq : Sequenced p q log) (rule : NotEarly i log) :
    Sequenced p (q.next p i) (log ++ q.events p i) := by
  refine Clocked.Episodes.step seq fun done part hlog whole opn => ?_
  have early : ∀ req k a, part = [.accept req, .aw k a] → ((q.xcyc p i).slave k).bvalid = false := by
    intro req k a h
    have hk := Open.hit opn h
    subst h
    subst hlog
    rw [xcyc_slave]
    exact NotEarly.addr hk whole rule
  rcases opn.moves early with more | ⟨ends, idle⟩
  · exact .inl more
  · exact .inr ⟨_, [], (List.append_nil _).symm, ends, idle⟩

variable {s : PeriQ} {ins : ℕ → PeriIn}

/-- After reset: an idle bridge and an empty crossbar. -/
def Reset (q : PeriQ) : Prop := q.bridge.state = .S_IDLE ∧ q.xbar = .reset

theorem Reset.sequenced (h : Reset q) : Sequenced p q [] :=
  Clocked.Episodes.nil (.idle h.1 (h.2 ▸ XbarQ.clean_reset 0 0))

/-- The slaves keep their rule all along. -/
def NeverEarly (p : XbarParams) (s : PeriQ) (ins : ℕ → PeriIn) : Prop :=
  ∀ n, NotEarly (ins n) (Clocked.log (next p) (events p) s ins n)

theorem sequenced_run (reset : Reset s) (rule : NeverEarly p s ins) (n : ℕ) :
    Sequenced p (Clocked.run (next p) s ins n) (Clocked.log (next p) (events p) s ins n) := by
  induction n with
  | zero => exact reset.sequenced
  | succ n ih => exact ih.step (rule n)

/-! ## A valid stays until it is taken -/

end PeriQ

namespace BridgeQ

variable {q : BridgeQ} {req : MemReq} {s : AxiS}

theorem aw_stays (valid : (q.axi req).awvalid = true) (wait : q.awHs req s = false) (req' : MemReq) :
    ((q.next req s).axi req').awvalid = true ∧ ((q.next req s).axi req').awaddr = (q.axi req).awaddr := by
  cases state : q.state <;> simp [axi, state] at valid
  · cases hv : req.wvalid <;> simp [hv] at valid
    cases we : req.we <;> simp [we] at valid
    cases hw : q.wHs req s <;>
      simp [axi, next, stateD, writeLaunch, accept, state, hv, we, wait, hw]
  · cases hw : q.wHs req s <;> simp [axi, next, stateD, writeLaunch, accept, state, wait, hw]
  · simp [axi, next, stateD, accept, state, wait]

theorem w_stays (valid : (q.axi req).wvalid = true) (wait : q.wHs req s = false) (req' : MemReq) :
    ((q.next req s).axi req').wvalid = true ∧ ((q.next req s).axi req').wdata = (q.axi req).wdata ∧
      ((q.next req s).axi req').wstrb = (q.axi req).wstrb := by
  cases state : q.state <;> simp [axi, state] at valid
  · cases hv : req.wvalid <;> simp [hv] at valid
    cases we : req.we <;> simp [we] at valid
    cases ha : q.awHs req s <;>
      simp [axi, next, stateD, writeLaunch, accept, state, hv, we, wait, ha]
  · cases ha : q.awHs req s <;> simp [axi, next, stateD, writeLaunch, accept, state, wait, ha]
  · simp [axi, next, stateD, accept, state, wait]

theorem ar_stays (valid : (q.axi req).arvalid = true) (wait : q.arHs req s = false) (req' : MemReq) :
    ((q.next req s).axi req').arvalid = true ∧ ((q.next req s).axi req').araddr = (q.axi req).araddr := by
  cases state : q.state <;> simp [axi, state] at valid
  · cases hv : req.wvalid <;> simp [hv] at valid
    cases we : req.we <;> simp [we] at valid
    simp [axi, next, stateD, accept, state, hv, we, wait]
  · simp [axi, next, stateD, accept, state, wait]

end BridgeQ

namespace PeriQ

variable {p : XbarParams} {q : PeriQ} {i : PeriIn} {req : MemReq}

theorem aw_stays {k : BitVec 2} (hk : k ≠ 3#2) (valid : ((q.xcyc p i).mAxi k).awvalid = true)
    (wait : (i.slave k).awready = false) (i' : PeriIn) :
    (((q.next p i).xcyc p i').mAxi k).awvalid = true ∧
      (((q.next p i).xcyc p i').mAxi k).awaddr = ((q.xcyc p i).mAxi k).awaddr := by
  have hs : (q.xcyc p i).s = q.bridge.axi i.req := rfl
  have hx : (q.xcyc p i).q = q.xbar := rfl
  have hp : (q.xcyc p i).p = p := rfl
  obtain ⟨⟨free, drive⟩, live⟩ : (q.xbar.wrBusy = false ∧ (q.bridge.axi i.req).awvalid = true) ∧
      p.decode (q.bridge.axi i.req).awaddr = k := by
    simpa [XbarCyc.mAxi, hs, hx, hp, XbarCyc.wrSelLive] using valid
  have haw : (q.xcyc p i).awHs = false := by
    simp [XbarCyc.awHs, XbarCyc.sAxi, XbarCyc.wrSelLive, hs, hp, live, hk, xcyc_slave, wait]
  have hfree : (q.next p i).xbar.wrBusy = false := by
    simp [PeriQ.next, XbarCyc.next, haw, hx, free]
  obtain ⟨drive', addr⟩ :=
    BridgeQ.aw_stays (s := (q.xcyc p i).sAxi) drive ((hs_eq p q i).1.trans haw) i'.req
  have hs' : ((q.next p i).xcyc p i').s = (q.next p i).bridge.axi i'.req := rfl
  have hx' : ((q.next p i).xcyc p i').q = (q.next p i).xbar := rfl
  have hp' : ((q.next p i).xcyc p i').p = p := rfl
  have hb : (q.next p i).bridge = q.bridge.next i.req (q.xcyc p i).sAxi := rfl
  rw [← hb] at drive' addr
  simp [XbarCyc.mAxi, XbarCyc.wrSelLive, hs', hx', hp', hfree, drive', addr, live, hs]

theorem ar_stays {k : BitVec 2} (hk : k ≠ 3#2) (valid : ((q.xcyc p i).mAxi k).arvalid = true)
    (wait : (i.slave k).arready = false) (i' : PeriIn) :
    (((q.next p i).xcyc p i').mAxi k).arvalid = true ∧
      (((q.next p i).xcyc p i').mAxi k).araddr = ((q.xcyc p i).mAxi k).araddr := by
  have hs : (q.xcyc p i).s = q.bridge.axi i.req := rfl
  have hx : (q.xcyc p i).q = q.xbar := rfl
  have hp : (q.xcyc p i).p = p := rfl
  obtain ⟨⟨free, drive⟩, live⟩ : (q.xbar.rdBusy = false ∧ (q.bridge.axi i.req).arvalid = true) ∧
      p.decode (q.bridge.axi i.req).araddr = k := by
    simpa [XbarCyc.mAxi, hs, hx, hp, XbarCyc.rdSelLive] using valid
  have har : (q.xcyc p i).arHs = false := by
    simp [XbarCyc.arHs, XbarCyc.sAxi, XbarCyc.rdSelLive, hs, hp, live, hk, xcyc_slave, wait]
  have hfree : (q.next p i).xbar.rdBusy = false := by
    simp [PeriQ.next, XbarCyc.next, har, hx, free]
  obtain ⟨drive', addr⟩ :=
    BridgeQ.ar_stays (s := (q.xcyc p i).sAxi) drive ((hs_eq p q i).2.1.trans har) i'.req
  have hs' : ((q.next p i).xcyc p i').s = (q.next p i).bridge.axi i'.req := rfl
  have hx' : ((q.next p i).xcyc p i').q = (q.next p i).xbar := rfl
  have hp' : ((q.next p i).xcyc p i').p = p := rfl
  have hb : (q.next p i).bridge = q.bridge.next i.req (q.xcyc p i).sAxi := rfl
  rw [← hb] at drive' addr
  simp [XbarCyc.mAxi, XbarCyc.rdSelLive, hs', hx', hp', hfree, drive', addr, live, hs]

/-- With both channels driven, whether or not the address is taken first, the write select stays. -/
theorem write_sel (clean : q.xbar.Clean) (latch : (q.next p i).bridge.Holds req)
    (axi : q.bridge.axi i.req = { awaddr := req.addr, awvalid := true, wdata := req.wdata, wstrb := req.wstrb,
                                  wvalid := true, bready := true })
    (state : (q.next p i).bridge.state = q.bridge.writeLaunch i.req (q.xcyc p i).sAxi)
    (hit : p.decode req.addr ≠ 3#2) (wait : q.bridge.wHs i.req (q.xcyc p i).sAxi = false) (i' : PeriIn) :
    ((q.next p i).xcyc p i').wrSelEff = p.decode req.addr := by
  have hx := (write_phase clean axi hit).2
  have hx' : ((q.next p i).xcyc p i').q = (q.next p i).xbar := rfl
  have hs' : ((q.next p i).xcyc p i').s = (q.next p i).bridge.axi i'.req := rfl
  rw [BridgeQ.writeLaunch, (hs_eq p q i).1, wait] at state
  rw [XbarCyc.wrSelEff, XbarCyc.wrSelLive, hx', hs', hx]
  cases haw : (q.xcyc p i).awHs with
  | true => simp
  | false =>
    simp only [haw, Bool.false_and, Bool.false_eq_true, if_false] at state
    simp [clean.wrBusy, BridgeQ.axi, state, latch.addr, show ((q.next p i).xcyc p i').p = p from rfl]

/-- The write select does not move under a pending write data beat. -/
theorem wrSelEff_stays {k : BitVec 2} {part : List BusEvent} (opn : Open p q part) (hk : k ≠ 3#2)
    (valid : (q.bridge.axi i.req).wvalid = true) (sel : (q.xcyc p i).wrSelEff = k)
    (wait : q.bridge.wHs i.req (q.xcyc p i).sAxi = false)
    (early : ∀ req k a, part = [.accept req, .aw k a] → ((q.xcyc p i).slave k).bvalid = false) (i' : PeriIn) :
    ((q.next p i).xcyc p i').wrSelEff = k := by
  have hx : (q.xcyc p i).q = q.xbar := rfl
  have hs : (q.xcyc p i).s = q.bridge.axi i.req := rfl
  have hp : (q.xcyc p i).p = p := rfl
  cases opn with
  | idle state clean =>
    cases hv : i.req.wvalid <;> simp [BridgeQ.axi, state, hv] at valid
    cases we : i.req.we <;> simp [we] at valid
    have axi : q.bridge.axi i.req = { awaddr := i.req.addr, awvalid := true, wdata := i.req.wdata,
                                      wstrb := i.req.wstrb, wvalid := true, bready := true } := by
      simp [BridgeQ.axi, state, hv, we]
    have live : p.decode i.req.addr = k := by
      simpa [XbarCyc.wrSelEff, XbarCyc.wrSelLive, hx, hs, hp, axi, clean.wrBusy] using sel
    rw [write_sel clean (holds_next state hv) axi
      (by simp [PeriQ.next, BridgeQ.next, BridgeQ.stateD, state, hv, we]) (live ▸ hk) wait, live]
  | @wrBoth req state clean latch we hit =>
    have axi : q.bridge.axi i.req = { awaddr := req.addr, awvalid := true, wdata := req.wdata,
                                      wstrb := req.wstrb, wvalid := true, bready := true } := by
      simp [BridgeQ.axi, state, latch.addr, latch.wdata, latch.wstrb]
    have live : p.decode req.addr = k := by
      simpa [XbarCyc.wrSelEff, XbarCyc.wrSelLive, hx, hs, hp, axi, clean.wrBusy] using sel
    rw [write_sel clean (latch.next (by simp [state])) axi
      (by simp [PeriQ.next, BridgeQ.next, BridgeQ.stateD, state]) (live ▸ hk) wait, live]
  | @wrAddr req state latch we busy hit =>
    have axi : q.bridge.axi i.req = { wdata := req.wdata, wstrb := req.wstrb, wvalid := true, bready := true } := by
      simp [BridgeQ.axi, state, latch.wdata, latch.wstrb]
    have held := (wrAddr_phase (p := p) (i := i) busy axi hit (early req _ _ rfl)).2
    have hx' : ((q.next p i).xcyc p i').q = (q.next p i).xbar := rfl
    have hbusy : q.xbar.wrBusy = true := by rw [busy]
    rw [← sel]
    simp [XbarCyc.wrSelEff, hx', hx, held, hbusy]
  | rdAddr state => simp [BridgeQ.axi, state] at valid
  | rdWait state => simp [BridgeQ.axi, state] at valid
  | rdError state => simp [BridgeQ.axi, state] at valid
  | wrData state => simp [BridgeQ.axi, state] at valid
  | wrWait state => simp [BridgeQ.axi, state] at valid
  | wrError state => simp [BridgeQ.axi, state] at valid

theorem w_stays {k : BitVec 2} {part : List BusEvent} (opn : Open p q part) (hk : k ≠ 3#2)
    (valid : ((q.xcyc p i).mAxi k).wvalid = true) (wait : (i.slave k).wready = false)
    (early : ∀ req k a, part = [.accept req, .aw k a] → ((q.xcyc p i).slave k).bvalid = false) (i' : PeriIn) :
    (((q.next p i).xcyc p i').mAxi k).wvalid = true ∧
      (((q.next p i).xcyc p i').mAxi k).wdata = ((q.xcyc p i).mAxi k).wdata ∧
      (((q.next p i).xcyc p i').mAxi k).wstrb = ((q.xcyc p i).mAxi k).wstrb := by
  have hs : (q.xcyc p i).s = q.bridge.axi i.req := rfl
  obtain ⟨drive, sel⟩ : (q.bridge.axi i.req).wvalid = true ∧ (q.xcyc p i).wrSelEff = k := by
    simpa [XbarCyc.mAxi, hs] using valid
  have hw : q.bridge.wHs i.req (q.xcyc p i).sAxi = false := by
    simp [BridgeQ.wHs, XbarCyc.sAxi, sel, hk, xcyc_slave, wait]
  have stays := BridgeQ.w_stays drive hw i'.req
  have sel' := wrSelEff_stays opn hk drive sel hw early i'
  have hs' : ((q.next p i).xcyc p i').s = (q.bridge.next i.req (q.xcyc p i).sAxi).axi i'.req := rfl
  simpa [XbarCyc.mAxi, hs, hs', sel'] using stays

/-! ## What an idle cycle waits for -/

theorem slaveEvents_nil (nil : q.events p i = []) : q.slaveEvents p i = [] := by
  simp only [events, List.append_eq_nil_iff] at nil
  exact nil.1.1.2

theorem waits_ar (opn : Open p q [.accept req]) (re : req.we = false) (hit : p.decode req.addr ≠ 3#2)
    (nil : q.events p i = []) :
    ((q.xcyc p i).mAxi (p.decode req.addr)).arvalid = true ∧ (i.slave (p.decode req.addr)).arready = false := by
  have hs : (q.xcyc p i).s = q.bridge.axi i.req := rfl
  have hx : (q.xcyc p i).q = q.xbar := rfl
  have hp : (q.xcyc p i).p = p := rfl
  cases opn with
  | rdAddr state clean latch =>
    have axi : q.bridge.axi i.req = { araddr := req.addr, arvalid := true, bready := true } := by
      simp [BridgeQ.axi, state, latch.addr]
    have hev := (read_phase (p := p) (i := i) clean axi hit).1
    rw [slaveEvents_nil nil] at hev
    have har : (q.xcyc p i).arHs = false := by
      cases h : (q.xcyc p i).arHs <;> simp [h] at hev ⊢
    refine ⟨by simp [XbarCyc.mAxi, XbarCyc.rdSelLive, hs, hx, hp, axi, clean.rdBusy], ?_⟩
    simpa [XbarCyc.arHs, XbarCyc.sAxi, XbarCyc.rdSelLive, hs, hx, hp, axi, clean.rdBusy, hit, xcyc_slave] using har
  | rdError _ _ _ miss => exact absurd miss hit
  | wrBoth _ _ _ we => simp [re] at we
  | wrError _ we => simp [re] at we
  | wrWait _ _ _ _ both => rcases both with h | h <;> simp at h

theorem waits_master (opn : Open p q [.accept req]) (re : req.we = false) (miss : p.decode req.addr = 3#2)
    (nil : q.events p i = []) : i.req.rready = false := by
  cases opn with
  | rdAddr _ _ _ _ hit => exact absurd miss hit
  | rdError state _ busy =>
    have hr := (readError_phase (p := p) (i := i) busy (by simp [BridgeQ.axi, state])).2.1
    by_contra h
    have : (q.rsp p i).rvalid = true := by
      simpa [PeriQ.rsp, BridgeQ.rsp, state, hs_eq, hr] using h
    simp [events, this] at nil
  | wrBoth _ _ _ we => simp [re] at we
  | wrError _ we => simp [re] at we
  | wrWait _ _ _ _ both => rcases both with h | h <;> simp at h

theorem waits_aw (opn : Open p q [.accept req]) (we : req.we = true) (hit : p.decode req.addr ≠ 3#2)
    (nil : q.events p i = []) :
    ((q.xcyc p i).mAxi (p.decode req.addr)).awvalid = true ∧ (i.slave (p.decode req.addr)).awready = false := by
  have hs : (q.xcyc p i).s = q.bridge.axi i.req := rfl
  have hx : (q.xcyc p i).q = q.xbar := rfl
  have hp : (q.xcyc p i).p = p := rfl
  cases opn with
  | wrBoth state clean latch =>
    have axi : q.bridge.axi i.req = { awaddr := req.addr, awvalid := true, wdata := req.wdata, wstrb := req.wstrb,
                                      wvalid := true, bready := true } := by
      simp [BridgeQ.axi, state, latch.addr, latch.wdata, latch.wstrb]
    have hev := (write_phase (p := p) (i := i) clean axi hit).1
    rw [slaveEvents_nil nil] at hev
    have haw : (q.xcyc p i).awHs = false := by
      cases h : (q.xcyc p i).awHs <;> simp [h] at hev ⊢
    refine ⟨by simp [XbarCyc.mAxi, XbarCyc.wrSelLive, hs, hx, hp, axi, clean.wrBusy], ?_⟩
    simpa [XbarCyc.awHs, XbarCyc.sAxi, XbarCyc.wrSelLive, hs, hx, hp, axi, clean.wrBusy, hit, xcyc_slave] using haw
  | wrError _ _ _ miss => exact absurd miss hit
  | rdAddr _ _ _ re => simp [we] at re
  | rdError _ re => simp [we] at re
  | wrWait _ _ _ _ both => rcases both with h | h <;> simp at h

theorem write_miss_answers (opn : Open p q [.accept req]) (we : req.we = true) (miss : p.decode req.addr = 3#2) :
    q.events p i ≠ [] := by
  cases opn with
  | wrBoth _ _ _ _ hit => exact absurd miss hit
  | wrError state _ busy =>
    have hb := (wrError_phase (p := p) (i := i) busy (by simp [BridgeQ.axi, state])).2.1
    have : (q.rsp p i).bvalid = true := by simp [PeriQ.rsp, BridgeQ.rsp, state, hs_eq, hb]
    simp [events, this]
  | rdAddr _ _ _ re => simp [we] at re
  | rdError _ re => simp [we] at re
  | wrWait _ _ _ _ both => rcases both with h | h <;> simp at h

theorem waits_r {k : BitVec 2} {a : Word} (opn : Open p q [.accept req, .ar k a]) (nil : q.events p i = []) :
    k ≠ 3#2 ∧ ((q.xcyc p i).mAxi k).rready = i.req.rready ∧ ((i.slave k).rvalid && i.req.rready) = false := by
  have hs : (q.xcyc p i).s = q.bridge.axi i.req := rfl
  have hx : (q.xcyc p i).q = q.xbar := rfl
  cases opn with
  | rdWait state re busy hit =>
    have axi : q.bridge.axi i.req = { rready := i.req.rready, bready := true } := by simp [BridgeQ.axi, state]
    have hev := (readWait_phase (p := p) (i := i) busy axi hit).1
    rw [slaveEvents_nil nil] at hev
    have hr : (q.xcyc p i).rHs = false := by
      cases h : (q.xcyc p i).rHs <;> simp [h] at hev ⊢
    have hbusy : q.xbar.rdBusy = true ∧ q.xbar.rdSel = p.decode req.addr := by rw [busy]; exact ⟨rfl, rfl⟩
    refine ⟨hit, by simp [XbarCyc.mAxi, hs, hx, axi, hbusy], ?_⟩
    simpa [XbarCyc.rHs, XbarCyc.sAxi, hs, hx, axi, hbusy, hit, xcyc_slave] using hr
  | wrWait _ _ _ _ both => rcases both with h | h <;> simp at h

theorem waits_w {k : BitVec 2} {a : Word} (opn : Open p q [.accept req, .aw k a])
    (early : (i.slave k).bvalid = false) (nil : q.events p i = []) :
    k ≠ 3#2 ∧ ((q.xcyc p i).mAxi k).wvalid = true ∧ (i.slave k).wready = false := by
  have hs : (q.xcyc p i).s = q.bridge.axi i.req := rfl
  have hx : (q.xcyc p i).q = q.xbar := rfl
  cases opn with
  | wrAddr state latch we busy hit =>
    have axi : q.bridge.axi i.req = { wdata := req.wdata, wstrb := req.wstrb, wvalid := true, bready := true } := by
      simp [BridgeQ.axi, state, latch.wdata, latch.wstrb]
    have hev := (wrAddr_phase (p := p) (i := i) busy axi hit early).1
    rw [slaveEvents_nil nil] at hev
    have hw : q.bridge.wHs i.req (q.xcyc p i).sAxi = false := by
      cases h : q.bridge.wHs i.req (q.xcyc p i).sAxi <;> simp [h] at hev ⊢
    have hsel : (q.xcyc p i).wrSelEff = p.decode req.addr := by
      have : q.xbar.wrBusy = true ∧ q.xbar.wrSel = p.decode req.addr := by rw [busy]; exact ⟨rfl, rfl⟩
      simp [XbarCyc.wrSelEff, hx, this]
    refine ⟨hit, by simp [XbarCyc.mAxi, hs, axi, hsel], ?_⟩
    simpa [BridgeQ.wHs, XbarCyc.sAxi, hs, axi, hsel, hit, xcyc_slave] using hw
  | wrWait _ _ _ _ both => rcases both with h | h <;> simp at h

theorem waits_late_aw {k : BitVec 2} {d : Word} {b : BitVec 4} (opn : Open p q [.accept req, .w k d b])
    (nil : q.events p i = []) :
    k ≠ 3#2 ∧ ((q.xcyc p i).mAxi k).awvalid = true ∧ (i.slave k).awready = false := by
  have hs : (q.xcyc p i).s = q.bridge.axi i.req := rfl
  have hx : (q.xcyc p i).q = q.xbar := rfl
  have hp : (q.xcyc p i).p = p := rfl
  cases opn with
  | wrData state clean latch we hit =>
    have axi : q.bridge.axi i.req = { awaddr := req.addr, awvalid := true, bready := true } := by
      simp [BridgeQ.axi, state, latch.addr]
    have hev := (wrData_phase (p := p) (i := i) clean axi hit).1
    rw [slaveEvents_nil nil] at hev
    have haw : (q.xcyc p i).awHs = false := by
      cases h : (q.xcyc p i).awHs <;> simp [h] at hev ⊢
    refine ⟨hit, by simp [XbarCyc.mAxi, XbarCyc.wrSelLive, hs, hx, hp, axi, clean.wrBusy], ?_⟩
    simpa [XbarCyc.awHs, XbarCyc.sAxi, XbarCyc.wrSelLive, hs, hx, hp, axi, clean.wrBusy, hit, xcyc_slave] using haw
  | wrWait _ _ _ _ both => rcases both with h | h <;> simp at h

theorem waits_b {e e' : BusEvent} (opn : Open p q [.accept req, e, e']) (nil : q.events p i = []) :
    p.decode req.addr ≠ 3#2 ∧ (i.slave (p.decode req.addr)).bvalid = false := by
  have hs : (q.xcyc p i).s = q.bridge.axi i.req := rfl
  have hx : (q.xcyc p i).q = q.xbar := rfl
  cases opn with
  | wrWait state we busy hit both =>
    have axi : q.bridge.axi i.req = { bready := true } := by simp [BridgeQ.axi, state]
    have hev := (wrWait_phase (p := p) (i := i) busy axi hit).1
    rw [slaveEvents_nil nil] at hev
    have hb : (q.xcyc p i).bHs = false := by
      cases h : (q.xcyc p i).bHs <;> simp [h] at hev ⊢
    have hbusy : q.xbar.wrBusy = true ∧ q.xbar.wrSel = p.decode req.addr := by rw [busy]; exact ⟨rfl, rfl⟩
    exact ⟨hit, by simpa [XbarCyc.bHs, XbarCyc.sAxi, hs, hx, axi, hbusy, hit, xcyc_slave] using hb⟩

/-! ## Every transaction ends -/

theorem Open.not_whole {part : List BusEvent} {req : MemReq} (opn : Open p q part) : ¬ Whole p req part := by
  intro h
  cases opn with
  | wrWait _ _ _ _ both => rcases both with rfl | rfl <;> cases h
  | _ => cases h

/-- A cycle without events leaves the open transaction as it is. -/
theorem Open.still {part : List BusEvent} (opn : Open p q part) (nil : q.events p i = [])
    (early : ∀ req k a, part = [.accept req, .aw k a] → ((q.xcyc p i).slave k).bvalid = false) :
    Open p (q.next p i) part := by
  rcases opn.moves early with more | ⟨⟨req, whole⟩, -⟩
  · simpa [nil] using more
  · rw [nil, List.append_nil] at whole
    exact absurd whole (Open.not_whole opn)

/-- The environment's part in liveness: no channel is stalled for ever, a slave answers
what it has taken and holds its read data until they are taken, and the master takes them. -/
structure Fair (p : XbarParams) (s : PeriQ) (ins : ℕ → PeriIn) : Prop where
  aw : ∀ k, k ≠ 3#2 → ∀ n, ∃ m ≥ n,
    ¬ ((((Clocked.run (next p) s ins m).xcyc p (ins m)).mAxi k).awvalid = true ∧ ((ins m).slave k).awready = false)
  w : ∀ k, k ≠ 3#2 → ∀ n, ∃ m ≥ n,
    ¬ ((((Clocked.run (next p) s ins m).xcyc p (ins m)).mAxi k).wvalid = true ∧ ((ins m).slave k).wready = false)
  ar : ∀ k, k ≠ 3#2 → ∀ n, ∃ m ≥ n,
    ¬ ((((Clocked.run (next p) s ins m).xcyc p (ins m)).mAxi k).arvalid = true ∧ ((ins m).slave k).arready = false)
  b : ∀ k, k ≠ 3#2 → ∀ n, ∃ m ≥ n,
    ¬ ((Clocked.log (next p) (events p) s ins m).countP (isB k) <
          (Clocked.log (next p) (events p) s ins m).countP (isAw k) ∧
        (Clocked.log (next p) (events p) s ins m).countP (isB k) <
          (Clocked.log (next p) (events p) s ins m).countP (isW k) ∧ ((ins m).slave k).bvalid = false)
  r : ∀ k, k ≠ 3#2 → ∀ n, ∃ m ≥ n,
    ¬ ((Clocked.log (next p) (events p) s ins m).countP (isR k) <
          (Clocked.log (next p) (events p) s ins m).countP (isAr k) ∧ ((ins m).slave k).rvalid = false)
  rHeld : ∀ k, k ≠ 3#2 → ∀ n, ((ins n).slave k).rvalid = true →
    (((Clocked.run (next p) s ins n).xcyc p (ins n)).mAxi k).rready = false → ((ins (n + 1)).slave k).rvalid = true
  master : ∀ n, ∃ m ≥ n, (ins m).req.rready = true

variable {s : PeriQ} {ins : ℕ → PeriIn}

theorem NeverEarly.early (rule : NeverEarly p s ins) {n : ℕ} {done : List (List BusEvent)} {part : List BusEvent}
    (log : Clocked.log (next p) (events p) s ins n = done.flatten ++ part)
    (whole : ∀ t ∈ done, ∃ req, Whole p req t) (opn : Open p (Clocked.run (next p) s ins n) part) :
    ∀ req k a, part = [.accept req, .aw k a] → ((ins n).slave k).bvalid = false := by
  intro req k a h
  have ruleN := rule n
  rw [log, h] at ruleN
  exact NotEarly.addr (Open.hit opn h) whole ruleN

/-- As long as nothing happens the open transaction is the same. -/
theorem stays_open (rule : NeverEarly p s ins) {n : ℕ} {done : List (List BusEvent)} {part : List BusEvent}
    (log : Clocked.log (next p) (events p) s ins n = done.flatten ++ part)
    (whole : ∀ t ∈ done, ∃ req, Whole p req t) (opn : Open p (Clocked.run (next p) s ins n) part) {m : ℕ} (hm : n ≤ m)
    (quiet : ∀ j, n ≤ j → j < m → (Clocked.run (next p) s ins j).events p (ins j) = []) :
    Clocked.log (next p) (events p) s ins m = done.flatten ++ part ∧ Open p (Clocked.run (next p) s ins m) part := by
  induction m, hm using Nat.le_induction with
  | base => exact ⟨log, opn⟩
  | succ m hm ih =>
    obtain ⟨hlog, hopn⟩ := ih fun j hj hjm => quiet j hj (by omega)
    have nil := quiet m hm (by omega)
    refine ⟨?_, Open.still hopn nil (rule.early hlog whole hopn)⟩
    rw [Clocked.log_succ, nil, List.append_nil]
    exact hlog

/-- From cycle `n` on nothing happens, and the transaction stays open. -/
structure Stuck (p : XbarParams) (s : PeriQ) (ins : ℕ → PeriIn) (n : ℕ) (done : List (List BusEvent))
    (part : List BusEvent) : Prop where
  whole : ∀ t ∈ done, ∃ req, Whole p req t
  log : ∀ m ≥ n, Clocked.log (next p) (events p) s ins m = done.flatten ++ part
  opn : ∀ m ≥ n, Open p (Clocked.run (next p) s ins m) part
  never : ∀ m ≥ n, (Clocked.run (next p) s ins m).events p (ins m) = []

/-- A read that waits for its data cannot be stuck: the data comes, and the master takes it. -/
theorem Stuck.read (fair : Fair p s ins) {n : ℕ} {done : List (List BusEvent)} {req : MemReq} {k : BitVec 2}
    (stuck : Stuck p s ins n done [.accept req, .ar k req.addr]) : False := by
  have waits := fun m hm => waits_r (stuck.opn m hm) (stuck.never m hm)
  have hit : k ≠ 3#2 := (waits n le_rfl).1
  obtain ⟨m, hm, h⟩ := fair.r k hit n
  have balance := (done_balanced stuck.whole k).ar
  have rvalid : ((ins m).slave k).rvalid = true := by
    by_contra none
    apply h
    rw [stuck.log m hm]
    exact ⟨by simp [List.countP_append, isR, isAr, balance], by simpa using none⟩
  have held : ∀ m' ≥ m, ((ins m').slave k).rvalid = true := by
    intro m' hm'
    induction m', hm' using Nat.le_induction with
    | base => exact rvalid
    | succ m' hm' ih =>
      obtain ⟨-, rready, refused⟩ := waits m' (le_trans hm hm')
      rw [ih, Bool.true_and] at refused
      exact fair.rHeld k hit m' ih (rready.trans refused)
  obtain ⟨m', hm', takes⟩ := fair.master m
  obtain ⟨-, -, refused⟩ := waits m' (le_trans hm hm')
  rw [held m' hm', takes] at refused
  cases refused

/-- Nor can a write that waits for its response. -/
theorem Stuck.write (fair : Fair p s ins) {n : ℕ} {done : List (List BusEvent)} {req : MemReq} {k : BitVec 2}
    {seen : List BusEvent} (stuck : Stuck p s ins n done (.accept req :: seen)) (decode : k = p.decode req.addr)
    (both : seen = [.aw k req.addr, .w k req.wdata req.wstrb] ∨ seen = [.w k req.wdata req.wstrb, .aw k req.addr]) :
    False := by
  have silent : ∀ m ≥ n, k ≠ 3#2 ∧ ((ins m).slave k).bvalid = false := by
    intro m hm
    have opn := stuck.opn m hm
    rw [decode]
    rcases both with rfl | rfl
    · exact waits_b opn (stuck.never m hm)
    · exact waits_b opn (stuck.never m hm)
  obtain ⟨m, hm, h⟩ := fair.b k (silent n le_rfl).1 n
  have aw := (done_balanced stuck.whole k).aw
  have w := (done_balanced stuck.whole k).w
  apply h
  rw [stuck.log m hm]
  rcases both with rfl | rfl
  · exact ⟨by simp [List.countP_append, isB, isAw, aw], by simp [List.countP_append, isB, isW, w], (silent m hm).2⟩
  · exact ⟨by simp [List.countP_append, isB, isAw, aw], by simp [List.countP_append, isB, isW, w], (silent m hm).2⟩

/-- An open transaction does not stand still for ever. -/
theorem stirs (rule : NeverEarly p s ins) (fair : Fair p s ins) {n : ℕ} {done : List (List BusEvent)}
    {part : List BusEvent} (log : Clocked.log (next p) (events p) s ins n = done.flatten ++ part)
    (whole : ∀ t ∈ done, ∃ req, Whole p req t) (opn : Open p (Clocked.run (next p) s ins n) part)
    (busy : part ≠ []) : ∃ m, n ≤ m ∧ (Clocked.run (next p) s ins m).events p (ins m) ≠ [] := by
  by_contra never
  push Not at never
  have still := fun m (hm : n ≤ m) => stays_open rule log whole opn hm fun j hj _ => never j hj
  have stuck : Stuck p s ins n done part :=
    ⟨whole, fun m hm => (still m hm).1, fun m hm => (still m hm).2, never⟩
  -- which channel the transaction waits for is the same in every cycle from `n` on
  cases opn with
  | idle => exact busy rfl
  | @rdAddr req _ _ _ re hit =>
    obtain ⟨m, hm, h⟩ := fair.ar _ hit n
    exact h (waits_ar (stuck.opn m hm) re hit (never m hm))
  | @rdError req _ re _ miss =>
    obtain ⟨m, hm, h⟩ := fair.master n
    rw [waits_master (stuck.opn m hm) re miss (never m hm)] at h
    cases h
  | @wrBoth req _ _ _ we hit =>
    obtain ⟨m, hm, h⟩ := fair.aw _ hit n
    exact h (waits_aw (stuck.opn m hm) we hit (never m hm))
  | @wrError req _ we _ miss => exact write_miss_answers (stuck.opn n le_rfl) we miss (never n le_rfl)
  | @wrAddr req _ _ _ _ hit =>
    obtain ⟨m, hm, h⟩ := fair.w _ hit n
    have early := rule.early (stuck.log m hm) whole (stuck.opn m hm) req _ _ rfl
    exact h (waits_w (stuck.opn m hm) early (never m hm)).2
  | @wrData req _ _ _ _ hit =>
    obtain ⟨m, hm, h⟩ := fair.aw _ hit n
    exact h (waits_late_aw (stuck.opn m hm) (never m hm)).2
  | @wrWait req _ _ _ hit seen both => exact stuck.write fair rfl both
  | @rdWait req _ _ _ hit => exact stuck.read fair

theorem Open.length_le {part : List BusEvent} (opn : Open p q part) : part.length ≤ 3 := by
  cases opn with
  | wrWait _ _ _ _ both => rcases both with rfl | rfl <;> simp
  | _ => simp

/-- An open transaction becomes whole; each event it still lacks takes its place in turn. -/
theorem completes (rule : NeverEarly p s ins) (fair : Fair p s ins) (lacks : ℕ) {n : ℕ}
    {done : List (List BusEvent)} {part : List BusEvent} (short : 4 ≤ lacks + part.length)
    (log : Clocked.log (next p) (events p) s ins n = done.flatten ++ part)
    (whole : ∀ t ∈ done, ∃ req, Whole p req t) (opn : Open p (Clocked.run (next p) s ins n) part) :
    ∃ m ≥ n, ∃ done' : List (List BusEvent), Clocked.log (next p) (events p) s ins m = done'.flatten ∧
      ∀ t ∈ done', ∃ req, Whole p req t := by
  induction lacks generalizing n part with
  | zero => exact absurd (Open.length_le opn) (by omega)
  | succ lacks ih =>
    by_cases busy : part = []
    · exact ⟨n, le_rfl, done, by rw [log, busy, List.append_nil], whole⟩
    classical
    have stir := stirs rule fair log whole opn busy
    obtain ⟨hm, event⟩ := Nat.find_spec stir
    obtain ⟨hlog, hopn⟩ := stays_open rule log whole opn hm fun j hj hjm => by
      simpa [hj] using Nat.find_min stir hjm
    have hlog' : Clocked.log (next p) (events p) s ins (Nat.find stir + 1) = done.flatten ++
        (part ++ (Clocked.run (next p) s ins (Nat.find stir)).events p (ins (Nat.find stir))) := by
      rw [Clocked.log_succ, hlog, List.append_assoc]
    rcases hopn.moves (rule.early hlog whole hopn) with more | ⟨ends, -⟩
    · have grows := List.length_pos_of_ne_nil event
      obtain ⟨m, hm', settled⟩ := ih (by rw [List.length_append]; omega) hlog' more
      exact ⟨m, by omega, settled⟩
    · refine ⟨Nat.find stir + 1, by omega,
        done ++ [part ++ (Clocked.run (next p) s ins (Nat.find stir)).events p (ins (Nat.find stir))],
        by rw [hlog']; simp, ?_⟩
      intro t ht
      rcases List.mem_append.mp ht with ht | ht
      · exact whole t ht
      · rw [List.mem_singleton.mp ht]
        exact ends

/-! ## The bus -/

/-- A request, whatever it is, has a transaction. -/
theorem Whole.of (p : XbarParams) (req : MemReq) : ∃ rest, Whole p req (.accept req :: rest) := by
  by_cases hit : p.decode req.addr = 3#2
  · cases we : req.we with
    | true => exact ⟨_, .writeNone we (p.decode_none hit)⟩
    | false => exact ⟨_, .readNone we (p.decode_none hit)⟩
  · cases we : req.we with
    | true => exact ⟨[_, _, _, .bvalid 0], .awFirst we (p.decode_hits hit)⟩
    | false => exact ⟨[_, .r _ 0, .rvalid 0 0], .read we (p.decode_hits hit)⟩

/-- What has been seen of the open transaction is the start of a whole one. -/
theorem Open.begun {part : List BusEvent} (opn : Open p q part) : ∃ req rest, Whole p req (part ++ rest) := by
  cases opn with
  | idle =>
    obtain ⟨rest, h⟩ := Whole.of p default
    exact ⟨_, _, h⟩
  | rdAddr | rdError | wrBoth | wrError =>
    obtain ⟨rest, h⟩ := Whole.of p _
    exact ⟨_, rest, h⟩
  | rdWait _ re _ hit => exact ⟨_, [.r _ 0, .rvalid 0 0], .read re (p.decode_hits hit)⟩
  | wrAddr _ _ we _ hit => exact ⟨_, [.w _ _ _, .b _, .bvalid 0], .awFirst we (p.decode_hits hit)⟩
  | wrData _ _ _ we hit => exact ⟨_, [.aw _ _, .b _, .bvalid 0], .wFirst we (p.decode_hits hit)⟩
  | wrWait _ we _ hit both =>
    rcases both with rfl | rfl
    · exact ⟨_, [.b _, .bvalid 0], .awFirst we (p.decode_hits hit)⟩
    · exact ⟨_, [.b _, .bvalid 0], .wFirst we (p.decode_hits hit)⟩

/-- Before every edge: whole transactions and the beginning of one; whatever is valid at a
slave port is the open transaction's, and stays there unchanged until that slave takes it. -/
structure Orderly (p : XbarParams) (q : PeriQ) (i i' : PeriIn) (log : List BusEvent) : Prop where
  transactions : ∃ (done : List (List BusEvent)) (part : List BusEvent), log = done.flatten ++ part ∧
    (∀ t ∈ done, ∃ req, Whole p req t) ∧ (∃ req rest, Whole p req (part ++ rest)) ∧
    ∀ k, k ≠ 3#2 →
      (((q.xcyc p i).mAxi k).awvalid || ((q.xcyc p i).mAxi k).wvalid || ((q.xcyc p i).mAxi k).arvalid) = true →
      Targets p ((q.xcyc p i).mAxi k) k (part ++ q.events p i)
  awStays : ∀ k, k ≠ 3#2 → ((q.xcyc p i).mAxi k).awvalid = true → (i.slave k).awready = false →
    (((q.next p i).xcyc p i').mAxi k).awvalid = true ∧
      (((q.next p i).xcyc p i').mAxi k).awaddr = ((q.xcyc p i).mAxi k).awaddr
  wStays : ∀ k, k ≠ 3#2 → ((q.xcyc p i).mAxi k).wvalid = true → (i.slave k).wready = false →
    (((q.next p i).xcyc p i').mAxi k).wvalid = true ∧
      (((q.next p i).xcyc p i').mAxi k).wdata = ((q.xcyc p i).mAxi k).wdata ∧
      (((q.next p i).xcyc p i').mAxi k).wstrb = ((q.xcyc p i).mAxi k).wstrb
  arStays : ∀ k, k ≠ 3#2 → ((q.xcyc p i).mAxi k).arvalid = true → (i.slave k).arready = false →
    (((q.next p i).xcyc p i').mAxi k).arvalid = true ∧
      (((q.next p i).xcyc p i').mAxi k).araddr = ((q.xcyc p i).mAxi k).araddr

theorem bus_transactions (p : XbarParams) (s : PeriQ) (ins : ℕ → PeriIn) (reset : Reset s)
    (rule : NeverEarly p s ins) :
    (∀ n, Orderly p (Clocked.run (next p) s ins n) (ins n) (ins (n + 1)) (Clocked.log (next p) (events p) s ins n)) ∧
      (Fair p s ins → ∀ n, ∃ m ≥ n, ∃ done : List (List BusEvent),
        Clocked.log (next p) (events p) s ins m = done.flatten ∧ ∀ t ∈ done, ∃ req, Whole p req t) := by
  refine ⟨fun n => ?_, fun fair n => ?_⟩
  · obtain ⟨done, part, hlog, whole, opn⟩ := sequenced_run reset rule n
    have early := rule.early hlog whole opn
    exact
      { transactions := ⟨done, part, hlog, whole, Open.begun opn, fun k hk valid => opn.targets hk valid⟩
        awStays := fun k hk valid wait => aw_stays hk valid wait _
        wStays := fun k hk valid wait => w_stays opn hk valid wait early _
        arStays := fun k hk valid wait => ar_stays hk valid wait _ }
  · obtain ⟨done, part, hlog, whole, opn⟩ := sequenced_run reset rule n
    exact completes rule fair 4 (by omega) hlog whole opn

/-! ### Three slaves that are always ready -/

/-- A slave that takes everything at once; its answer is `b`, its read data `r`. -/
def readySlave (b r : Bool) : AxiS :=
  { awready := true, wready := true, arready := true, bvalid := b, rvalid := r, rdata := 7#32 }

/-- One write to the second window, answered two cycles later, and nothing else. -/
def oneWrite (n : ℕ) : PeriIn :=
  { req := { addr := 0x10001004#32, wdata := 5#32, wstrb := 0xF#4, we := true, wvalid := n == 0, rready := true }
    m0 := readySlave false false
    m1 := readySlave (n == 2) false
    m2 := readySlave false false }

def idleBus : PeriQ :=
  { bridge := { state := .S_IDLE, addr := 0#32, wdata := 0#32, wstrb := 0#4 }, xbar := .reset }

/-- The bus after that write. -/
def afterWrite : PeriQ :=
  { bridge := { state := .S_IDLE, addr := 0x10001004#32, wdata := 5#32, wstrb := 0xF#4 },
    xbar := { XbarQ.reset with wrSel := 1 } }

theorem oneWrite_settled (n : ℕ) :
    Clocked.run (next .board) idleBus oneWrite (n + 3) = afterWrite ∧
      Clocked.log (next .board) (events .board) idleBus oneWrite (n + 3) =
        Clocked.log (next .board) (events .board) idleBus oneWrite 3 := by
  induction n with
  | zero => exact ⟨rfl, rfl⟩
  | succ n ih =>
    have step : next .board afterWrite (oneWrite (n + 3)) = afterWrite ∧
        events .board afterWrite (oneWrite (n + 3)) = [] := ⟨rfl, rfl⟩
    rw [show n + 1 + 3 = n + 3 + 1 by omega, Clocked.run_succ, Clocked.log_succ, ih.1, ih.2, step.1, step.2]
    exact ⟨rfl, List.append_nil _⟩

theorem oneWrite_neverEarly : NeverEarly .board idleBus oneWrite := by
  intro n k hk valid
  obtain ⟨rfl, rfl⟩ : n = 2 ∧ k = 1 := by
    rcases sel_cases hk with rfl | rfl | rfl
    · simp [PeriIn.slave, oneWrite, readySlave] at valid
    · exact ⟨by simpa [PeriIn.slave, oneWrite, readySlave] using valid, rfl⟩
    · simp [PeriIn.slave, oneWrite, readySlave] at valid
  decide

theorem oneWrite_fair : Fair .board idleBus oneWrite := by
  have ready : ∀ k, k ≠ 3#2 → ∀ n, ((oneWrite n).slave k).awready = true ∧ ((oneWrite n).slave k).wready = true ∧
      ((oneWrite n).slave k).arready = true ∧ ((oneWrite n).slave k).rvalid = false := by
    intro k hk n
    rcases sel_cases hk with rfl | rfl | rfl <;> exact ⟨rfl, rfl, rfl, rfl⟩
  constructor
  case aw => intro k hk n; exact ⟨n, le_rfl, fun h => by simp [(ready k hk n).1] at h⟩
  case w => intro k hk n; exact ⟨n, le_rfl, fun h => by simp [(ready k hk n).2.1] at h⟩
  case ar => intro k hk n; exact ⟨n, le_rfl, fun h => by simp [(ready k hk n).2.2.1] at h⟩
  case b =>
    intro k hk n
    refine ⟨n + 3, by omega, fun h => ?_⟩
    rw [(oneWrite_settled n).2] at h
    rcases sel_cases hk with rfl | rfl | rfl <;> exact absurd h.1 (by decide)
  case r =>
    intro k hk n
    refine ⟨n + 3, by omega, fun h => ?_⟩
    rw [(oneWrite_settled n).2] at h
    rcases sel_cases hk with rfl | rfl | rfl <;> exact absurd h.1 (by decide)
  case rHeld => intro k hk n h; simp [(ready k hk n).2.2.2] at h
  case master => exact fun n => ⟨n, le_rfl, rfl⟩

theorem bus_transactions_oneWrite :
    (∀ n, Orderly .board (Clocked.run (next .board) idleBus oneWrite n) (oneWrite n) (oneWrite (n + 1))
        (Clocked.log (next .board) (events .board) idleBus oneWrite n)) ∧
      ∀ n, ∃ m ≥ n, ∃ done : List (List BusEvent),
        Clocked.log (next .board) (events .board) idleBus oneWrite m = done.flatten ∧
          ∀ t ∈ done, ∃ req, Whole .board req t :=
  have bus := bus_transactions .board idleBus oneWrite ⟨rfl, rfl⟩ oneWrite_neverEarly
  ⟨bus.1, bus.2 oneWrite_fair⟩

end PeriQ

end YarvUc
