import YarvUc.Execute.ByteMemory
import YarvUc.Execute.Stays

/-!
# The LSU and its D-mem

`top_module` closes execute's D-mem port with a 32-bit `native_ram` of one
outstanding read. The pair is a little-endian byte memory: the array always holds
the bytes of the stores that have retired, and a load that retires writes back the
bytes at its address.
-/

namespace YarvUc

/-- `ADDR_W` of `u_dmem`, with the range its word index needs. -/
structure DmemParams where
  addrW : ℕ
  lower : 2 < addrW

def DmemParams.board : DmemParams := { addrW := 14, lower := by decide }

/-- The parameters of `u_dmem`. -/
def DmemParams.ram (m : DmemParams) : RamParams :=
  { addrW := m.addrW, strbW := 4, readOnly := false, outstanding := 1 }

/-- The flops of the two stages and the memory. -/
structure Lsu where
  core : Core
  dmem : RamQ 4

namespace Lsu

variable (p : Params) (m : DmemParams) (s : Lsu) (i : CoreIn)

/-- `dmem_req`: it does not read the response. -/
def memReq : MemReq := (s.core.exec p i).memReq

/-- The cycle's inputs with `dmem_rsp` from the memory. -/
def coreIn : CoreIn :=
  { i with memRsp := { wready := s.dmem.wready m.ram (s.memReq p i).rready, rvalid := s.dmem.rvalid,
                       rdata := s.dmem.rdata, bvalid := false } }

def exec : ExCyc := s.core.exec p (s.coreIn p m i)

def ramIn : RamIn 4 where
  reqValid := (s.memReq p i).wvalid
  reqWe := (s.memReq p i).we
  reqAddr := (s.memReq p i).addr
  reqWdata := (s.memReq p i).wdata
  reqWstrb := (s.memReq p i).wstrb
  reqRready := (s.memReq p i).rready

def next : Lsu := { core := s.core.next p (s.coreIn p m i), dmem := s.dmem.next m.ram (s.ramIn p i) }

def events : List StayEvent := s.core.events p (s.coreIn p m i)

/-- Reset flops over a preloaded memory. -/
def ofImage (mem : ℕ → Word) : Lsu :=
  { core := .reset, dmem := { rif := false, rdD := 0, count := 0, skid := fun _ => 0, mem := mem } }

/-! ## The specification -/

/-- What a retiring word does to the byte array. -/
def retire (m : DmemParams) (b : ByteMem) : StayEvent → ByteMem
  | .commit de =>
    if de.memWrite && !de.effAddr.getLsbD PERI_ADDR_BIT then b.store m.addrW de.effAddr de.rs2Data de.memSize.bytes
    else b
  | _ => b

/-- The byte array after the stores of a log. -/
def storesOf (m : DmemParams) (log : List StayEvent) (b : ByteMem) : ByteMem := log.foldl (retire m) b

/-! ## The invariant -/

variable {p m s i}

@[simp] theorem memReq_exec : (s.exec p m i).memReq = s.memReq p i := rfl
@[simp] theorem exec_de : (s.exec p m i).de = s.core.dec.de := rfl
@[simp] theorem exec_q : (s.exec p m i).q = s.core.ex := rfl

/-- A read lands exactly in the first cycle of `EX_MEM_WAIT`, at the latched address. -/
structure Inv (p : Params) (m : DmemParams) (s : Lsu) : Prop where
  core : s.core.Inv p
  count : s.dmem.count = 0
  lands : s.dmem.rif = (s.core.ex.state == .MEM_WAIT && !s.core.ex.memIsPeri)
  data : s.dmem.rif = true → s.dmem.rdD = s.dmem.mem (wordAddr m.addrW 4 s.core.ex.memAddr)

theorem inv_ofImage (mem : ℕ → Word) : (ofImage mem).Inv p m :=
  ⟨Core.inv_reset, rfl, rfl, by simp [ofImage]⟩

theorem launchHs_eq :
    s.dmem.launchHs m.ram (s.ramIn p i) = ((s.exec p m i).memReq.wvalid && (s.exec p m i).memRsp.wready) := rfl

theorem launch_none (none : (s.exec p m i).accepted = []) : s.dmem.launchHs m.ram (s.ramIn p i) = false := by
  simp only [ExCyc.accepted, List.append_eq_nil_iff, ite_eq_right_iff, List.cons_ne_nil, imp_false] at none
  rw [launchHs_eq]
  exact Bool.eq_false_of_not_eq_true none.1

theorem launch_one {a : Access} (one : (s.exec p m i).accepted = [a]) :
    a.peri = false ∧ s.dmem.launchHs m.ram (s.ramIn p i) = true ∧ a = (s.memReq p i).access false ∨
      a.peri = true ∧ s.dmem.launchHs m.ram (s.ramIn p i) = false := by
  rw [launchHs_eq]
  unfold ExCyc.accepted at one
  cases dmem : (s.exec p m i).memReq.wvalid && (s.exec p m i).memRsp.wready with
  | true =>
    rw [dmem, if_pos rfl, List.singleton_append, List.cons.injEq] at one
    exact .inl ⟨one.1 ▸ rfl, rfl, one.1.symm⟩
  | false =>
    rw [dmem, if_neg (by simp), List.nil_append] at one
    split at one
    · rw [List.cons.injEq] at one
      exact .inr ⟨one.1 ▸ rfl, rfl⟩
    · cases one

/-- The landing word is taken at once. -/
theorem Inv.count_next (inv : s.Inv p m) : (s.next p m i).dmem.count = 0 := by
  have stored : s.dmem.landStored (s.memReq p i).rready = false := by
    cases lands : s.dmem.rif with
    | false => simp [RamQ.landStored, lands]
    | true =>
      obtain ⟨state, dmem⟩ : s.core.ex.state = .MEM_WAIT ∧ s.core.ex.memIsPeri = false := by
        simpa [lands] using inv.lands
      have read : s.core.dec.de.memRead = true := (inv.core.is_load state).memRead
      have ready : (s.memReq p i).rready = true := by
        simp [memReq, ExCyc.memReq, ExCyc.dmemLoadDrive, ExCyc.memReqPending, ExCyc.readPhase, ExCyc.inState,
          ExCyc.isPeriRsp, state, dmem, read]
      simp [RamQ.landStored, RamQ.landConsumed, inv.count, ready]
  have stored' : s.dmem.landStored (s.ramIn p i).reqRready = false := stored
  simp [Lsu.next, RamQ.next, RamQ.newCount, inv.count, RamQ.skidPop, stored']

/-- Without a D-mem access the array stays and nothing lands. -/
theorem dmem_quiet (none : s.dmem.launchHs m.ram (s.ramIn p i) = false) :
    (s.next p m i).dmem.rif = false ∧ (s.next p m i).dmem.mem = s.dmem.mem := by
  simp [Lsu.next, RamQ.next, RamQ.launchRead, RamQ.launchWrite, none]

/-- An accepted load lands its word. -/
theorem dmem_read (launch : s.dmem.launchHs m.ram (s.ramIn p i) = true) (we : (s.memReq p i).we = false) :
    (s.next p m i).dmem.rif = true ∧
      (s.next p m i).dmem.rdD = s.dmem.mem (wordAddr m.addrW 4 (s.memReq p i).addr) ∧
      (s.next p m i).dmem.mem = s.dmem.mem := by
  have we' : (s.ramIn p i).reqWe = false := we
  refine ⟨?_, ?_, ?_⟩ <;> simp [Lsu.next, RamQ.next, RamQ.launchRead, RamQ.launchWrite, launch, we']
  rfl

/-- An accepted store writes its strobed bytes. -/
theorem dmem_write (launch : s.dmem.launchHs m.ram (s.ramIn p i) = true) (we : (s.memReq p i).we = true) :
    (s.next p m i).dmem.rif = false ∧
      (s.next p m i).dmem.mem = Function.update s.dmem.mem (wordAddr m.addrW 4 (s.memReq p i).addr)
        (@strobeWrite 4 (s.dmem.mem (wordAddr m.addrW 4 (s.memReq p i).addr)) (s.memReq p i).wdata
          (s.memReq p i).wstrb) := by
  have we' : (s.ramIn p i).reqWe = true := we
  have rw : m.ram.readOnly = false := rfl
  refine ⟨?_, ?_⟩ <;> simp [Lsu.next, RamQ.next, RamQ.launchRead, RamQ.launchWrite, launch, we', rw]
  rfl

/-- What an accepted load does to the D-mem: nothing, if it is not for it. -/
theorem dmem_load {a : Access} (one : (s.exec p m i).accepted = [a]) (mine : a.For (s.exec p m i).de)
    (is : (s.exec p m i).de.Is .load) :
    (s.next p m i).dmem.rif = !a.peri ∧
      (a.peri = false → (s.next p m i).dmem.rdD = s.dmem.mem (wordAddr m.addrW 4 a.addr)) ∧
      (s.next p m i).dmem.mem = s.dmem.mem := by
  rcases launch_one one with ⟨-, launch, rfl⟩ | ⟨peri, launch⟩
  · have we : (s.memReq p i).we = false := mine.we.trans is.memWrite
    obtain ⟨rif, data, mem⟩ := dmem_read launch we
    exact ⟨rif, fun _ => data, mem⟩
  · obtain ⟨rif, mem⟩ := dmem_quiet launch
    exact ⟨by rw [rif, peri]; rfl, fun dmem => absurd (peri.symm.trans dmem) (by simp), mem⟩

/-- What an accepted store does to it. -/
theorem dmem_store {a : Access} (one : (s.exec p m i).accepted = [a]) (mine : a.For (s.exec p m i).de)
    (is : (s.exec p m i).de.Is .store) :
    (s.next p m i).dmem.rif = false ∧
      (s.next p m i).dmem.mem = if a.peri then s.dmem.mem else
        Function.update s.dmem.mem (wordAddr m.addrW 4 a.addr)
          (@strobeWrite 4 (s.dmem.mem (wordAddr m.addrW 4 a.addr)) a.wdata a.wstrb) := by
  rcases launch_one one with ⟨-, launch, rfl⟩ | ⟨peri, launch⟩
  · have we : (s.memReq p i).we = true := mine.we.trans is.memWrite
    exact dmem_write launch we
  · obtain ⟨rif, mem⟩ := dmem_quiet launch
    rw [peri, if_pos rfl]
    exact ⟨rif, mem⟩

/-- With nothing accepted no read can be landing after the edge. -/
theorem Inv.next_quiet (inv : s.Inv p m) (none : (s.exec p m i).accepted = [])
    (lands : (s.core.next p (s.coreIn p m i)).ex.state = .MEM_WAIT →
      (s.core.next p (s.coreIn p m i)).ex.memIsPeri = true) : (s.next p m i).Inv p m := by
  obtain ⟨rif, -⟩ := dmem_quiet (launch_none none)
  refine ⟨inv.core.next, inv.count_next, ?_, by simp [rif]⟩
  rw [rif]
  symm
  simpa [Lsu.next] using lands

/-- A D-mem load is answered in its first waiting cycle, with the word at its address. -/
theorem Inv.done (inv : s.Inv p m) (wait : s.core.ex.state = .MEM_WAIT) (dmem : s.core.ex.memIsPeri = false) :
    (s.exec p m i).memDone = true ∧
      (s.exec p m i).lsuRspWait.rdata = s.dmem.mem (wordAddr m.addrW 4 s.core.ex.memAddr) := by
  have lands : s.dmem.rif = true := by rw [inv.lands, wait, dmem]; rfl
  have port : (s.exec p m i).lsuRspWait = (s.exec p m i).memRsp := by simp [ExCyc.lsuRspWait, ExCyc.isPeriRsp, dmem]
  refine ⟨?_, ?_⟩
  · rw [ExCyc.memDone, port, show (s.exec p m i).memRsp.rvalid = s.dmem.rvalid from rfl]
    simp [ExCyc.inState, wait, RamQ.rvalid, lands]
  · rw [port, show (s.exec p m i).memRsp.rdata = s.dmem.rdata from rfl, RamQ.rdata, if_neg (by simp [inv.count])]
    exact inv.data lands

/-- A D-mem load waits one cycle only. -/
theorem Inv.waits_once (inv : s.Inv p m) (wait : s.core.ex.state = .MEM_WAIT)
    (still : (s.core.next p (s.coreIn p m i)).ex.state = .MEM_WAIT) :
    (s.core.next p (s.coreIn p m i)).ex.memIsPeri = true := by
  by_contra peri
  have pending : (s.exec p m i).memReqPending = false := by simp [ExCyc.memReqPending, ExCyc.inState, wait]
  have dmem : s.core.ex.memIsPeri = false := by
    have : (s.core.next p (s.coreIn p m i)).ex.memIsPeri = (s.exec p m i).next.memIsPeri := rfl
    rw [this, ExCyc.next, pending] at peri
    simpa using peri
  have done := (inv.done (i := i) wait dmem).1
  rw [show (s.core.next p (s.coreIn p m i)).ex.state = (s.exec p m i).next.state from rfl] at still
  simp [ExCyc.next, ExCyc.stateD, wait, done] at still

/-- An accepted load lands in the next cycle, if it is for the D-mem. -/
theorem Inv.next_load (inv : s.Inv p m) {a : Access} (one : (s.exec p m i).accepted = [a])
    (mine : a.For (s.exec p m i).de) (is : (s.exec p m i).de.Is .load)
    (own : Captured (s.exec p m i).de (s.exec p m i).next) (after : (s.exec p m i).next.state = .MEM_WAIT) :
    (s.next p m i).Inv p m := by
  have wait : (s.next p m i).core.ex.state = .MEM_WAIT := after
  have port : (s.next p m i).core.ex.memIsPeri = a.peri := own.peri.trans mine.peri.symm
  have at' : (s.next p m i).core.ex.memAddr = a.addr := own.addr.trans mine.addr.symm
  obtain ⟨rif, data, mem⟩ := dmem_load one mine is
  refine ⟨inv.core.next, inv.count_next, ?_, fun lands => ?_⟩
  · rw [rif, wait, port]
    rfl
  · rw [rif] at lands
    rw [data (by simpa using lands), mem, at']

/-- An accepted store lands nothing. -/
theorem Inv.next_store (inv : s.Inv p m) {a : Access} (one : (s.exec p m i).accepted = [a])
    (mine : a.For (s.exec p m i).de) (is : (s.exec p m i).de.Is .store) (settles : (s.exec p m i).Settles) :
    (s.next p m i).Inv p m := by
  have idle : (s.next p m i).core.ex.state = .IDLE := settles.state
  have rif := (dmem_store one mine is).1
  refine ⟨inv.core.next, inv.count_next, ?_, by simp [rif]⟩
  rw [rif, idle]
  rfl

theorem Inv.next (inv : s.Inv p m) : (s.next p m i).Inv p m := by
  have settled : (s.exec p m i).Settles → ¬ (s.core.next p (s.coreIn p m i)).ex.state = .MEM_WAIT := by
    intro settles h
    have : (s.core.next p (s.coreIn p m i)).ex.state = .IDLE := settles.state
    rw [this] at h
    cases h
  cases (show (s.exec p m i).Outcome from inv.core.outcome) with
  | bubble valid awake idle stall calm inert bus settles halt =>
    exact inv.next_quiet (ExCyc.accepted_of_offered bus) fun h => absurd h (settled settles)
  | asleep halted quiet idle stall calm inert bus settles halt nextPc =>
    exact inv.next_quiet (ExCyc.accepted_of_offered bus) fun h => absurd h (settled settles)
  | trap valid why sync mret int inert bus settles halt =>
    exact inv.next_quiet (ExCyc.accepted_of_offered bus) fun h => absurd h (settled settles)
  | interrupt idle pending why nonexc sync mret int inert bus settles halt =>
    exact inv.next_quiet (ExCyc.accepted_of_offered bus) fun h => absurd h (settled settles)
  | commit k valid is nonexc state awake stall sync int mret commit wb csr train bus memory settles halt =>
    rcases bus with ⟨rfl, a, one, mine⟩ | ⟨-, none⟩
    · exact inv.next_store one mine is settles
    · exact inv.next_quiet none fun h => absurd h (settled settles)
  | hold valid awake stall calm inert phase bus halt =>
    rcases bus with ⟨none, before⟩ | ⟨a, one, mine, is, aligned, -, after⟩
    · exact inv.next_quiet none fun still => inv.waits_once (before.mp still) still
    · exact inv.next_load one mine is (phase.captured after) after

/-! ## The byte memory -/

/-- The word that retires in a cycle. -/
theorem ending_commit (commit : (s.exec p m i).opCommits = true) (valid : s.core.dec.de.valid = true)
    (sync : (s.exec p m i).syncTrapReq = false) (int : (s.exec p m i).takeInterrupt = false) :
    s.core.ending p (s.coreIn p m i) = [.commit s.core.dec.de] := by
  simp only [exec] at commit sync int
  simp [Core.ending, commit, valid, sync, int]

theorem storesOf_append (a b : List StayEvent) (mem : ByteMem) :
    storesOf m (a ++ b) mem = storesOf m b (storesOf m a mem) := List.foldl_append

/-- Requests and entries store nothing. -/
theorem storesOf_events (mem : ByteMem) :
    storesOf m (s.events p m i) mem = storesOf m (s.core.ending p (s.coreIn p m i)) mem := by
  have reqs : ∀ (l : List Access) (mem : ByteMem), storesOf m (l.map .req) mem = mem := by
    intro l
    induction l with
    | nil => intro mem; rfl
    | cons a l ih => intro mem; exact ih mem
  have enter : ∀ mem : ByteMem, storesOf m (s.core.entering p (s.coreIn p m i)) mem = mem := by
    intro mem
    unfold Core.entering
    split <;> rfl
  rw [events, Core.events, storesOf_append, storesOf_append, reqs, enter]

/-- Nor do traps. -/
theorem storesOf_inert (inert : (s.exec p m i).Inert) (mem : ByteMem) :
    storesOf m (s.core.ending p (s.coreIn p m i)) mem = mem := by
  rw [Core.ending, show (s.core.exec p (s.coreIn p m i)).opCommits = false from inert.commit]
  simp only [Bool.false_eq_true, if_false, List.nil_append]
  repeat' split
  all_goals rfl

/-- A store writes its bytes when it retires, if it is for the D-mem. -/
theorem bytes_store {a : Access} (one : (s.exec p m i).accepted = [a]) (mine : a.For (s.exec p m i).de)
    (is : (s.exec p m i).de.Is .store) (aligned : (s.exec p m i).de.memMisalignedLive = false) :
    bytesOf (s.next p m i).dmem.mem = storesOf m [.commit s.core.dec.de] (bytesOf s.dmem.mem) := by
  have write : s.core.dec.de.memWrite = true := is.memWrite
  have ea : s.core.dec.de.lsuEa = s.core.dec.de.effAddr := DeT.lsuEa_eq is is.isMemOp
  have port : a.peri = s.core.dec.de.effAddr.getLsbD PERI_ADDR_BIT := by
    rw [← ea]
    exact mine.peri
  rw [(dmem_store one mine is).2]
  simp only [storesOf, List.foldl_cons, List.foldl_nil, retire]
  rw [write, ← port]
  cases peri : a.peri with
  | true => rfl
  | false =>
    obtain ⟨wdata, wstrb⟩ := mine.lanes write
    rw [if_neg (by simp), mine.addr, wdata, wstrb, ← ea]
    exact bytesOf_write _ _ _ _ m.lower.le (DeT.offset_add_bytes aligned) (DeT.storeWstrb_bit aligned)
      fun j hj => DeT.storeWdata_byte aligned hj

/-- One cycle: the array changes by what retires. -/
theorem Inv.bytes_next (inv : s.Inv p m) :
    bytesOf (s.next p m i).dmem.mem = storesOf m (s.events p m i) (bytesOf s.dmem.mem) := by
  rw [storesOf_events]
  have quiet : (s.exec p m i).Inert → (s.next p m i).dmem.mem = s.dmem.mem →
      bytesOf (s.next p m i).dmem.mem = storesOf m (s.core.ending p (s.coreIn p m i)) (bytesOf s.dmem.mem) := by
    intro inert same
    rw [same, storesOf_inert inert]
  cases (show (s.exec p m i).Outcome from inv.core.outcome) with
  | bubble valid awake idle stall calm inert bus settles halt =>
    exact quiet inert (dmem_quiet (launch_none (ExCyc.accepted_of_offered bus))).2
  | asleep halted quiet' idle stall calm inert bus settles halt nextPc =>
    exact quiet inert (dmem_quiet (launch_none (ExCyc.accepted_of_offered bus))).2
  | trap valid why sync mret int inert bus settles halt =>
    exact quiet inert (dmem_quiet (launch_none (ExCyc.accepted_of_offered bus))).2
  | interrupt idle pending why nonexc sync mret int inert bus settles halt =>
    exact quiet inert (dmem_quiet (launch_none (ExCyc.accepted_of_offered bus))).2
  | hold valid awake stall calm inert phase bus halt =>
    rcases bus with ⟨none, -⟩ | ⟨a, one, mine, is, -, -, -⟩
    · exact quiet inert (dmem_quiet (launch_none none)).2
    · exact quiet inert (dmem_load one mine is).2.2
  | commit k valid is nonexc state awake stall sync int mret commit wb csr train bus memory settles halt =>
    rw [ending_commit commit valid sync int]
    rcases bus with ⟨rfl, a, one, mine⟩ | ⟨other, none⟩
    · exact bytes_store one mine is (memory (.inr rfl)).2
    · rw [(dmem_quiet (launch_none none)).2]
      have write : s.core.dec.de.memWrite = false := by
        rw [show s.core.dec.de.memWrite = k.flags.memWrite from is.memWrite]
        cases k <;> first | rfl | contradiction
      simp only [storesOf, List.foldl_cons, List.foldl_nil, retire]
      rw [write]
      rfl

/-- What a retiring D-mem load writes back. -/
theorem Inv.wbData_load (inv : s.Inv p m) (commit : (s.exec p m i).opCommits = true)
    (load : s.core.dec.de.memRead = true) (dmem : s.core.dec.de.effAddr.getLsbD PERI_ADDR_BIT = false) :
    (s.exec p m i).wbEn = true ∧
      (s.exec p m i).wbData = loadValue s.core.dec.de.memSize s.core.dec.de.memUnsigned
        ((bytesOf s.dmem.mem).load m.addrW s.core.dec.de.effAddr) := by
  cases (show (s.exec p m i).Outcome from inv.core.outcome) with
  | bubble _ _ _ _ _ inert => rw [inert.commit] at commit; cases commit
  | asleep _ _ _ _ _ inert => rw [inert.commit] at commit; cases commit
  | trap _ _ _ _ _ inert => rw [inert.commit] at commit; cases commit
  | interrupt _ _ _ _ _ _ _ inert => rw [inert.commit] at commit; cases commit
  | hold _ _ _ _ inert => rw [inert.commit] at commit; cases commit
  | commit k _ is _ state _ _ _ _ _ _ wb _ _ _ memory =>
    obtain rfl : k = .load := by
      have := is.memRead
      rw [exec_de, load] at this
      cases k <;> first | rfl | cases this
    obtain ⟨own, aligned⟩ := memory (.inl rfl)
    have ea : s.core.dec.de.lsuEa = s.core.dec.de.effAddr := DeT.lsuEa_eq is is.isMemOp
    have addr : s.core.ex.memAddr = s.core.dec.de.effAddr := own.addr.trans ea
    have port : s.core.ex.memIsPeri = false := by
      have := own.peri
      rw [exec_de, exec_q, DeT.isPeriLive, ea] at this
      rw [this, dmem]
    have src : s.core.dec.de.wbSrc = .MEM := is.wbSrc rfl
    refine ⟨wb, ?_⟩
    rw [ExCyc.wbData, ExCyc.wbEarly, exec_de, src, if_neg (by simp), (inv.done state port).2, exec_q, addr]
    rw [exec_de, DeT.memMisalignedLive, ea] at aligned
    exact loadData_eq s.dmem.mem m.lower.le aligned

theorem inv_run (mem : ℕ → Word) (ins : ℕ → CoreIn) (n : ℕ) :
    (Clocked.run (next p m) (ofImage mem) ins n).Inv p m :=
  Clocked.run_invariant (Inv p m) (fun _ _ => True) (inv_ofImage mem) (fun _ _ inv _ => inv.next) n fun _ _ => trivial

theorem bytes_run (mem : ℕ → Word) (ins : ℕ → CoreIn) (n : ℕ) :
    bytesOf (Clocked.run (next p m) (ofImage mem) ins n).dmem.mem =
      storesOf m (Clocked.log (next p m) (events p m) (ofImage mem) ins n) (bytesOf mem) := by
  induction n with
  | zero => rfl
  | succ n ih => rw [Clocked.run_succ, (inv_run mem ins n).bytes_next, ih, Clocked.log_succ, storesOf_append]

/-- The LSU and its D-mem are a little-endian byte memory: before every edge the array holds
the bytes of the stores retired so far, and a D-mem load that retires writes back the bytes at
its effective address, extended to its size and sign. -/
theorem byte_memory (p : Params) (m : DmemParams) (mem : ℕ → Word) (ins : ℕ → CoreIn) (n : ℕ) :
    let s := Clocked.run (next p m) (ofImage mem) ins n
    let b := storesOf m (Clocked.log (next p m) (events p m) (ofImage mem) ins n) (bytesOf mem)
    let e := s.exec p m (ins n)
    bytesOf s.dmem.mem = b ∧
      (e.opCommits = true → e.de.memRead = true → e.de.effAddr.getLsbD PERI_ADDR_BIT = false →
        e.wbEn = true ∧
          e.wbData = loadValue e.de.memSize e.de.memUnsigned (b.load m.addrW e.de.effAddr)) := by
  intro s b e
  have bytes : bytesOf s.dmem.mem = b := bytes_run mem ins n
  refine ⟨bytes, fun commit load dmem => ?_⟩
  rw [← bytes]
  exact (inv_run mem ins n).wbData_load commit load dmem

/-- `sb` of the register `x5` to address 6, then `lbu` of it, the register file answering `0x55` for `x5`. -/
def storeThenLoad (n : ℕ) : CoreIn where
  fe := { instr := if n = 0 then 0x00500323#32 else 0x00604083#32, pc := BitVec.ofNat 32 (4 * n), valid := true,
          fault := false, predLo := false, predHi := false, ghr := 0, nextInstr := 0, nextPc := 0, nextValid := false,
          nextFault := false, nextPredHi := false, nextGhr := 0 }
  regRead := fun a => if a = 5 then 0x55#32 else 0
  bpLookup := fun _ => { phtTaken := false, rasValid := false, rasTop := 0, phtIndex := 0 }
  csrRdata := 0
  intPending := false
  intCause := 0
  memRsp := {}
  periRsp := {}

theorem byte_memory_storeThenLoad :
    let s := Clocked.run (next .board .board) (ofImage fun _ => 0) storeThenLoad 4
    let b := storesOf .board (Clocked.log (next .board .board) (events .board .board) (ofImage fun _ => 0)
      storeThenLoad 4) (bytesOf fun _ => 0)
    let e := s.exec .board .board (storeThenLoad 4)
    e.wbEn = true ∧ e.wbData = loadValue e.de.memSize e.de.memUnsigned (b.load 14 e.de.effAddr) :=
  (byte_memory .board .board (fun _ => 0) storeThenLoad 4).2 rfl rfl rfl

end Lsu

end YarvUc
