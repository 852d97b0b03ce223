import YarvUc.Fetch.Accounting
import YarvUc.Fetch.Stream

/-!
# Fetch delivers the instruction stream

`FetchMem.Inv` ties the stage's counters to the memory's: at most one read is
ever outstanding, its word is the block at `req_pc`, and it always lands in the
cycle after its launch. `Delivers a` says the buffer holds the stream from `a`.
An edge without a redirect moves `a` along by what decode popped; a redirect
restarts it at the target.
-/

namespace YarvUc

namespace FetchMem

/-- The address of the first entry not yet in the buffer. -/
def frontier (s : FetchMem) : Word := if s.ram.rif then s.fetch.reqPc else s.fetch.pc

/-- The buffer contents, oldest first. -/
def buffered (s : FetchMem) : List Entry :=
  (Clocked.ringList s.fetch.buf s.fetch.head s.fetch.count.toNat).map BufEntry.entry

structure Inv (p : Params) (image : Nat → BitVec 64) (s : FetchMem) : Prop where
  mem : s.ram.mem = image
  skid : s.ram.count = 0
  stale : s.fetch.stale = 0
  inflight : s.fetch.inflight = if s.ram.rif then 1 else 0
  tail : s.fetch.tail = s.fetch.head + BitVec.ofNat 3 s.fetch.count.toNat
  depth : s.fetch.count.toNat ≤ 8
  room : s.ram.rif = true → s.fetch.count.toNat ≤ 6
  launched : s.fetch.redirLaunched = true → s.ram.rif = true ∧ s.fetch.reqPc = s.fetch.pc
  data : s.ram.rif = true → s.ram.rdD = image (wordAddr p.imemAddrW 8 s.fetch.reqPc)
  advanced : s.ram.rif = true → s.fetch.redirLaunched = false → s.fetch.pc = nextBlock s.fetch.reqPc

/-- The buffer and the fetch address continue the stream from `a`. -/
structure Delivers (p : Params) (image : Nat → BitVec 64) (a : Word) (s : FetchMem) : Prop where
  buffer : s.buffered = stream p.imemAddrW image a s.fetch.count.toNat
  frontier : s.frontier = addrAfter p.imemAddrW a s.fetch.count.toNat

variable {p : Params} {image : Nat → BitVec 64} {s : FetchMem} {i : FetchIn}

theorem Inv.reset (boot : Word) (s : FetchMem) : Inv p s.ram.mem (s.reset boot) := by
  constructor <;> simp [FetchMem.reset, FetchQ.reset, RamQ.reset]

theorem Delivers.reset (boot : Word) (s : FetchMem) : Delivers p s.ram.mem boot (s.reset boot) := by
  constructor <;> simp [FetchMem.reset, FetchQ.reset, RamQ.reset, FetchMem.buffered, FetchMem.frontier, stream,
    Clocked.ringList]

/-! ## The handshakes -/

theorem Inv.rready (inv : Inv p image s) (rif : s.ram.rif = true) : s.fetch.rready = true := by
  have room := inv.room rif
  simp only [FetchQ.rready, Bool.or_eq_true, decide_eq_true_eq, BitVec.le_def]
  exact .inr room

/-- A read in flight lands in this cycle, and nothing else does. -/
theorem Inv.rspCap (inv : Inv p image s) : (s.cyc p i).rspCap = s.ram.rif := by
  cases rif : s.ram.rif with
  | false => simp [FetchCyc.rspCap, FetchMem.cyc, FetchMem.imemRsp, RamQ.rvalid, rif, inv.skid]
  | true => simp [FetchCyc.rspCap, FetchMem.cyc, FetchMem.imemRsp, RamQ.rvalid, rif, inv.rready rif]

theorem Inv.newCount (inv : Inv p image s) : s.ram.newCount s.fetch.rready = 0 := by
  cases rif : s.ram.rif with
  | false => simp [RamQ.newCount, RamQ.landStored, RamQ.skidPop, rif, inv.skid]
  | true => simp [RamQ.newCount, RamQ.landStored, RamQ.landConsumed, RamQ.skidPop, rif, inv.skid, inv.rready rif]

/-- The memory always takes the request. -/
theorem Inv.launch (inv : Inv p image s) : (s.cyc p i).launch = (s.cyc p i).busIssue := by
  simp [FetchCyc.launch, FetchMem.cyc, FetchMem.imemRsp, RamQ.wready, inv.newCount, imemParams]

theorem Inv.launchRead (inv : Inv p image s) :
    s.ram.launchRead (imemParams p) (s.ramIn p i) = (s.cyc p i).launch := by
  rw [inv.launch]
  have : (s.ramIn p i).reqRready = s.fetch.rready := rfl
  simp [RamQ.launchRead, RamQ.launchHs, RamQ.wready, this, inv.newCount, imemParams]
  simp [FetchMem.ramIn, FetchCyc.imemReq]

theorem Inv.rdata (inv : Inv p image s) (rif : s.ram.rif = true) :
    (s.cyc p i).imemRsp.rdata = image (wordAddr p.imemAddrW 8 s.fetch.reqPc) := by
  simp [FetchMem.cyc, FetchMem.imemRsp, RamQ.rdata, inv.skid, inv.data rif]

/-! ## What a cycle pushes -/

theorem Inv.doRsp (inv : Inv p image s) : (s.cyc p i).doRsp = s.ram.rif := by
  rw [FetchCyc.doRsp, inv.rspCap]
  simp [FetchMem.cyc, inv.stale]

/-- A landing word supplies the rest of its block, or one fault entry. -/
theorem Inv.pushed_landing (inv : Inv p image s) (rif : s.ram.rif = true) :
    (pushed (s.cyc p i)).map BufEntry.entry =
        stream p.imemAddrW image s.fetch.reqPc (s.cyc p i).pushCnt.toNat ∧
      addrAfter p.imemAddrW s.fetch.reqPc (s.cyc p i).pushCnt.toNat = nextBlock s.fetch.reqPc ∧
      0 < (s.cyc p i).pushCnt.toNat := by
  have hdo : (s.cyc p i).doRsp = true := by rw [inv.doRsp, rif]
  have hpc : (s.cyc p i).q.reqPc = s.fetch.reqPc := rfl
  have hw : (s.cyc p i).p = p := rfl
  have hd := inv.rdata (i := i) rif
  cases hout : outsideImem p.imemAddrW s.fetch.reqPc with
  | true =>
    have hcnt : (s.cyc p i).pushCnt = 1 := by
      simp [FetchCyc.pushCnt, FetchCyc.doRspData, FetchCyc.doRspFault, FetchCyc.rspFault, hdo, hpc, hw, hout]
    refine ⟨?_, ?_, ?_⟩
    · simp [pushed, hcnt, stream, entryAt_outside hout, BufEntry.entry, FetchCyc.push0, FetchCyc.push0Pc,
        FetchCyc.doRspData, FetchCyc.rspFault, hdo, hpc, hw, hout]
    · simp [hcnt, nextAddr_outside hout]
    · simp [hcnt]
  | false =>
    have hdata : (s.cyc p i).doRspData = true := by
      simp [FetchCyc.doRspData, FetchCyc.rspFault, hdo, hpc, hw, hout]
    cases hup : s.fetch.reqPc.getLsbD 2 with
    | true =>
      have htwo : (s.cyc p i).rspTwo = false := by rw [FetchCyc.rspTwo, hpc, hup]; rfl
      have hcnt : (s.cyc p i).pushCnt = 1 := by simp [FetchCyc.pushCnt, hdata, htwo]
      refine ⟨?_, ?_, ?_⟩
      · simp [pushed, hcnt, stream, entryAt_upper hout hup, BufEntry.entry, FetchCyc.push0, FetchCyc.push0Pc,
          hdata, hdo, htwo, hpc, hd]
      · simp [hcnt, nextAddr_upper hup]
      · simp [hcnt]
    | false =>
      have htwo : (s.cyc p i).rspTwo = true := by rw [FetchCyc.rspTwo, hpc, hup]; rfl
      have hcnt : (s.cyc p i).pushCnt = 2 := by simp [FetchCyc.pushCnt, hdata, htwo]
      refine ⟨?_, ?_, ?_⟩
      · rw [show (s.cyc p i).pushCnt.toNat = 2 by simp [hcnt], stream_lower p.imem_lower hout hup]
        simp [pushed, hcnt, BufEntry.entry, FetchCyc.push0, FetchCyc.push1, FetchCyc.push0Pc, FetchCyc.push1Pc,
          hdata, hdo, htwo, hpc, hd]
      · simp only [hcnt]
        exact addrAfter_lower hout hup
      · simp [hcnt]

/-- With nothing in flight the push is the fault entry of an out-of-range PC, or nothing. -/
theorem Inv.pushed_idle (inv : Inv p image s) (rif : s.ram.rif = false) :
    (pushed (s.cyc p i)).map BufEntry.entry = stream p.imemAddrW image s.fetch.pc (s.cyc p i).pushCnt.toNat ∧
      addrAfter p.imemAddrW s.fetch.pc (s.cyc p i).pushCnt.toNat =
        (if (s.cyc p i).faultPush then nextBlock s.fetch.pc else s.fetch.pc) ∧
      (s.cyc p i).pushCnt = if (s.cyc p i).faultPush then 1 else 0 := by
  have hdo : (s.cyc p i).doRsp = false := by rw [inv.doRsp, rif]
  have hcnt : (s.cyc p i).pushCnt = if (s.cyc p i).faultPush then 1 else 0 := by
    simp [FetchCyc.pushCnt, FetchCyc.doRspData, FetchCyc.doRspFault, hdo]
  have hpc : (s.cyc p i).q.pc = s.fetch.pc := rfl
  refine ⟨?_, ?_, hcnt⟩ <;> cases hf : (s.cyc p i).faultPush with
  | false => simp [hcnt, hf, pushed, stream]
  | true =>
    have hout : outsideImem p.imemAddrW s.fetch.pc = true := by
      simp only [FetchCyc.faultPush, Bool.and_eq_true] at hf
      exact hf.1.1.1
    simp [hcnt, hf, pushed, stream, entryAt_outside hout, nextAddr_outside hout, BufEntry.entry, FetchCyc.push0,
      FetchCyc.push0Pc, FetchCyc.doRspData, hdo, hpc]

/-! ## The counters -/

/-- The buffer's accounts against this memory. -/
theorem Inv.counts (inv : Inv p image s) : s.fetch.Counts := by
  have depth := inv.depth
  have owed : s.fetch.inflight.toNat = s.ram.rif.toNat := by
    rw [inv.inflight]
    cases s.ram.rif <;> rfl
  refine ⟨⟨?_, ?_, ?_⟩, inv.tail⟩
  · change s.fetch.count.toNat + 2 * s.fetch.inflight.toNat ≤ 8
    rw [owed]
    cases rif : s.ram.rif with
    | false => exact depth
    | true =>
      have room := inv.room rif
      rw [Bool.toNat_true]
      omega
  · change s.fetch.inflight.toNat ≤ 2
    rw [owed]
    cases s.ram.rif <;> decide
  · change s.fetch.stale.toNat ≤ _
    rw [inv.stale]
    exact Nat.zero_le _

theorem Inv.rsp_owed (inv : Inv p image s) (rsp : (s.cyc p i).imemRsp.rvalid = true) :
    0 < (s.cyc p i).q.inflight.toNat := by
  have rif : s.ram.rif = true := by simpa [FetchMem.cyc, FetchMem.imemRsp, RamQ.rvalid, inv.skid] using rsp
  change 0 < s.fetch.inflight.toNat
  rw [inv.inflight, rif]
  decide

/-- It answers only what is on its way. -/
theorem Inv.ruled (inv : Inv p image s) (pop2 : i.fePop2 = true → s.fetch.fePort.nextValid = true) :
    (s.cyc p i).Ruled := ⟨inv.rsp_owed, pop2⟩

theorem Inv.push_fits (inv : Inv p image s) : s.fetch.count.toNat + (s.cyc p i).pushCnt.toNat ≤ 8 :=
  FetchCyc.push_fits (c := s.cyc p i) inv.counts inv.rsp_owed

/-! ## What a cycle launches -/

/-- A redirect cycle launches at its target or not at all. -/
theorem issueAddr_redirect {c : FetchCyc} (red : c.redirect = true) (launch : c.busIssue = true) :
    c.incycleLaunch = true ∧ c.issueAddr = c.redirectAddr := by
  have hhold : c.execRedirHold = false := by
    simp only [FetchCyc.busIssue, Bool.and_eq_true, Bool.not_eq_true'] at launch
    exact launch.2
  cases hp : c.p.execRedirIncycle with
  | true => simp [FetchCyc.incycleLaunch, FetchCyc.issueAddr, FetchCyc.incycleAddr, hp, red]
  | false =>
    have hbr : c.branchValid = false := by simpa [FetchCyc.execRedirHold, hp] using hhold
    have hpred : c.predRedirect = true := by simpa [FetchCyc.redirect, hbr] using red
    simp [FetchCyc.incycleLaunch, FetchCyc.issueAddr, FetchCyc.incycleAddr, FetchCyc.redirectAddr, hp, hbr, hpred]

theorem issueAddr_quiet {c : FetchCyc} (quiet : c.redirect = false) :
    c.issueAddr = if c.q.redirLaunched then nextBlock c.q.pc else c.q.pc := by
  simp [FetchCyc.issueAddr, FetchCyc.incycleLaunch_quiet quiet, FetchCyc.pcNextBlock]

theorem nextBlock_nextBlock (a : Word) : nextBlock (nextBlock a) = blockOf a + 16#32 := by
  rw [show nextBlock (nextBlock a) = blockOf (nextBlock a) + 8#32 from rfl, blockOf_nextBlock, BitVec.add_assoc]
  rfl

/-! ## One edge -/

theorem Inv.next_rif (inv : Inv p image s) : (s.next p i).ram.rif = (s.cyc p i).launch := inv.launchRead

theorem Inv.next_rdD (inv : Inv p image s) (launch : (s.cyc p i).launch = true) :
    (s.next p i).ram.rdD = image (wordAddr p.imemAddrW 8 (s.cyc p i).issueAddr) := by
  simp only [FetchMem.next, RamQ.next, inv.launchRead, launch, inv.mem, if_true]
  rfl

/-- What holds after any edge, redirect or not. -/
theorem Inv.next_common (inv : Inv p image s) :
    (s.next p i).ram.mem = image ∧ (s.next p i).ram.count = 0 ∧ (s.next p i).fetch.stale = 0 ∧
      (s.next p i).fetch.inflight = if (s.next p i).ram.rif then 1 else 0 := by
  refine ⟨?_, ?_, ?_, ?_⟩
  · simp [FetchMem.next, RamQ.next, imemParams, inv.mem]
  · exact inv.newCount
  · have hq : (s.cyc p i).q = s.fetch := rfl
    simp only [FetchMem.next, FetchCyc.next, inv.rspCap, hq, inv.inflight, inv.stale]
    cases s.ram.rif <;> simp
  · have hq : (s.cyc p i).q = s.fetch := rfl
    rw [inv.next_rif]
    simp only [FetchMem.next, FetchCyc.next, inv.rspCap, hq, inv.inflight]
    cases s.ram.rif <;> cases (s.cyc p i).launch <;> simp

/-- A redirect empties the buffer and restarts the stream at its target. -/
theorem Inv.next_redirect (inv : Inv p image s) (red : (s.cyc p i).redirect = true) :
    Inv p image (s.next p i) ∧ Delivers p image (s.cyc p i).redirectAddr (s.next p i) := by
  obtain ⟨hmem, hskid, hstale, hinf⟩ := inv.next_common (i := i)
  have hcount : (s.next p i).fetch.count = 0 := by simp [FetchMem.next, FetchCyc.next, red]
  have hpc : (s.next p i).fetch.pc = (s.cyc p i).redirectAddr := by simp [FetchMem.next, FetchCyc.next, red]
  have hreq : (s.cyc p i).launch = true → (s.next p i).fetch.reqPc = (s.cyc p i).redirectAddr := by
    intro hl
    have := (issueAddr_redirect red (by rw [← inv.launch, hl])).2
    simp [FetchMem.next, FetchCyc.next, hl, this]
  have hredir : (s.next p i).fetch.redirLaunched = (s.cyc p i).launch := by
    cases hl : (s.cyc p i).launch with
    | false => simp [FetchMem.next, FetchCyc.next, hl]
    | true =>
      have := (issueAddr_redirect red (by rw [← inv.launch, hl])).1
      simp [FetchMem.next, FetchCyc.next, hl, this]
  constructor
  · refine ⟨hmem, hskid, hstale, hinf, ?_, ?_, ?_, ?_, ?_, ?_⟩
    · rw [hcount]
      simp [FetchMem.next, FetchCyc.next, red]
    · simp [hcount]
    · simp [hcount]
    · intro hl
      rw [hredir] at hl
      exact ⟨by rw [inv.next_rif, hl], by rw [hreq hl, hpc]⟩
    · intro hr
      rw [inv.next_rif] at hr
      rw [inv.next_rdD hr, hreq hr, (issueAddr_redirect red (by rw [← inv.launch, hr])).2]
    · intro hr hn
      rw [inv.next_rif] at hr
      rw [hredir, hr] at hn
      exact absurd hn (by simp)
  · refine ⟨?_, ?_⟩
    · simp [FetchMem.buffered, hcount, Clocked.ringList, stream]
    · rw [hcount, FetchMem.frontier, inv.next_rif]
      split
      · rename_i hl
        exact hreq hl
      · exact hpc

/-- Without a redirect the fetch address stays one push ahead of the buffer. -/
theorem Inv.next_frontier (inv : Inv p image s) (quiet : (s.cyc p i).redirect = false) :
    (pushed (s.cyc p i)).map BufEntry.entry = stream p.imemAddrW image s.frontier (s.cyc p i).pushCnt.toNat ∧
      (s.next p i).frontier = addrAfter p.imemAddrW s.frontier (s.cyc p i).pushCnt.toNat ∧
      ((s.next p i).ram.rif = true → (s.next p i).fetch.pc = nextBlock (s.next p i).fetch.reqPc) := by
  have hq : (s.cyc p i).q = s.fetch := rfl
  have hissue := issueAddr_quiet quiet
  rw [hq] at hissue
  rw [FetchMem.frontier, FetchMem.frontier, inv.next_rif]
  cases rif : s.ram.rif with
  | true =>
    obtain ⟨hpush, haddr, hpos⟩ := inv.pushed_landing (i := i) rif
    have hfault : (s.cyc p i).faultPush = false := by simp [FetchCyc.faultPush, inv.rspCap, rif]
    refine ⟨hpush, ?_, ?_⟩
    · rw [if_pos rfl, haddr]
      cases hr : s.fetch.redirLaunched with
      | true =>
        have hsame := (inv.launched hr).2
        rw [hr, if_pos rfl] at hissue
        cases hl : (s.cyc p i).launch <;>
          simp [FetchMem.next, FetchCyc.next, FetchCyc.pcNextBlock, quiet, hfault, hq, hr, hl, hissue, hsame]
      | false =>
        have hadv := inv.advanced rif hr
        simp only [hr, Bool.false_eq_true, if_false] at hissue
        cases hl : (s.cyc p i).launch <;>
          simp [FetchMem.next, FetchCyc.next, quiet, hfault, hq, hr, hl, hissue, hadv]
    · intro hl
      cases hr : s.fetch.redirLaunched with
      | true =>
        rw [hr, if_pos rfl] at hissue
        simp [FetchMem.next, FetchCyc.next, quiet, hfault, hq, hr, hl, hissue, FetchCyc.pcNextBlock2,
          nextBlock_nextBlock]
      | false =>
        simp only [hr, Bool.false_eq_true, if_false] at hissue
        simp [FetchMem.next, FetchCyc.next, quiet, hfault, hq, hr, hl, hissue, FetchCyc.pcNextBlock]
  | false =>
    obtain ⟨hpush, haddr, -⟩ := inv.pushed_idle (i := i) rif
    have hr : s.fetch.redirLaunched = false := by
      by_contra hc
      have := (inv.launched (by simpa using hc)).1
      simp [rif] at this
    simp only [hr, Bool.false_eq_true, if_false] at hissue
    refine ⟨hpush, ?_, ?_⟩
    · simp only [Bool.false_eq_true, if_false, haddr]
      cases hf : (s.cyc p i).faultPush with
      | true =>
        have hl : (s.cyc p i).launch = false := by rw [inv.launch, FetchCyc.launch_excludes_faultPush quiet hf]
        simp [FetchMem.next, FetchCyc.next, quiet, hf, hq, hl, FetchCyc.pcNextBlock]
      | false =>
        cases hl : (s.cyc p i).launch <;> simp [FetchMem.next, FetchCyc.next, quiet, hf, hq, hr, hl, hissue]
    · intro hl
      have hf : (s.cyc p i).faultPush = false := by
        by_contra hc
        have := FetchCyc.launch_excludes_faultPush quiet (by simpa using hc)
        rw [← inv.launch, hl] at this
        simp at this
      simp [FetchMem.next, FetchCyc.next, quiet, hf, hq, hr, hl, hissue, FetchCyc.pcNextBlock]

/-- Without a redirect the stream moves along by what decode popped. -/
theorem Inv.next_quiet (inv : Inv p image s) {a : Word} (del : Delivers p image a s)
    (quiet : (s.cyc p i).redirect = false) (pop2 : i.fePop2 = true → s.fetch.fePort.nextValid = true) :
    Inv p image (s.next p i) ∧
      Delivers p image (addrAfter p.imemAddrW a (s.cyc p i).bufPopCnt.toNat) (s.next p i) := by
  obtain ⟨hmem, hskid, hstale, hinf⟩ := inv.next_common (i := i)
  obtain ⟨hpush, hfront, hadv⟩ := inv.next_frontier (i := i) quiet
  have ruled := inv.ruled (i := i) pop2
  have counts : (s.next p i).fetch.Counts := FetchCyc.counts_next (c := s.cyc p i) inv.counts ruled
  have hpop : (s.cyc p i).bufPopCnt.toNat ≤ s.fetch.count.toNat := FetchCyc.bufPopCnt_le ruled.pop2
  have hcount : (s.next p i).fetch.count.toNat =
      s.fetch.count.toNat + (s.cyc p i).pushCnt.toNat - (s.cyc p i).bufPopCnt.toNat :=
    FetchCyc.count_next quiet inv.push_fits hpop
  have depth := counts.depth
  constructor
  · refine ⟨hmem, hskid, hstale, hinf, counts.tail, ?_, ?_, ?_, ?_, fun hr _ => hadv hr⟩
    · omega
    · intro hr
      have owed : (s.next p i).fetch.inflight.toNat = 1 := by
        rw [hinf, hr]
        rfl
      omega
    · intro hl
      simp [FetchMem.next, FetchCyc.next, FetchCyc.incycleLaunch_quiet quiet] at hl
    · intro hr
      rw [inv.next_rif] at hr
      rw [inv.next_rdD hr]
      simp [FetchMem.next, FetchCyc.next, hr]
  · constructor
    · have hbuf : (s.next p i).buffered =
          (s.buffered ++ (pushed (s.cyc p i)).map BufEntry.entry).drop (s.cyc p i).bufPopCnt.toNat := by
        have slots := FetchCyc.next_slots (c := s.cyc p i) inv.counts ruled quiet
        rw [FetchMem.buffered, FetchMem.buffered, ← List.map_append, ← List.map_drop]
        exact congrArg (List.map BufEntry.entry) slots
      rw [hbuf, hpush, del.buffer, del.frontier, ← stream_add, drop_stream, hcount]
    · rw [hfront, del.frontier, hcount, ← addrAfter_add, ← addrAfter_add, Nat.add_sub_cancel' (by omega)]

/-! ## Progress -/

theorem valid_iff (q : FetchQ) : q.fePort.valid = true ↔ 0 < q.count.toNat := by
  have : q.count = 0 ↔ q.count.toNat = 0 := by rw [← BitVec.toNat_inj]; rfl
  simp only [FetchQ.fePort, bne_iff_ne, ne_eq, this]
  omega

theorem Inv.count_next_quiet (inv : Inv p image s) (quiet : (s.cyc p i).redirect = false)
    (empty : s.fetch.count = 0) : (s.next p i).fetch.count.toNat = (s.cyc p i).pushCnt.toNat := by
  have hq : (s.cyc p i).q = s.fetch := rfl
  have hpop : (s.cyc p i).bufPopCnt.toNat = 0 := by simp [FetchCyc.bufPopCnt, hq, empty]
  have := FetchCyc.count_next quiet (by rw [hq]; exact inv.push_fits) (by omega)
  rw [hq, hpop, empty] at this
  simpa [FetchMem.next] using this

/-- A word in flight shows at the head one cycle later. -/
theorem Inv.lands (inv : Inv p image s) (quiet : (s.cyc p i).redirect = false) (empty : s.fetch.count = 0)
    (rif : s.ram.rif = true) : (s.next p i).fetch.fePort.valid = true := by
  rw [valid_iff, inv.count_next_quiet quiet empty]
  exact (inv.pushed_landing rif).2.2

/-- An idle stage with an empty buffer launches or pushes the fault of its PC. -/
theorem Inv.starts (inv : Inv p image s) (quiet : (s.cyc p i).redirect = false) (empty : s.fetch.count = 0)
    (rif : s.ram.rif = false) : (s.next p i).fetch.fePort.valid = true ∨ (s.next p i).ram.rif = true := by
  have hq : (s.cyc p i).q = s.fetch := rfl
  have hinf : s.fetch.inflight = 0 := by rw [inv.inflight, rif]; rfl
  have havail : (s.cyc p i).available.toNat = 8 := by
    rw [FetchCyc.available_eq (c := s.cyc p i) inv.counts, hq, hinf, empty]
    rfl
  cases hout : (s.cyc p i).pcFault with
  | true =>
    left
    have hf : (s.cyc p i).faultPush = true := by
      simp [FetchCyc.faultPush, hout, inv.rspCap, rif, hq, hinf, BitVec.le_def, havail]
    rw [valid_iff, inv.count_next_quiet quiet empty, (inv.pushed_idle rif).2.2, hf]
    simp
  | false =>
    right
    have hbr : (s.cyc p i).branchValid = false := by
      simp only [FetchCyc.redirect, Bool.or_eq_false_iff] at quiet
      exact quiet.1
    rw [inv.next_rif, inv.launch]
    simp [FetchCyc.busIssue, FetchCyc.availableIssue, FetchCyc.execRedirHold, hout, hbr, quiet, hq, hinf,
      BitVec.le_def, havail]

/-! ## Runs -/

/-- The stage with what an observer of its inputs and head ports knows: the last redirect target
(the boot address before the first) and the entries consumed since. -/
structure Observed where
  mem : FetchMem
  target : Word
  consumed : List Entry

/-- The redirect of a cycle: execute's goes before the one that decode predicts. -/
def redirects (i : FetchIn) : Option Word :=
  if i.branchValid then some i.branchAddr else if i.predValid then some i.predAddr else none

/-- The entries the head ports show. -/
def headEntry (fe : FePort) : Entry := { instr := fe.instr, pc := fe.pc, fault := fe.fault }
def nextEntry (fe : FePort) : Entry := { instr := fe.nextInstr, pc := fe.nextPc, fault := fe.nextFault }

/-- What decode takes off the head ports when it does not stall: the head, and with a double pop
the entry behind it. -/
def taken (s : FetchMem) (i : FetchIn) : List Entry :=
  if s.fetch.fePort.valid && !i.stall then
    if i.fePop2 then [headEntry s.fetch.fePort, nextEntry s.fetch.fePort] else [headEntry s.fetch.fePort]
  else []

def Observed.next (p : Params) (o : Observed) (i : FetchIn) : Observed where
  mem := o.mem.next p i
  target := (redirects i).getD o.target
  consumed := if (redirects i).isSome then [] else o.consumed ++ taken o.mem i

def Observed.reset (boot : Word) (s : FetchMem) : Observed := { mem := s.reset boot, target := boot, consumed := [] }

/-- Decode asks for a double pop only with two entries showing. -/
def Pop2Ok (s : FetchMem) (i : FetchIn) : Prop := i.fePop2 = true → s.fetch.fePort.nextValid = true

theorem redirects_some {a : Word} (asked : redirects i = some a) :
    (s.cyc p i).redirect = true ∧ (s.cyc p i).redirectAddr = a := by
  rw [redirects] at asked
  rw [FetchCyc.redirect, FetchCyc.predRedirect, FetchCyc.redirectAddr]
  change (i.branchValid || (i.predValid && !i.branchValid)) = true ∧
    (if i.branchValid then i.branchAddr else i.predAddr) = a
  cases branch : i.branchValid <;> cases pred : i.predValid <;> simp_all

theorem redirects_none (quiet : redirects i = none) : (s.cyc p i).redirect = false := by
  rw [redirects] at quiet
  rw [FetchCyc.redirect, FetchCyc.predRedirect]
  change (i.branchValid || (i.predValid && !i.branchValid)) = false
  cases branch : i.branchValid <;> cases pred : i.predValid <;> simp_all

/-- The stage pops what decode takes. -/
theorem taken_eq : taken s i =
    (Clocked.ringList s.fetch.buf s.fetch.head (s.cyc p i).bufPopCnt.toNat).map BufEntry.entry := by
  have pops : (s.cyc p i).bufPopCnt =
      if s.fetch.fePort.valid && !i.stall then (if i.fePop2 then 2 else 1) else 0 := rfl
  rw [pops, taken]
  cases s.fetch.fePort.valid && !i.stall with
  | false => rfl
  | true => cases i.fePop2 <;> rfl

theorem length_taken : (taken s i).length = (s.cyc p i).bufPopCnt.toNat := by
  rw [taken_eq, List.length_map, Clocked.length_ringList]

/-- What has been consumed and what is buffered is the stream from the last target. -/
structure Observed.Inv (p : Params) (image : Nat → BitVec 64) (o : Observed) : Prop where
  mem : FetchMem.Inv p image o.mem
  delivers : Delivers p image (addrAfter p.imemAddrW o.target o.consumed.length) o.mem
  consumed : o.consumed = stream p.imemAddrW image o.target o.consumed.length

theorem Observed.inv_next {o : Observed} (inv : o.Inv p image) (ok : Pop2Ok o.mem i) : (o.next p i).Inv p image := by
  cases asked : redirects i with
  | some a =>
    obtain ⟨red, addr⟩ := redirects_some (p := p) (s := o.mem) asked
    obtain ⟨hinv, hdel⟩ := inv.mem.next_redirect red
    rw [Observed.next, asked]
    exact ⟨hinv, addr ▸ hdel, rfl⟩
  | none =>
    obtain ⟨hinv, hdel⟩ := inv.mem.next_quiet inv.delivers (redirects_none asked) ok
    have hpop := FetchCyc.bufPopCnt_le (c := o.mem.cyc p i) ok
    have hlen := length_taken (p := p) (s := o.mem) (i := i)
    have htaken : taken o.mem i =
        stream p.imemAddrW image (addrAfter p.imemAddrW o.target o.consumed.length)
          (o.mem.cyc p i).bufPopCnt.toNat := by
      rw [taken_eq (p := p), ← Clocked.ringList_take _ _ hpop, List.map_take, ← take_stream _ hpop]
      exact congrArg _ inv.delivers.buffer
    rw [Observed.next, asked]
    refine ⟨hinv, ?_, ?_⟩ <;>
      simp only [Option.getD_none, Option.isSome_none, Bool.false_eq_true, if_false, List.length_append, hlen]
    · rw [addrAfter_add]
      exact hdel
    · rw [stream_add, ← inv.consumed, htaken]

theorem Observed.inv_reset (boot : Word) (s : FetchMem) : (Observed.reset boot s).Inv p s.ram.mem :=
  ⟨Inv.reset boot s, Delivers.reset boot s, rfl⟩

theorem Observed.inv_run {boot : Word} {s : FetchMem} {i : Nat → FetchIn}
    (ok : ∀ n, Pop2Ok (Clocked.run (Observed.next p) (.reset boot s) i n).mem (i n)) (n : Nat) :
    (Clocked.run (Observed.next p) (.reset boot s) i n).Inv p s.ram.mem :=
  Clocked.run_invariant (Observed.Inv p s.ram.mem) (fun o x => Pop2Ok o.mem x) (inv_reset boot s)
    (fun _ _ => inv_next) n (fun m _ => ok m)

theorem Delivers.head {a : Word} (del : Delivers p image a s) (valid : s.fetch.fePort.valid = true) :
    headEntry s.fetch.fePort = entryAt p.imemAddrW image a := by
  rw [valid_iff] at valid
  obtain ⟨n, hn⟩ := Nat.exists_eq_add_of_le' valid
  have := del.buffer
  rw [FetchMem.buffered, hn, Clocked.ringList, stream, List.map_cons, List.cons.injEq] at this
  exact this.1

theorem Delivers.second {a : Word} (del : Delivers p image a s) (valid : s.fetch.fePort.nextValid = true) :
    nextEntry s.fetch.fePort = entryAt p.imemAddrW image (nextAddr p.imemAddrW a) := by
  have two : 2 ≤ s.fetch.count.toNat := by simpa [FetchQ.fePort, BitVec.le_def] using valid
  obtain ⟨n, hn⟩ := Nat.exists_eq_add_of_le' two
  have := del.buffer
  rw [FetchMem.buffered, hn, Clocked.ringList, Clocked.ringList, stream, stream, List.map_cons, List.map_cons,
    List.cons.injEq, List.cons.injEq] at this
  exact this.2.1

/-- Fetch delivers exactly the program: at every cycle of every run from reset, the
entries consumed since the last redirect are the stream of its target, the head
ports continue it, and an entry shows within two cycles without a redirect. -/
theorem fetch_delivers (p : Params) (boot : Word) (s : FetchMem) (i : Nat → FetchIn)
    (ok : ∀ n, Pop2Ok (Clocked.run (Observed.next p) (.reset boot s) i n).mem (i n)) (n : Nat) :
    let o := Clocked.run (Observed.next p) (.reset boot s) i
    let w := p.imemAddrW
    let front := addrAfter w (o n).target (o n).consumed.length
    (o n).consumed = stream w s.ram.mem (o n).target (o n).consumed.length ∧
      (o n).mem.buffered = stream w s.ram.mem front (o n).mem.fetch.count.toNat ∧
      ((o n).mem.fetch.fePort.valid = true → headEntry (o n).mem.fetch.fePort = entryAt w s.ram.mem front) ∧
      ((o n).mem.fetch.fePort.nextValid = true →
        nextEntry (o n).mem.fetch.fePort = entryAt w s.ram.mem (nextAddr w front)) ∧
      (redirects (i n) = none → redirects (i (n + 1)) = none →
        (o n).mem.fetch.fePort.valid = true ∨ (o (n + 1)).mem.fetch.fePort.valid = true ∨
          (o (n + 2)).mem.fetch.fePort.valid = true) := by
  intro o w front
  have inv := Observed.inv_run ok n
  refine ⟨inv.consumed, inv.delivers.buffer, inv.delivers.head, inv.delivers.second, ?_⟩
  intro none none'
  have quiet := redirects_none (p := p) (s := (o n).mem) none
  have quiet' := redirects_none (p := p) (s := (o (n + 1)).mem) none'
  rw [or_iff_not_imp_left, or_iff_not_imp_left]
  intro empty empty'
  have hcount : ∀ q : FetchQ, ¬ q.fePort.valid = true → q.count = 0 := fun q h => by
    simpa [FetchQ.fePort] using h
  have rif : (o n).mem.ram.rif = false := by
    by_contra hc
    exact empty' (inv.mem.lands quiet (hcount _ empty) (by simpa using hc))
  have rif' : (o (n + 1)).mem.ram.rif = true :=
    (inv.mem.starts quiet (hcount _ empty) rif).resolve_left empty'
  exact (Observed.inv_run ok (n + 1)).mem.lands quiet' (hcount _ empty') rif'

/-- Block `k` holds the words `2k` and `2k + 1`, counted from 100. -/
def counted (k : Nat) : BitVec 64 := BitVec.ofNat 32 (2 * k + 101) ++ BitVec.ofNat 32 (2 * k + 100)

/-- Decode pops two entries in cycle 4, stalls in cycle 5, and redirects to the upper half of a
block in cycle 7; execute redirects to the last word of the I-mem in cycle 12, when decode does
too, and behind it in cycle 17. -/
def turning (n : Nat) : FetchIn where
  stall := n == 5
  fePop2 := n == 4
  predValid := n == 7 || n == 12
  predAddr := if n == 7 then 0x106 else 0x200
  branchValid := n == 12 || n == 17
  branchAddr := if n == 12 then 0x3FFC else 0x5000
  bpPush := FetchIn.sequential.bpPush

theorem fetch_delivers_turning :
    let o := Clocked.run (Observed.next .board) (.reset 0 (.ofImage counted)) turning
    (o 7).consumed = [⟨100, 0, false⟩, ⟨101, 4, false⟩, ⟨102, 8, false⟩, ⟨103, 12, false⟩, ⟨104, 16, false⟩] ∧
      (o 12).consumed = [⟨165, 0x106, false⟩, ⟨166, 0x108, false⟩, ⟨167, 0x10C, false⟩] ∧
      (o 17).consumed = [⟨4195, 0x3FFC, false⟩, ⟨0, 0x4000, true⟩] ∧
      (o 21).consumed = [⟨0, 0x5000, true⟩, ⟨0, 0x5008, true⟩] := by
  have ok : ∀ n,
      Pop2Ok (Clocked.run (Observed.next .board) (.reset 0 (.ofImage counted)) turning n).mem (turning n) := by
    intro n pop
    obtain rfl : n = 4 := by simpa [turning] using pop
    decide +kernel
  have delivers := fun n => (fetch_delivers .board 0 (.ofImage counted) turning ok n).1
  exact ⟨(delivers 7).trans (by decide +kernel), (delivers 12).trans (by decide +kernel),
    (delivers 17).trans (by decide +kernel), (delivers 21).trans (by decide +kernel)⟩

end FetchMem

end YarvUc
