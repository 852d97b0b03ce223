import YarvUc.Fetch.Delivery
import YarvUc.Pipeline.Words
import YarvUc.Rtl.Cpu

/-!
# Program order

The CPU next to the address of the oldest instruction, in program order, that has
neither retired nor trapped. `Ordered.Inv` ties the pieces of the pipeline to it: the
word in D/E is the instruction of that address on the current registers, and what
fetch delivers and decode holds has its predicted successor next. `Flow` is all that
one cycle can do to the order.
-/

namespace YarvUc

/-! ## Successors -/

namespace DeT

/-- The successor in program order. -/
def nextPc (de : DeT) : Word := if de.branchTaken then de.branchTarget else de.pcLink

/-- The successor the front end follows. -/
def predNext (de : DeT) : Word := if de.predT then de.predTarget else de.pcLink

variable {de : DeT}

theorem branchTaken_plain (plain : de.flags.branch = false) : de.branchTaken = false := by
  have : de.branchType = .NONE := by simpa [DeT.flags] using plain
  simp [branchTaken, this]

/-- A transfer that was predicted right is followed right. -/
theorem predNext_eq (dir : de.dirMispredict = false) (tgt : de.tgtMispredict = false) : de.predNext = de.nextPc := by
  unfold dirMispredict tgtMispredict at *
  cases pred : de.predT with
  | false =>
    have taken : de.branchTaken = false := by simpa [pred] using dir
    simp [predNext, nextPc, pred, taken]
  | true =>
    have taken : de.branchTaken = true := by simpa [pred] using dir
    have target : de.branchTarget = de.predTarget := by simpa [pred, taken] using tgt
    simp [predNext, nextPc, pred, taken, target]

theorem pcLink_eq : de.pcLink = de.pc + lengthOf de.isCompressed := rfl

/-! A prediction changes nothing execute computes. -/

@[simp] theorem base_valid : de.base.valid = de.valid := rfl
@[simp] theorem base_pc : de.base.pc = de.pc := rfl
@[simp] theorem base_isCompressed : de.base.isCompressed = de.isCompressed := rfl
@[simp] theorem base_exception : de.base.exception = de.exception := rfl
@[simp] theorem base_flags : de.base.flags = de.flags := rfl
@[simp] theorem base_nextPc : de.base.nextPc = de.nextPc := rfl

end DeT

/-! ## Even successors -/

/-- Direct targets are even. -/
def Ctrl.EvenOffset (c : Ctrl) : Prop := c.branchType = .NONE ∨ c.branchType = .JALR ∨ c.imm.getLsbD 0 = false

theorem even_immB (w : Word) : (immB w).getLsbD 0 = false := by
  simp only [immB, BitVec.getLsbD_signExtend, BitVec.getLsbD_append]
  rfl

theorem even_immJ (w : Word) : (immJ w).getLsbD 0 = false := by
  simp only [immJ, BitVec.getLsbD_signExtend, BitVec.getLsbD_append]
  rfl

theorem evenOffset_uniform (w : Word) : (decodeUniform w).EvenOffset := by
  by_cases none : (decodeUniform w).branchType = .NONE
  · exact .inl none
  by_cases jalr : (decodeUniform w).branchType = .JALR
  · exact .inr (.inl jalr)
  refine .inr (.inr ?_)
  rw [imm_direct none jalr]
  split
  · exact even_immJ w
  · exact even_immB w

theorem even_add {a b : Word} (ha : a.getLsbD 0 = false) (hb : b.getLsbD 0 = false) : (a + b).getLsbD 0 = false := by
  rw [getLsbD_zero_iff, decide_eq_false_iff_not] at *
  rw [BitVec.toNat_add]
  omega

theorem even_lengthOf (c : Bool) : (lengthOf c).getLsbD 0 = false := by cases c <;> rfl

/-- An instruction at an even address has an even successor. -/
theorem even_nextPc (regs : BitVec 5 → Word) {pc : Word} (even : pc.getLsbD 0 = false) (w : Word) (c : Bool) :
    (decodeWord regs pc w c).nextPc.getLsbD 0 = false := by
  have link : (decodeWord regs pc w c).pcLink.getLsbD 0 = false := even_add even (even_lengthOf c)
  unfold DeT.nextPc
  split
  · unfold DeT.branchTarget
    split
    · rw [BitVec.getLsbD_and]
      simp
    · rename_i taken direct
      refine even_add even ?_
      have ok := evenOffset_uniform w
      simp only [decodeWord] at direct
      cases ill : (decodeUniform w).decIllegal with
      | true => simp [DeT.branchTaken, decodeWord, ill] at taken
      | false =>
        rcases ok with none | jalr | imm
        · simp [DeT.branchTaken, decodeWord, none] at taken
        · simp [ill, jalr] at direct
        · exact imm
  · exact link

/-! ## The CPU in program order -/

namespace Cpu

variable (p : Params) (m : DmemParams) (s : Cpu) (i : CpuIn)

/-- The oldest address after this cycle: a handler's or mret's, a retired word's successor, or the same. -/
def pcNext (pc : Word) : Word :=
  if (s.exec p m i).trapRedirectReq then s.trapRedirectAddr p m i
  else if (s.exec p m i).opCommits then s.de.nextPc
  else pc

end Cpu

/-- The CPU with the address of the oldest instruction that has neither retired nor trapped. -/
structure Ordered where
  cpu : Cpu
  pc : Word

namespace Ordered

def start (boot : Word) (s : Cpu) : Ordered := { cpu := s.start boot, pc := boot }

def next (p : Params) (m : DmemParams) (o : Ordered) (i : CpuIn) : Ordered :=
  { cpu := o.cpu.next p m i, pc := o.cpu.pcNext p m i o.pc }

/-- The address the front end goes on from. -/
def frontPc (o : Ordered) : Word := if o.cpu.de.valid then o.cpu.de.predNext else o.pc

/-- The pipeline at an address in program order. -/
structure Inv (p : Params) (m : DmemParams) (image : ℕ → BitVec 64) (o : Ordered) : Prop where
  fetch : FetchMem.Inv p image o.cpu.fetch
  lsu : o.cpu.lsu.Inv p m
  even : o.pc.getLsbD 0 = false
  word : o.cpu.de.valid = true → o.cpu.de.base = (fetchAt p.imemAddrW image o.pc).word o.cpu.rf.read
  pred : o.cpu.de.valid = true → o.cpu.de.predT = true → o.cpu.de.flags.branch = true
  /-- Nothing is asked of the front end behind a word that excepts. -/
  front : ∃ a, FetchMem.Delivers p image a o.cpu.fetch ∧ ((o.cpu.de.valid = true → o.cpu.de.exception = false) →
    Front p.imemAddrW image o.frontPc o.cpu.lsu.core.dec.held a)
  /-- A second WFI that arrives while the pipe sleeps takes the wake address over. -/
  sleep : o.cpu.lsu.core.ex.wfiHalt = true → o.cpu.lsu.core.ex.wfiNextPc = o.pc ∨
    (o.cpu.de.valid && o.cpu.de.isWfiOp) = true ∧ o.cpu.lsu.core.ex.wfiNextPc = o.cpu.de.pcLink

end Ordered

/-! ## What a cycle does to the order -/

theorem DeT.Is.nonexc {de : DeT} {k : OpKind} (is : de.Is k) (plain : k ≠ .exc) : de.exception = false := by
  rw [is.exception]
  cases k <;> first | rfl | exact absurd rfl plain

namespace ExCyc

variable {e : ExCyc}

/-- A word that retires is valid and does not except. -/
theorem Outcome.retires (h : e.Outcome) (commit : e.opCommits = true) :
    e.de.valid = true ∧ e.de.exception = false := by
  cases h with
  | bubble _ _ _ _ _ inert => rw [inert.commit] at commit; cases commit
  | asleep _ _ _ _ _ inert => rw [inert.commit] at commit; cases commit
  | trap _ _ _ _ _ inert => rw [inert.commit] at commit; cases commit
  | interrupt _ _ _ _ _ _ _ inert => rw [inert.commit] at commit; cases commit
  | hold _ _ _ _ inert => rw [inert.commit] at commit; cases commit
  | commit k valid is nonexc => exact ⟨valid, is.nonexc nonexc⟩

theorem branchAddrO_redirect (redirect : e.trapRedirectReq = true) (target : Word) : e.branchAddrO target = target := by
  simp [branchAddrO, redirect]

/-- What one cycle does to the order of the instructions. -/
inductive Flow (e : ExCyc) (target pc : Word) : Word → Prop
  /-- The front end restarts. -/
  | redirect (flush : e.flushO = true) : Flow e target pc (e.branchAddrO target)
  /-- The word in D/E stays. -/
  | stay (kept : e.flushO = false) (stall : e.stallO = true) (wb : e.wbEn = false) : Flow e target pc pc
  /-- There is none. -/
  | empty (kept : e.flushO = false) (running : e.stallO = false) (wb : e.wbEn = false) (bubble : e.de.valid = false) :
      Flow e target pc pc
  /-- It retires and its predicted successor is its successor. -/
  | pass (kept : e.flushO = false) (running : e.stallO = false) (nonexc : e.de.exception = false)
      (wasValid : e.de.valid = true) (followed : e.de.predNext = e.de.nextPc) : Flow e target pc e.de.nextPc

theorem flow_redirect (redirect : e.trapRedirectReq = true) (target pc : Word) : e.Flow target pc target := by
  have flow : e.Flow target pc (e.branchAddrO target) := .redirect (flush_redirect redirect)
  rwa [branchAddrO_redirect redirect] at flow

theorem Outcome.flow (h : e.Outcome) (pred : e.de.valid = true → e.de.predT = true → e.de.flags.branch = true)
    (target pc : Word) : e.Flow target pc
      (if e.trapRedirectReq then target else if e.opCommits then e.de.nextPc else pc) := by
  cases h with
  | bubble valid awake idle stall calm inert bus settles halt =>
    rw [redirect_calm calm, inert.commit]
    exact .empty (flush_calm calm inert.train) stall inert.wb valid
  | asleep halted quiet idle stall calm inert bus settles halt nextPc =>
    rw [redirect_calm calm, inert.commit]
    exact .stay (flush_calm calm inert.train) stall inert.wb
  | trap valid why sync mret int inert bus settles halt =>
    have redirect : e.trapRedirectReq = true := by simp [trapRedirectReq, sync]
    rw [if_pos redirect]
    exact flow_redirect redirect target pc
  | interrupt idle pending why nonexc sync mret int inert bus settles halt =>
    have redirect : e.trapRedirectReq = true := by simp [trapRedirectReq, int]
    rw [if_pos redirect]
    exact flow_redirect redirect target pc
  | hold valid awake stall calm inert phase bus halt =>
    rw [redirect_calm calm, inert.commit]
    exact .stay (flush_calm calm inert.train) stall inert.wb
  | commit k valid is nonexc state awake stall sync int mret commit wb csr train bus memory settles halt =>
    cases redirect : e.trapRedirectReq with
    | true =>
      rw [if_pos rfl]
      exact flow_redirect redirect target pc
    | false =>
      rw [if_neg (by simp), commit, if_pos rfl]
      cases flush : e.flushO with
      | true =>
        have : e.branchAddrO target = e.de.nextPc := by simp [branchAddrO, redirect, DeT.nextPc]
        rw [← this]
        exact .redirect flush
      | false =>
        refine .pass flush stall (is.nonexc nonexc) valid ?_
        have branch : e.de.flags.branch = k.flags.branch := congrArg OpFlags.branch is.flags
        cases transfer : k.flags.branch with
        | true =>
          have right : (e.de.dirMispredict || e.de.tgtMispredict) = false := by
            simpa [flushO, branchValidO, mispredict, redirect, train, transfer] using flush
          rw [Bool.or_eq_false_iff] at right
          exact DeT.predNext_eq right.1 right.2
        | false =>
          have taken := DeT.branchTaken_plain (branch.trans transfer)
          have notPred : e.de.predT = false := by
            cases hp : e.de.predT with
            | false => rfl
            | true =>
              have := pred valid hp
              rw [branch, transfer] at this
              cases this
          simp [DeT.predNext, DeT.nextPc, notPred, taken]

end ExCyc

/-! ## The ports between fetch and decode -/

namespace Cpu

variable {p : Params} {m : DmemParams} {s : Cpu} {i : CpuIn} {image : ℕ → BitVec 64} {a : Word}

theorem bufPopCnt_eq : (s.fetch.cyc p (s.fetchIn p m i)).bufPopCnt.toNat = (s.decode p m i).pops := by
  have valid : (s.decode p m i).fe.valid = (s.fetch.fetch.count != 0) := rfl
  simp only [FetchCyc.bufPopCnt, DecCyc.pops, valid]
  change BitVec.toNat (if (s.fetch.fetch.count != 0 && !(s.decode p m i).stallO) = true then
    (if (s.decode p m i).fePop2 = true then 2#2 else 1#2) else 0#2) = _
  split
  · split <;> rfl
  · rfl

theorem pop2Ok : FetchMem.Pop2Ok s.fetch (s.fetchIn p m i) := by
  intro pop
  have : (s.decode p m i).targetSpanComplete = true := pop
  simp only [DecCyc.targetSpanComplete, Bool.and_eq_true] at this
  exact this.1.2

theorem redirect_eq : (s.fetch.cyc p (s.fetchIn p m i)).redirect =
    ((s.exec p m i).flushO || (s.decode p m i).predRedirectFire) := by
  change ((s.exec p m i).branchValidO || ((s.decode p m i).predRedirectFire && !(s.exec p m i).branchValidO)) = _
  rw [ExCyc.flushO]
  cases (s.exec p m i).branchValidO <;> simp

/-- A flush restarts fetch at execute's address. -/
theorem fetch_flush (inv : FetchMem.Inv p image s.fetch) (flush : (s.exec p m i).flushO = true) :
    FetchMem.Inv p image (s.next p m i).fetch ∧
      FetchMem.Delivers p image ((s.exec p m i).branchAddrO (s.trapRedirectAddr p m i)) (s.next p m i).fetch := by
  have target : (s.fetch.cyc p (s.fetchIn p m i)).redirectAddr =
      (s.exec p m i).branchAddrO (s.trapRedirectAddr p m i) := by
    have : (s.fetch.cyc p (s.fetchIn p m i)).branchValid = true := flush
    rw [FetchCyc.redirectAddr, this, if_pos rfl]
    rfl
  have moved := inv.next_redirect (i := s.fetchIn p m i) (by rw [redirect_eq, flush]; rfl)
  rw [target] at moved
  exact moved

/-- A prediction restarts it at the predicted target. -/
theorem fetch_predict (inv : FetchMem.Inv p image s.fetch) (kept : (s.exec p m i).flushO = false)
    (fire : (s.decode p m i).predRedirectFire = true) :
    FetchMem.Inv p image (s.next p m i).fetch ∧
      FetchMem.Delivers p image (s.decode p m i).cfTarget (s.next p m i).fetch := by
  have target : (s.fetch.cyc p (s.fetchIn p m i)).redirectAddr = (s.decode p m i).cfTarget := by
    have : (s.fetch.cyc p (s.fetchIn p m i)).branchValid = false := kept
    rw [FetchCyc.redirectAddr, this, if_neg (by simp)]
    rfl
  have moved := inv.next_redirect (i := s.fetchIn p m i) (by rw [redirect_eq, kept, fire]; rfl)
  rw [target] at moved
  exact moved

/-- Otherwise it moves along by decode's pops. -/
theorem fetch_quiet (inv : FetchMem.Inv p image s.fetch) (del : FetchMem.Delivers p image a s.fetch)
    (kept : (s.exec p m i).flushO = false) (quiet : (s.decode p m i).predRedirectFire = false) :
    FetchMem.Inv p image (s.next p m i).fetch ∧
      FetchMem.Delivers p image (addrAfter p.imemAddrW a (s.decode p m i).pops) (s.next p m i).fetch := by
  rw [← bufPopCnt_eq]
  exact inv.next_quiet del (by rw [redirect_eq, kept, quiet]; rfl) pop2Ok

theorem head_entryAt (del : FetchMem.Delivers p image a s.fetch) :
    ∀ e ∈ (s.decode p m i).fe.head, e = entryAt p.imemAddrW image a := by
  intro e he
  cases valid : (s.decode p m i).fe.valid with
  | false =>
    rw [FePort.head, valid] at he
    cases he
  | true =>
    rw [DecCyc.head_eq valid] at he
    obtain rfl := Option.some.inj he
    exact del.head valid

theorem next_entryAt (del : FetchMem.Delivers p image a s.fetch) :
    ∀ e ∈ (s.decode p m i).fe.next, e = entryAt p.imemAddrW image (nextAddr p.imemAddrW a) := by
  intro e he
  cases valid : (s.decode p m i).fe.nextValid with
  | false =>
    rw [FePort.next, valid] at he
    cases he
  | true =>
    rw [DecCyc.next_eq valid] at he
    obtain rfl := Option.some.inj he
    exact del.second valid

end Cpu

end YarvUc
