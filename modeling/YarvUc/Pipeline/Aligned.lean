import YarvUc.Pipeline.CsrAccess

/-!
# Halfword-aligned addresses

Every producer of an instruction address keeps bit 0 clear: the fetch increments, the hold
buffer's `+2`, the adders of branches and jumps, the mask of `jalr`, the links on the
return stack and the trap vectors. `mepc` alone takes whatever a CSR instruction writes.
-/

namespace YarvUc

/-! ## Addresses -/

theorem even_blockOf (a : Word) : (blockOf a).getLsbD 0 = false := by
  rw [getLsbD_zero_iff, toNat_blockOf, decide_eq_false_iff_not]
  omega

theorem even_nextBlock (a : Word) : (nextBlock a).getLsbD 0 = false := even_add (even_blockOf a) rfl

theorem even_nextAddr (w : ℕ) (a : Word) : (nextAddr w a).getLsbD 0 = false := by
  rw [nextAddr]
  split
  · exact even_nextBlock a
  · refine even_add ?_ rfl
    rw [getLsbD_zero_iff, toNat_wordOf, decide_eq_false_iff_not]
    omega

theorem even_addrAfter {w : ℕ} {a : Word} (even : a.getLsbD 0 = false) (n : ℕ) :
    (addrAfter w a n).getLsbD 0 = false := by
  cases n with
  | zero => exact even
  | succ n =>
    induction n generalizing a with
    | zero => exact even_nextAddr w a
    | succ n ih =>
      rw [addrAfter]
      exact ih (even_nextAddr w a)

theorem even_stream {w : ℕ} {image : ℕ → BitVec 64} {a : Word} (even : a.getLsbD 0 = false) (n : ℕ) :
    ∀ e ∈ stream w image a n, e.pc.getLsbD 0 = false := by
  induction n generalizing a with
  | zero => intro e he; cases he
  | succ n ih =>
    intro e he
    rcases List.mem_cons.mp he with rfl | he
    · rw [pc_entryAt]
      exact even
    · exact ih (even_nextAddr w a) e he

/-! ## Fetch -/

namespace FetchMem

variable {p : Params} {image : ℕ → BitVec 64} {s : FetchMem} {i : FetchIn} {a : Word}

/-- Behind a stream from an even address the fetch PC is even. -/
theorem Inv.even_pc (inv : Inv p image s) (del : Delivers p image a s) (even : a.getLsbD 0 = false) :
    s.fetch.pc.getLsbD 0 = false := by
  have frontier := even_addrAfter (w := p.imemAddrW) even s.fetch.count.toNat
  rw [← del.frontier, FetchMem.frontier] at frontier
  cases rif : s.ram.rif with
  | false => rwa [rif] at frontier
  | true =>
    rw [rif, if_pos rfl] at frontier
    cases launched : s.fetch.redirLaunched with
    | true => rw [← (inv.launched launched).2]; exact frontier
    | false => rw [inv.advanced rif launched]; exact even_nextBlock _

/-- A read goes to the target of a redirect, or on from the fetch PC. -/
theorem even_issueAddr (pc : s.fetch.pc.getLsbD 0 = false)
    (target : (s.cyc p i).redirect = true → (s.cyc p i).redirectAddr.getLsbD 0 = false) :
    (s.cyc p i).issueAddr.getLsbD 0 = false := by
  rw [FetchCyc.issueAddr]
  split
  · rename_i launch
    rw [FetchCyc.incycleLaunch] at launch
    rw [FetchCyc.incycleAddr]
    cases incycle : (s.cyc p i).p.execRedirIncycle with
    | true =>
      rw [incycle, if_pos rfl] at launch
      exact target launch
    | false =>
      rw [incycle, if_neg Bool.false_ne_true] at launch
      have addr := target (by simp [FetchCyc.redirect, launch])
      simp only [FetchCyc.predRedirect, Bool.and_eq_true, Bool.not_eq_true'] at launch
      rwa [FetchCyc.redirectAddr, launch.2] at addr
  · split
    · exact even_nextBlock _
    · exact pc

end FetchMem

/-! ## Decode -/

theorem even_predImm (s : Src) : s.predImm.getLsbD 0 = false := by
  unfold Src.predImm
  split
  · split
    · rw [Src.predCbImm, getLsbD_zero_signExtend _ (by decide), BitVec.getLsbD_append]
      rfl
    · rw [Src.predCjImm, getLsbD_zero_signExtend _ (by decide), BitVec.getLsbD_append]
      rfl
  · split
    · rw [Src.predNImmJ, getLsbD_zero_signExtend _ (by decide), BitVec.getLsbD_append]
      rfl
    · rw [Src.predNImmB, getLsbD_zero_signExtend _ (by decide), BitVec.getLsbD_append]
      rfl

/-- The hold buffer is empty, or its halfword's address is even. -/
def DecQ.EvenHold (q : DecQ) : Prop := q.hold = true → q.holdPc.getLsbD 0 = false

/-- The addresses decode reads are even: the valid entries' and the held halfword's. -/
structure DecCyc.EvenIn (d : DecCyc) : Prop where
  head : d.fe.valid = true → d.fe.pc.getLsbD 0 = false
  next : d.fe.nextValid = true → d.fe.nextPc.getLsbD 0 = false
  hold : d.q.EvenHold

namespace DecCyc

variable {d : DecCyc}

theorem EvenIn.src (even : d.EvenIn) (valid : d.decodedValid = true) : d.src.pc.getLsbD 0 = false := by
  have spanHold : d.spanPending = true → d.q.hold = true := by
    intro span
    rw [spanPending, Bool.and_eq_true] at span
    exact span.1
  by_cases fault : d.takeFault = true
  · rw [DecCyc.src, if_pos fault]
    simp only [takeFault, fetchFault, Bool.and_eq_true] at fault
    exact even.head fault.1.1
  by_cases complete : d.spanComplete = true
  · rw [DecCyc.src, if_neg fault, if_pos complete]
    simp only [spanComplete, Bool.and_eq_true] at complete
    exact even.hold (spanHold complete.1.2)
  by_cases wait : d.spanWait = true
  · rw [DecCyc.src, if_neg fault, if_neg complete, if_pos wait]
    simp only [spanWait, Bool.and_eq_true] at wait
    exact even.hold (spanHold wait.1.2)
  by_cases plain : d.isHoldPlain = true
  · rw [DecCyc.src, if_neg fault, if_neg complete, if_neg wait, if_pos plain]
    simp only [isHoldPlain, holdPlainPending, Bool.and_eq_true] at plain
    exact even.hold plain.1
  -- every other source is the head of the buffer
  have head : d.fe.valid = true := by
    simp only [decodedValid, fault, complete, plain, Bool.false_or, Bool.and_eq_true] at valid
    exact valid.1.1.1
  have pc : d.src.pc = d.fe.pc := by
    rw [DecCyc.src, if_neg fault, if_neg complete, if_neg wait, if_neg plain]
    split_ifs <;> rfl
  rw [pc]
  exact even.head head

theorem EvenIn.holdNext (even : d.EvenIn) : d.holdNext.EvenHold := by
  have two : (2 : Word).getLsbD 0 = false := rfl
  have empty : DecQ.EvenHold { d.q with hold := false } := fun hold => by cases hold
  unfold DecCyc.holdNext
  refine iteInduction (motive := DecQ.EvenHold) (fun _ => empty) fun _ => ?_
  refine iteInduction (motive := DecQ.EvenHold) (fun _ => empty) fun _ => ?_
  refine iteInduction (motive := DecQ.EvenHold) (fun _ => empty) fun _ => ?_
  refine iteInduction (motive := DecQ.EvenHold) (fun _ => even.hold) fun _ => ?_
  refine iteInduction (motive := DecQ.EvenHold) (fun _ => even.hold) fun _ => ?_
  refine iteInduction (motive := DecQ.EvenHold) (fun complete => ?_) fun _ => ?_
  · simp only [spanComplete, Bool.and_eq_true] at complete
    exact fun _ => even_add (even.head complete.2) two
  refine iteInduction (motive := DecQ.EvenHold) (fun _ => empty) fun _ => ?_
  refine iteInduction (motive := DecQ.EvenHold) (fun target => ?_) fun _ => ?_
  · simp only [targetSpanComplete, Bool.and_eq_true] at target
    exact fun _ => even_add (even.next target.1.2) two
  refine iteInduction (motive := DecQ.EvenHold) (fun wait => ?_) fun _ => ?_
  · simp only [targetSpanWait, targetSpan, targetUpper, Bool.and_eq_true] at wait
    exact fun _ => even.head wait.1.1.1.2
  refine iteInduction (motive := DecQ.EvenHold) (fun upper => ?_) fun _ => empty
  simp only [bufferUpper, Bool.and_eq_true] at upper
  exact fun _ => even_add (even.head upper.1.2) two

theorem EvenIn.cfTarget (even : d.EvenIn) (fire : d.predRedirectFire = true)
    (ras : (d.bpLookup d.src.pc).rasValid = true → (d.bpLookup d.src.pc).rasTop.getLsbD 0 = false) :
    d.cfTarget.getLsbD 0 = false := by
  simp only [predRedirectFire, Bool.and_eq_true] at fire
  obtain ⟨⟨⟨⟨-, cf⟩, taken⟩, -⟩, -⟩ := fire
  rw [DecCyc.cfTarget]
  cases ret : d.src.cfRet with
  | true =>
    have jalr : d.src.branch = .JALR := by
      rw [Src.cfRet_eq] at ret
      simp only [Bool.and_eq_true, beq_iff_eq] at ret
      exact ret.1.1
    have valid : (d.bpLookup d.src.pc).rasValid = true := by
      simpa [cfTaken, Src.cfJal_eq, Src.cfCond_eq, jalr, Branch.isCond, ret] using taken
    exact ras valid
  | false =>
    simp only [isCf, Bool.and_eq_true] at cf
    exact even_add (even.src cf.1) (even_predImm _)

end DecCyc

/-! ## Execute -/

/-- The word in D/E is at an even address, and so are the targets of its branch or jump. -/
structure DeT.EvenWord (de : DeT) : Prop where
  pc : de.valid = true → de.pc.getLsbD 0 = false
  imm : de.valid = true → de.branchType = .NONE ∨ de.branchType = .JALR ∨ de.imm.getLsbD 0 = false

theorem DecCyc.EvenIn.deD {d : DecCyc} (even : d.EvenIn) : d.deD.EvenWord := by
  refine ⟨even.src, fun _ => ?_⟩
  have offset := evenOffset_uniform d.src.instr32
  cases illegal : d.ctrl.decIllegal with
  | true =>
    left
    simp [DecCyc.deD, illegal]
  | false =>
    have branch : d.deD.branchType = (decodeUniform d.src.instr32).branchType := by
      simp only [DecCyc.deD, illegal]
      rfl
    rw [branch]
    exact offset

namespace DeT.EvenWord

variable {de : DeT}

theorem pcLink (even : de.EvenWord) (valid : de.valid = true) : de.pcLink.getLsbD 0 = false :=
  even_add (even.pc valid) (even_lengthOf de.isCompressed)

theorem branchTarget (even : de.EvenWord) (valid : de.valid = true) (taken : de.branchTaken = true) :
    de.branchTarget.getLsbD 0 = false := by
  rw [DeT.branchTarget]
  rcases even.imm valid with none | jalr | imm
  · simp [branchTaken, none] at taken
  · rw [if_pos jalr, BitVec.getLsbD_and]
    simp
  · split
    · rw [BitVec.getLsbD_and]
      simp
    · exact even_add (even.pc valid) imm

end DeT.EvenWord

namespace ExCyc

variable {e : ExCyc}

/-- What execute sends fetch to. -/
theorem even_branchAddrO (even : e.de.EvenWord) {target : Word}
    (trap : e.trapRedirectReq = true → target.getLsbD 0 = false) (flush : e.branchValidO = true) :
    (e.branchAddrO target).getLsbD 0 = false := by
  rw [branchAddrO]
  split
  · exact trap ‹_›
  · rename_i calm
    have valid : e.de.valid = true := by
      simp only [branchValidO, mispredict, cfResolving, calm, Bool.or_false, Bool.and_eq_true] at flush
      exact flush.1.1.1.1.1
    split
    · exact even.branchTarget valid ‹_›
    · exact even.pcLink valid

/-- What a trap or an interrupt writes to `mepc`. -/
theorem even_trapMepc (even : e.de.EvenWord) (wake : e.q.wfiHalt = true → e.q.wfiNextPc.getLsbD 0 = false)
    (entry : e.trapIn.entry = true) : e.trapMepc.getLsbD 0 = false := by
  rw [trapMepc]
  split
  · exact wake ‹_›
  · rename_i awake
    apply even.pc
    simp only [trapIn, TrapIn.entry, Bool.or_eq_true] at entry
    rcases entry with sync | int
    · simp only [syncTrapReq, misalignedTrap, Bool.or_eq_true, Bool.and_eq_true] at sync
      rcases sync with sync | sync
      · exact sync.1.1.1
      · exact sync.1
    · simp only [takeInterrupt, normalIntEligible, awake, Bool.or_false, Bool.and_eq_true] at int
      exact int.2.1.1.1.1.1

theorem even_wake (even : e.de.EvenWord) (wake : e.q.wfiHalt = true → e.q.wfiNextPc.getLsbD 0 = false)
    (halt : e.next.wfiHalt = true) : e.next.wfiNextPc.getLsbD 0 = false := by
  cases retire : e.wfiRetire with
  | true =>
    have valid : e.de.valid = true := by
      simp only [wfiRetire, Bool.and_eq_true] at retire
      exact retire.1.1.1.1
    simp only [ExCyc.next, retire, if_true]
    exact even.pcLink valid
  | false =>
    simp only [ExCyc.next, retire, Bool.false_or, Bool.and_eq_true] at halt
    simp only [ExCyc.next, retire]
    exact wake halt.1

end ExCyc

/-! ## The return stack -/

/-- The entries of the return stack that are in use hold even addresses. -/
def BpQ.EvenRas (q : BpQ) : Prop :=
  ∀ k < q.rasCnt.toNat, (q.ras (q.rasPtr - 1 - BitVec.ofNat 3 k)).getLsbD 0 = false

namespace BpQ.EvenRas

variable {q : BpQ} {t : BpTrain}

theorem slot_call (ptr : BitVec 3) (k : ℕ) : ptr + 1 - 1 - BitVec.ofNat 3 (k + 1) = ptr - 1 - BitVec.ofNat 3 k := by
  rw [BitVec.ofNat_add, show BitVec.ofNat 3 1 = 1 from rfl]
  ring

theorem slot_ret (ptr : BitVec 3) (k : ℕ) : ptr - 1 - 1 - BitVec.ofNat 3 k = ptr - 1 - BitVec.ofNat 3 (k + 1) := by
  rw [BitVec.ofNat_add, show BitVec.ofNat 3 1 = 1 from rfl]
  ring

theorem next (even : q.EvenRas) (push : t.valid = true → t.call = true → t.pushPc.getLsbD 0 = false) :
    (q.next t).EvenRas := by
  have old : ∀ k < q.rasCnt.toNat, ((q.next t).ras (q.rasPtr - 1 - BitVec.ofNat 3 k)).getLsbD 0 = false := by
    intro k hk
    simp only [BpQ.next]
    split
    · rename_i call
      rw [Bool.and_eq_true] at call
      by_cases top : q.rasPtr - 1 - BitVec.ofNat 3 k = q.rasPtr
      · rw [top, Function.update_self]
        exact push call.1 call.2
      · rw [Function.update_of_ne top]
        exact even k hk
    · exact even k hk
  intro k hk
  cases ret : t.valid && t.ret with
  | true =>
    have cnt : (q.next t).rasCnt = if q.rasCnt = 0 then 0 else q.rasCnt - 1 := by simp [BpQ.next, ret]
    have ptr : (q.next t).rasPtr = q.rasPtr - 1 := by simp [BpQ.next, ret]
    rw [ptr, slot_ret]
    apply old
    rw [cnt] at hk
    split at hk
    · exact absurd hk (Nat.not_lt_zero k)
    · bv_omega
  | false =>
    cases call : t.valid && t.call with
    | true =>
      have cnt : (q.next t).rasCnt = if q.rasCnt = 8 then q.rasCnt else q.rasCnt + 1 := by simp [BpQ.next, ret, call]
      have ptr : (q.next t).rasPtr = q.rasPtr + 1 := by simp [BpQ.next, ret, call]
      rw [ptr]
      cases k with
      | zero =>
        have top : q.rasPtr + 1 - 1 - BitVec.ofNat 3 0 = q.rasPtr := by bv_omega
        rw [Bool.and_eq_true] at call
        simp only [BpQ.next, call, Bool.and_self, if_true]
        rw [top, Function.update_self]
        exact push call.1 call.2
      | succ k =>
        rw [slot_call]
        apply old
        rw [cnt] at hk
        split at hk
        · omega
        · bv_omega
    | false =>
      have cnt : (q.next t).rasCnt = q.rasCnt := by simp [BpQ.next, ret, call]
      have ptr : (q.next t).rasPtr = q.rasPtr := by simp [BpQ.next, ret, call]
      rw [ptr]
      exact old k (cnt ▸ hk)

theorem top (even : q.EvenRas) {pc : Word} (valid : (q.lookup pc).rasValid = true) :
    (q.lookup pc).rasTop.getLsbD 0 = false := by
  have some : 0 < q.rasCnt.toNat := by
    simp only [lookup, bne_iff_ne, ne_eq] at valid
    bv_omega
  have first := even 0 some
  rwa [show q.rasPtr - 1 - BitVec.ofNat 3 0 = q.rasPtr - 1 by bv_omega] at first

end BpQ.EvenRas

/-! ## The CPU -/

namespace Cpu

variable {p : Params} {m : DmemParams} {image : ℕ → BitVec 64} {s : Cpu} {i : CpuIn}

/-- A CSR instruction writes an odd value to `mepc`. -/
def OddMepcWrite (p : Params) (m : DmemParams) (s : Cpu) (i : CpuIn) : Prop :=
  (s.exec p m i).csrWe = true ∧ s.de.csrAddr = CSR_ADDR_MEPC ∧ (s.exec p m i).csrNew.getLsbD 0 = true

instance (p : Params) (m : DmemParams) (s : Cpu) (i : CpuIn) : Decidable (s.OddMepcWrite p m i) :=
  inferInstanceAs (Decidable (_ ∧ _ ∧ _))

/-- Every instruction address of a cycle is even. -/
structure EvenAddresses (p : Params) (m : DmemParams) (s : Cpu) (i : CpuIn) : Prop where
  pc : s.fetch.fetch.pc.getLsbD 0 = false
  read : (s.fetch.cyc p (s.fetchIn p m i)).imemReq.valid = true →
    (s.fetch.cyc p (s.fetchIn p m i)).imemReq.addr.getLsbD 0 = false
  buffer : ∀ e ∈ s.fetch.buffered, e.pc.getLsbD 0 = false
  hold : s.lsu.core.dec.EvenHold
  de : s.de.valid = true → s.de.pc.getLsbD 0 = false
  ras : s.bp.EvenRas
  mepc : s.csr.regs.mepc.getLsbD 0 = false
  redirect : (s.fetch.cyc p (s.fetchIn p m i)).redirect = true →
    (s.fetch.cyc p (s.fetchIn p m i)).redirectAddr.getLsbD 0 = false

/-- What keeps them even. -/
structure EvenState (p : Params) (m : DmemParams) (image : ℕ → BitVec 64) (s : Cpu) : Prop where
  sound : s.Sound p m image
  delivers : ∃ a, FetchMem.Delivers p image a s.fetch ∧ a.getLsbD 0 = false
  hold : s.lsu.core.dec.EvenHold
  word : s.de.EvenWord
  wake : s.lsu.core.ex.wfiHalt = true → s.lsu.core.ex.wfiNextPc.getLsbD 0 = false
  ras : s.bp.EvenRas
  mepc : s.csr.regs.mepc.getLsbD 0 = false

namespace EvenState

theorem decode (even : s.EvenState p m image) : (s.decode p m i).EvenIn := by
  obtain ⟨a, del, ha⟩ := even.delivers
  refine ⟨fun valid => ?_, fun valid => ?_, even.hold⟩
  · have pc : (s.decode p m i).fe.pc = _ := congrArg Entry.pc (head_entryAt del _ (DecCyc.head_eq valid))
    rw [pc, pc_entryAt]
    exact ha
  · have pc : (s.decode p m i).fe.nextPc = _ := congrArg Entry.pc (next_entryAt del _ (DecCyc.next_eq valid))
    rw [pc, pc_entryAt]
    exact even_nextAddr _ a

/-- A target execute or the trap unit sends fetch to. -/
theorem flushAddr (even : s.EvenState p m image) (flush : (s.exec p m i).flushO = true) :
    ((s.exec p m i).branchAddrO (s.trapRedirectAddr p m i)).getLsbD 0 = false :=
  ExCyc.even_branchAddrO even.word (fun _ => Ordered.even_redirectAddr _ _ fun _ => even.mepc) flush

/-- A target the predictor sends it to. -/
theorem predAddr (even : s.EvenState p m image) (fire : (s.decode p m i).predRedirectFire = true) :
    (s.decode p m i).cfTarget.getLsbD 0 = false :=
  even.decode.cfTarget fire even.ras.top

theorem redirect (even : s.EvenState p m image)
    (redirect : (s.fetch.cyc p (s.fetchIn p m i)).redirect = true) :
    (s.fetch.cyc p (s.fetchIn p m i)).redirectAddr.getLsbD 0 = false := by
  rw [redirect_eq] at redirect
  change (if (s.exec p m i).branchValidO = true then (s.exec p m i).branchAddrO (s.trapRedirectAddr p m i)
    else (s.decode p m i).cfTarget).getLsbD 0 = false
  cases flush : (s.exec p m i).flushO with
  | true =>
    rw [show (s.exec p m i).branchValidO = true from flush, if_pos rfl]
    exact even.flushAddr flush
  | false =>
    rw [flush, Bool.false_or] at redirect
    rw [show (s.exec p m i).branchValidO = false from flush, if_neg Bool.false_ne_true]
    exact even.predAddr redirect

theorem addresses (even : s.EvenState p m image) : s.EvenAddresses p m i := by
  obtain ⟨a, del, ha⟩ := even.delivers
  have pc := even.sound.fetch.even_pc del ha
  refine ⟨pc, fun _ => FetchMem.even_issueAddr pc even.redirect, ?_, even.hold, even.word.pc, even.ras, even.mepc,
    even.redirect⟩
  rw [del.buffer]
  exact even_stream ha _

theorem mepc_next (even : s.EvenState p m image) (kept : ¬ s.OddMepcWrite p m i) :
    (s.next p m i).csr.regs.mepc.getLsbD 0 = false := by
  change (if (s.exec p m i).trapIn.entry = true then (s.exec p m i).trapMepc
    else if ((s.exec p m i).csrWe && s.de.csrAddr == CSR_ADDR_MEPC) = true then (s.exec p m i).csrNew
    else s.csr.regs.mepc).getLsbD 0 = false
  split
  · exact ExCyc.even_trapMepc even.word even.wake ‹_›
  · split
    · rename_i write
      rw [Bool.and_eq_true, beq_iff_eq] at write
      exact Bool.eq_false_of_not_eq_true fun odd => kept ⟨write.1, write.2, odd⟩
    · exact even.mepc

theorem delivers_next (even : s.EvenState p m image) :
    ∃ a, FetchMem.Delivers p image a (s.next p m i).fetch ∧ a.getLsbD 0 = false := by
  obtain ⟨a, del, ha⟩ := even.delivers
  cases flush : (s.exec p m i).flushO with
  | true => exact ⟨_, (fetch_flush even.sound.fetch flush).2, even.flushAddr flush⟩
  | false =>
    cases fire : (s.decode p m i).predRedirectFire with
    | true => exact ⟨_, (fetch_predict even.sound.fetch flush fire).2, even.predAddr fire⟩
    | false => exact ⟨_, (fetch_quiet even.sound.fetch del flush fire).2, even_addrAfter ha _⟩

theorem word_next (even : s.EvenState p m image) : (s.next p m i).de.EvenWord := by
  cases flush : (s.exec p m i).flushO with
  | true =>
    have empty : (s.next p m i).de.valid = false := by rw [show (s.next p m i).de = {} from Core.de_flush flush]
    constructor
    · intro valid
      rw [empty] at valid
      cases valid
    · intro valid
      rw [empty] at valid
      cases valid
  | false =>
    cases stall : (s.exec p m i).stallO with
    | true =>
      rw [show (s.next p m i).de = s.de from Core.de_stall flush stall]
      exact even.word
    | false =>
      rw [show (s.next p m i).de = (s.decode p m i).deD from Core.de_advance flush stall]
      exact even.decode.deD

theorem next (even : s.EvenState p m image) (kept : ¬ s.OddMepcWrite p m i) : (s.next p m i).EvenState p m image := by
  have train : (s.exec p m i).bpTrain.valid = true → (s.exec p m i).bpTrain.call = true →
      (s.exec p m i).bpTrain.pushPc.getLsbD 0 = false := by
    intro resolving _
    have valid : s.de.valid = true := by
      simp only [ExCyc.bpTrain, ExCyc.cfResolving, Bool.and_eq_true] at resolving
      exact resolving.1.1.1.1
    exact even.word.pcLink valid
  exact ⟨even.sound.next, even.delivers_next, even.decode.holdNext, even.word_next,
    ExCyc.even_wake even.word even.wake, even.ras.next train, even.mepc_next kept⟩

theorem reset {boot : Word} (even : boot.getLsbD 0 = false) (s : Cpu) :
    (s.reset boot).EvenState p m s.fetch.ram.mem := by
  refine ⟨sound_start boot { s with bp := s.bp.reset }, ⟨boot, .reset boot s.fetch, even⟩, fun hold => ?_,
    ⟨fun valid => ?_, fun valid => ?_⟩, fun halted => ?_, fun k hk => ?_, ?_⟩
  · cases hold
  · cases valid
  · cases valid
  · cases halted
  · exact absurd hk (Nat.not_lt_zero k)
  · change (0#32).getLsbD 0 = false
    rfl

end EvenState

/-- An odd value a CSR instruction writes is in `mepc`. -/
theorem odd_mepc (write : s.OddMepcWrite p m i) : (s.next p m i).csr.regs.mepc.getLsbD 0 = true := by
  obtain ⟨we, addr, odd⟩ := write
  have quiet : (s.exec p m i).trapIn.entry = false := by
    cases valid : (s.exec p m i).csrOpValid with
    | false => rw [ExCyc.csrWe_off valid] at we; cases we
    | true =>
      simp only [ExCyc.csrOpValid, ExCyc.trapRedirectReq, Bool.and_eq_true, Bool.not_eq_true', Bool.or_eq_false_iff]
        at valid
      simp only [ExCyc.trapIn, TrapIn.entry, valid.2.1.1, valid.2.2, Bool.or_self]
  change (if (s.exec p m i).trapIn.entry = true then (s.exec p m i).trapMepc
    else if ((s.exec p m i).csrWe && s.de.csrAddr == CSR_ADDR_MEPC) = true then (s.exec p m i).csrNew
    else s.csr.regs.mepc).getLsbD 0 = true
  rw [quiet, if_neg Bool.false_ne_true, we, addr, if_pos (by simp)]
  exact odd

/-- Instruction addresses are halfword-aligned: in a run from reset with an even boot address
all of them are even in every cycle up to `N` exactly when no CSR instruction before writes
an odd value to `mepc`. -/
theorem addresses_even (p : Params) (m : DmemParams) (boot : Word) (even : boot.getLsbD 0 = false) (s : Cpu)
    (ins : ℕ → CpuIn) (N : ℕ) :
    let c := Clocked.run (next p m) (s.reset boot) ins
    (∀ n ≤ N, (c n).EvenAddresses p m (ins n)) ↔ ∀ n < N, ¬ (c n).OddMepcWrite p m (ins n) := by
  intro c
  constructor
  · intro aligned n hn write
    have odd : (c (n + 1)).csr.regs.mepc.getLsbD 0 = true := odd_mepc write
    rw [(aligned (n + 1) hn).mepc] at odd
    cases odd
  · intro kept n hn
    have state : (c n).EvenState p m s.fetch.ram.mem :=
      Clocked.run_invariant (EvenState p m s.fetch.ram.mem) (fun s i => ¬ s.OddMepcWrite p m i) (.reset even s)
        (fun _ _ even kept => even.next kept) n fun k hk => kept k (by omega)
    exact state.addresses

/-- `csrwi mie, 8` and `csrwi mstatus, 8` leave every address even. -/
theorem addresses_even_wfi :
    (Clocked.run (next .board .board) (wfiWfi.reset 0) (msipFrom 9) 8).EvenAddresses .board .board (msipFrom 9 8) :=
  (addresses_even .board .board 0 rfl wfiWfi (msipFrom 9) 8).mpr (by decide +kernel) 8 le_rfl

/-- `csrwi mepc, 5` and `mret`. -/
def oddReturn : Cpu := ofWords [0x3412D073#32, 0x30200073#32, 0x00000013#32]

/-- The `mret` sends fetch to the odd address 5. -/
theorem mepc_slip : ¬ ∀ (p : Params) (m : DmemParams) (boot : Word) (s : Cpu) (ins : ℕ → CpuIn) (n : ℕ),
    boot.getLsbD 0 = false → (Clocked.run (next p m) (s.reset boot) ins n).EvenAddresses p m (ins n) := by
  intro h
  have := (h .board .board 0 oddReturn (msipFrom 9) 5 rfl).redirect (by decide +kernel)
  exact absurd this (by decide +kernel)

end Cpu

end YarvUc
