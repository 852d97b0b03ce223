import YarvUc.Pipeline.Order

/-!
# The pipeline keeps program order

`Ordered.Inv` holds in every run from reset in which no `mret` returns to an odd address.
-/

namespace YarvUc

variable {p : Params} {m : DmemParams} {image : ℕ → BitVec 64}

/-! ## Decode takes the next instruction -/

namespace Cpu

variable {s : Cpu} {i : CpuIn} {f a : Word}

theorem held_flush (flush : (s.exec p m i).flushO = true) : (s.next p m i).lsu.core.dec.held = none := by
  simp [DecCyc.next, DecCyc.holdNext, flush, DecQ.held]

theorem held_predict (kept : (s.exec p m i).flushO = false) (fire : (s.decode p m i).predRedirectFire = true) :
    (s.next p m i).lsu.core.dec.held = none := by
  simp [DecCyc.next, DecCyc.holdNext, kept, fire, DecQ.held]

/-- What a running decode makes of a front end that has `f` next. -/
structure Takes (p : Params) (m : DmemParams) (image : ℕ → BitVec 64) (s : Cpu) (i : CpuIn) (f : Word) : Prop where
  fetch : FetchMem.Inv p image (s.next p m i).fetch
  word : (s.decode p m i).decodedValid = true → (s.decode p m i).deD.fetched = fetchAt p.imemAddrW image f
  front : ∃ a, FetchMem.Delivers p image a (s.next p m i).fetch ∧
    (((s.decode p m i).decodedValid = true → (s.decode p m i).deD.exception = false) →
      Front p.imemAddrW image (if (s.decode p m i).decodedValid then (s.decode p m i).deD.predNext else f)
        (s.next p m i).lsu.core.dec.held a)

theorem takes (inv : FetchMem.Inv p image s.fetch) (del : FetchMem.Delivers p image a s.fetch)
    (front : Front p.imemAddrW image f s.lsu.core.dec.held a) (even : f.getLsbD 0 = false)
    (kept : (s.exec p m i).flushO = false) (running : (s.exec p m i).stallO = false) : s.Takes p m image i f := by
  obtain ⟨held', cut, follows⟩ := (s.decode p m i).cut running kept
  have fire : (s.decode p m i).predRedirectFire = (s.decode p m i).deD.predT :=
    DecCyc.predRedirectFire_eq running kept
  rcases front.cut p.imem_lower even (head_entryAt del) (next_entryAt del) cut with ⟨none, front'⟩ | ⟨one, yields⟩
  · have bubble : (s.decode p m i).decodedValid = false := by
      cases valid : (s.decode p m i).decodedValid with
      | false => rfl
      | true => simp [DecCyc.emitted, valid] at none
    have quiet : (s.decode p m i).predRedirectFire = false := by simp [DecCyc.predRedirectFire, DecCyc.isCf, bubble]
    obtain ⟨inv', del'⟩ := fetch_quiet inv del kept quiet
    refine ⟨inv', by simp [bubble], _, del', fun _ => ?_⟩
    rw [bubble, if_neg (by simp), next_dec, follows quiet]
    exact front'
  · have valid : (s.decode p m i).decodedValid = true := by
      cases valid : (s.decode p m i).decodedValid with
      | true => rfl
      | false => simp [DecCyc.emitted, valid] at one
    have word : (s.decode p m i).deD.fetched = fetchAt p.imemAddrW image f := by
      simpa [DecCyc.emitted, valid] using one
    cases taken : (s.decode p m i).deD.predT with
    | true =>
      rw [taken] at fire
      obtain ⟨inv', del'⟩ := fetch_predict inv kept fire
      refine ⟨inv', fun _ => word, _, del', fun _ => ?_⟩
      rw [valid, if_pos rfl, held_predict kept fire, DeT.predNext, taken, if_pos rfl, (DecCyc.predT_deD taken).2.1]
      exact .clear
    | false =>
      rw [taken] at fire
      obtain ⟨inv', del'⟩ := fetch_quiet inv del kept fire
      refine ⟨inv', fun _ => word, _, del', fun nonexc => ?_⟩
      have plain : (s.decode p m i).deD.fetched =
          .instr (s.decode p m i).deD.pc (s.decode p m i).deD.instr (s.decode p m i).deD.isCompressed := by
        simp [DeT.fetched, nonexc valid]
      have next := yields _ _ _ (word.symm.trans plain)
      rw [valid, if_pos rfl, next_dec, follows fire, DeT.predNext, taken, if_neg (by simp), DeT.pcLink_eq, next.pc]
      exact next.front

/-- A stalled cycle leaves what is next. -/
theorem front_stalled (del : FetchMem.Delivers p image a s.fetch)
    (front : Front p.imemAddrW image f s.lsu.core.dec.held a)
    (kept : (s.exec p m i).flushO = false) (stall : (s.exec p m i).stallO = true) :
    Front p.imemAddrW image f (s.next p m i).lsu.core.dec.held a := by
  obtain ⟨-, -, same | ⟨dropped, fault⟩⟩ := (s.decode p m i).stalled stall kept
  · rw [next_dec, same]
    exact front
  · rw [next_dec, dropped]
    obtain ⟨⟨valid, bad⟩, low⟩ : (s.fetch.fetch.fePort.valid = true ∧ s.fetch.fetch.fePort.fault = true) ∧
        (s.decode p m i).holdPlainPending = false := by
      simpa [DecCyc.takeFault, DecCyc.fetchFault] using fault
    cases hold : s.lsu.core.dec.hold with
    | false => simpa [DecQ.held, hold] using front
    | true =>
      have outside : outsideImem p.imemAddrW a = true := by
        rw [← @fault_entryAt _ image, ← del.head valid]
        exact bad
      rw [DecQ.held, hold, if_pos rfl] at front
      refine front.drop ?_ outside
      rw [isSpan_held]
      simpa [DecCyc.holdPlainPending, DecCyc.holdIsSpan, hold] using low

end Cpu

/-! ## One edge -/

namespace Ordered

variable {o : Ordered} {i : CpuIn}

theorem Inv.outcome (inv : o.Inv p m image) : (o.cpu.exec p m i).Outcome := inv.lsu.core.outcome

theorem Inv.flow (inv : o.Inv p m image) :
    (o.cpu.exec p m i).Flow (o.cpu.trapRedirectAddr p m i) o.pc (o.next p m i).pc :=
  inv.outcome.flow inv.pred _ _

/-- A valid word that does not except is the instruction in program order. -/
theorem Inv.instr (inv : o.Inv p m image) (valid : o.cpu.de.valid = true) (nonexc : o.cpu.de.exception = false) :
    ∃ w c, fetchAt p.imemAddrW image o.pc = .instr o.pc w c ∧
      o.cpu.de.base = decodeWord o.cpu.rf.read o.pc w c := by
  have word := inv.word valid
  cases fetched : fetchAt p.imemAddrW image o.pc with
  | fault t =>
    rw [fetched] at word
    have : o.cpu.de.base.exception = true := by rw [word]; rfl
    rw [DeT.base_exception, nonexc] at this
    cases this
  | instr pc w c =>
    rw [fetched] at word
    obtain rfl := pc_fetchAt fetched
    exact ⟨w, c, rfl, word⟩

theorem even_redirectAddr (t : TrapIn) (r : CsrRegs) (ret : t.mret = true → r.mepc.getLsbD 0 = false) :
    (t.redirectAddr r).getLsbD 0 = false := by
  have base : r.mtvecBase.getLsbD 0 = false := by
    rw [CsrRegs.mtvecBase, BitVec.getLsbD_append]
    rfl
  unfold TrapIn.redirectAddr
  split
  · exact ret (by assumption)
  · split
    · refine even_add base ?_
      rw [BitVec.getLsbD_append]
      rfl
    · exact base

theorem Inv.even_next (inv : o.Inv p m image)
    (ret : (o.cpu.exec p m i).mretReq = true → o.cpu.csr.regs.mepc.getLsbD 0 = false) :
    (o.next p m i).pc.getLsbD 0 = false := by
  simp only [next, Cpu.pcNext]
  split
  · exact even_redirectAddr _ _ ret
  · split
    · rename_i commit
      obtain ⟨valid, nonexc⟩ := inv.outcome.retires commit
      obtain ⟨w, c, -, word⟩ := inv.instr valid nonexc
      rw [← DeT.base_nextPc, word]
      exact even_nextPc _ inv.even _ _
    · exact inv.even

/-- A pipe that sleeps after the edge slept before, or the WFI has just retired. -/
theorem Inv.halted_next (inv : o.Inv p m image) (halted : (o.next p m i).cpu.lsu.core.ex.wfiHalt = true) :
    ((o.cpu.exec p m i).wfiStall = true ∧ (o.next p m i).pc = o.pc ∧ (o.next p m i).cpu.de = o.cpu.de ∧
        (o.next p m i).cpu.lsu.core.ex.wfiNextPc =
          if o.cpu.de.valid && o.cpu.de.isWfiOp then o.cpu.de.pcLink else o.cpu.lsu.core.ex.wfiNextPc) ∨
      (o.cpu.exec p m i).wfiStall = false ∧ (o.next p m i).cpu.lsu.core.ex.wfiNextPc = (o.next p m i).pc := by
  have halt' : (o.cpu.exec p m i).next.wfiHalt = true := halted
  cases inv.outcome (i := i) with
  | bubble valid awake idle stall calm inert bus settles halt => rw [halt] at halt'; cases halt'
  | trap valid why sync mret int inert bus settles halt => rw [halt] at halt'; cases halt'
  | interrupt idle pending why nonexc sync mret int inert bus settles halt => rw [halt] at halt'; cases halt'
  | hold valid awake stall calm inert phase bus halt => rw [halt] at halt'; cases halt'
  | asleep wasHalted quiet idle stall calm inert bus settles halt nextPc =>
    have pc : (o.next p m i).pc = o.pc := by
      simp [Ordered.next, Cpu.pcNext, ExCyc.redirect_calm calm, inert.commit]
    refine .inl ⟨?_, pc, Core.de_stall (ExCyc.flush_calm calm inert.train) stall, nextPc⟩
    rw [ExCyc.wfiStall, quiet, wasHalted]
    rfl
  | commit k valid is nonexc state awake stall sync int mret commit wb csr train bus memory settles halt =>
    right
    have wfi : k = .wfi := by
      rw [halt] at halt'
      cases k <;> first | rfl | cases halt'
    subst wfi
    have awake' : o.cpu.lsu.core.ex.wfiHalt = false := awake.resolve_right (by simp)
    have retire : (o.cpu.exec p m i).wfiRetire = true := by simpa [ExCyc.next, awake'] using halt'
    have redirect : (o.cpu.exec p m i).trapRedirectReq = false := by
      simp [ExCyc.trapRedirectReq, sync, int, mret, OpKind.flags]
    have plain : o.cpu.de.branchTaken = false := DeT.branchTaken_plain (congrArg OpFlags.branch is.flags)
    refine ⟨by simp [ExCyc.wfiStall, awake'], ?_⟩
    simp [Ordered.next, Cpu.pcNext, redirect, commit, ExCyc.next, retire, DeT.nextPc, plain]

/-- The wake address after the edge. -/
theorem Inv.sleep_next (inv : o.Inv p m image) (halted : (o.next p m i).cpu.lsu.core.ex.wfiHalt = true) :
    (o.next p m i).cpu.lsu.core.ex.wfiNextPc = (o.next p m i).pc ∨
      ((o.next p m i).cpu.de.valid && (o.next p m i).cpu.de.isWfiOp) = true ∧
        (o.next p m i).cpu.lsu.core.ex.wfiNextPc = (o.next p m i).cpu.de.pcLink := by
  rcases inv.halted_next halted with ⟨asleep, pc, same, wake⟩ | ⟨-, exact⟩
  · have wasHalted : o.cpu.lsu.core.ex.wfiHalt = true := by
      simp only [ExCyc.wfiStall, Bool.and_eq_true] at asleep
      exact asleep.1
    rw [pc, same, wake]
    cases wfi : o.cpu.de.valid && o.cpu.de.isWfiOp with
    | true => exact .inr ⟨rfl, if_pos rfl⟩
    | false =>
      rcases inv.sleep wasHalted with exact | ⟨other, -⟩
      · exact .inl exact
      · rw [wfi] at other
        cases other
  · exact .inl exact

theorem de_valid_next (valid : (o.next p m i).cpu.de.valid = true) :
    (o.cpu.exec p m i).flushO = false := by
  cases flush : (o.cpu.exec p m i).flushO with
  | false => rfl
  | true =>
    have empty : (o.next p m i).cpu.de = {} := Core.de_flush flush
    rw [empty] at valid
    cases valid

/-- A word just latched, or kept, carries a prediction only when it transfers control. -/
theorem Inv.pred_next (inv : o.Inv p m image) (valid : (o.next p m i).cpu.de.valid = true)
    (taken : (o.next p m i).cpu.de.predT = true) : (o.next p m i).cpu.de.flags.branch = true := by
  have kept := de_valid_next valid
  cases stall : (o.cpu.exec p m i).stallO with
  | true =>
    have same : (o.next p m i).cpu.de = o.cpu.de := Core.de_stall kept stall
    rw [same] at valid taken ⊢
    exact inv.pred valid taken
  | false =>
    have fresh : (o.next p m i).cpu.de = (o.cpu.decode p m i).deD := Core.de_advance kept stall
    rw [fresh] at taken ⊢
    exact (DecCyc.predT_deD taken).1

/-- Decode runs: the instruction at the new address, on the new registers, or none yet. -/
theorem Inv.next_taken (inv : o.Inv p m image) (even : (o.next p m i).pc.getLsbD 0 = false)
    (kept : (o.cpu.exec p m i).flushO = false) (running : (o.cpu.exec p m i).stallO = false)
    (takes : o.cpu.Takes p m image i (o.next p m i).pc) : (o.next p m i).Inv p m image := by
  have fresh : (o.next p m i).cpu.de = (o.cpu.decode p m i).deD := Core.de_advance kept running
  have rf : (o.next p m i).cpu.rf.read = (o.cpu.decode p m i).operand :=
    (@DecCyc.operand_eq (o.cpu.decode p m i) o.cpu.rf rfl).symm
  obtain ⟨a, del, front⟩ := takes.front
  refine ⟨takes.fetch, inv.lsu.next, even, fun valid => ?_, inv.pred_next, ⟨a, del, fun nonexc => ?_⟩, inv.sleep_next⟩
  · rw [fresh] at valid ⊢
    rw [rf, ← takes.word valid]
    exact DecCyc.base_deD valid
  · rw [frontPc, fresh]
    exact front (by rwa [fresh] at nonexc)

theorem Inv.next (inv : o.Inv p m image)
    (ret : (o.cpu.exec p m i).mretReq = true → o.cpu.csr.regs.mepc.getLsbD 0 = false) :
    (o.next p m i).Inv p m image := by
  have even := inv.even_next ret
  obtain ⟨a, del, front⟩ := inv.front
  generalize pc' : (o.next p m i).pc = pc at even
  have flow := inv.flow (i := i)
  rw [pc'] at flow
  cases flow with
  | redirect flush =>
    have empty : (o.next p m i).cpu.de = {} := Core.de_flush flush
    have bubble : (o.next p m i).cpu.de.valid = false := by rw [empty]
    obtain ⟨fetch, del'⟩ := Cpu.fetch_flush inv.fetch flush
    refine ⟨fetch, inv.lsu.next, pc' ▸ even, by simp [bubble], inv.pred_next, ⟨_, del', fun _ => ?_⟩, inv.sleep_next⟩
    rw [frontPc, bubble, if_neg (by simp), pc', show (o.next p m i).cpu.lsu.core.dec.held = none from
      Cpu.held_flush flush]
    exact .clear
  | stay kept stall wb =>
    have same : (o.next p m i).cpu.de = o.cpu.de := Core.de_stall kept stall
    have rf : (o.next p m i).cpu.rf = o.cpu.rf := by simp [Ordered.next, Cpu.next, RegFile.next, wb]
    have quiet : (o.cpu.decode p m i).predRedirectFire = false := by simp [DecCyc.predRedirectFire, stall]
    obtain ⟨fetch, del'⟩ := Cpu.fetch_quiet inv.fetch del kept quiet
    rw [((o.cpu.decode p m i).stalled stall kept).1, addrAfter_zero] at del'
    refine ⟨fetch, inv.lsu.next, pc' ▸ even, ?_, inv.pred_next, ⟨a, del', fun nonexc => ?_⟩, inv.sleep_next⟩
    · rw [same, rf, pc']
      exact inv.word
    · rw [same] at nonexc
      rw [frontPc, same, pc', ← frontPc]
      exact Cpu.front_stalled del (front nonexc) kept stall
  | empty kept running wb bubble =>
    have held := front fun valid => by rw [show o.cpu.de.valid = false from bubble] at valid; cases valid
    rw [frontPc, show o.cpu.de.valid = false from bubble, if_neg (by simp)] at held
    exact inv.next_taken (pc' ▸ even) kept running (pc' ▸ Cpu.takes inv.fetch del held even kept running)
  | pass kept running nonexc valid followed =>
    have held := front fun _ => nonexc
    rw [frontPc, show o.cpu.de.valid = true from valid, if_pos rfl,
      show o.cpu.de.predNext = o.cpu.de.nextPc from followed] at held
    exact inv.next_taken (pc' ▸ even) kept running (pc' ▸ Cpu.takes inv.fetch del held even kept running)

/-! ## Runs -/

theorem inv_start {boot : Word} (even : boot.getLsbD 0 = false) (s : Cpu) :
    (start boot s).Inv p m s.fetch.ram.mem := by
  refine ⟨.reset boot s.fetch, ⟨Core.inv_reset, rfl, rfl, by simp [start, Cpu.start, RamQ.reset]⟩, even, ?_, ?_,
    ⟨boot, .reset boot s.fetch, fun _ => .clear⟩, ?_⟩
  · intro valid
    cases valid
  · intro valid
    cases valid
  · intro halted
    cases halted

/-- Every `mret` of the run returns to an even address. -/
def EvenReturns (p : Params) (m : DmemParams) (o : Ordered) (i : CpuIn) : Prop :=
  (o.cpu.exec p m i).mretReq = true → o.cpu.csr.regs.mepc.getLsbD 0 = false

theorem inv_run {boot : Word} (even : boot.getLsbD 0 = false) (s : Cpu) (ins : ℕ → CpuIn) (n : ℕ)
    (ret : ∀ k < n, EvenReturns p m (Clocked.run (next p m) (start boot s) ins k) (ins k)) :
    (Clocked.run (next p m) (start boot s) ins n).Inv p m s.fetch.ram.mem :=
  Clocked.run_invariant (Inv p m s.fetch.ram.mem) (EvenReturns p m) (inv_start even s) (fun _ _ inv ret => inv.next ret)
    n ret

end Ordered

end YarvUc
