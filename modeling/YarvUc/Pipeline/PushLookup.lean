import YarvUc.Pipeline.NoTrace

/-!
# Predictions read at the push

With `BP_PUSH_LOOKUP=1` a direction bit is read when its word is pushed into the instruction
buffer, and travels with the history it was read under until its branch is latched. `Pushes`
stands next to the CPU and records, for everything on the way, the cycle of its push; the bit
and the index a branch carries are those of that cycle, however many branches resolve in
between.
-/

namespace YarvUc

/-! ## The cycles of the pushes -/

/-- The cycle in which each buffered entry, the held halfword and the word in D/E were pushed. -/
structure Pushes where
  buffer : List ℕ
  hold : ℕ
  de : ℕ

namespace Cpu

def fetchCyc (p : Params) (m : DmemParams) (s : Cpu) (i : CpuIn) : FetchCyc := s.fetch.cyc p (s.fetchIn p m i)

end Cpu

namespace Pushes

def empty : Pushes := { buffer := [], hold := 0, de := 0 }

/-- The head entry's cycle, and that of the entry behind it. -/
def head (t : Pushes) : ℕ := t.buffer.getD 0 0
def second (t : Pushes) : ℕ := t.buffer.getD 1 0

/-- One cycle: the buffer is a FIFO, a stash takes the cycle of the entry it comes from, and so
does the word latched into D/E. -/
def next (p : Params) (m : DmemParams) (s : Cpu) (i : CpuIn) (now : ℕ) (t : Pushes) : Pushes where
  buffer :=
    if (s.fetchCyc p m i).redirect then []
    else (t.buffer ++ List.replicate (s.fetchCyc p m i).pushCnt.toNat now).drop (s.fetchCyc p m i).bufPopCnt.toNat
  hold :=
    if (s.decode p m i).stall || (s.decode p m i).spanWait then t.hold
    else if (s.decode p m i).targetSpanComplete then t.second
    else t.head
  de :=
    if (s.decode p m i).stall then t.de
    else if (s.decode p m i).spanComplete || (s.decode p m i).isHoldPlain then t.hold
    else t.head

end Pushes

/-- Before cycle `n` of a run. -/
def Cpu.pushes (p : Params) (m : DmemParams) (s : Cpu) (ins : ℕ → CpuIn) : ℕ → Pushes
  | 0 => .empty
  | n + 1 => (Cpu.pushes p m s ins n).next p m (Clocked.run (Cpu.next p m) s ins n) (ins n) n

/-! ## Halves of a word -/

/-- The two addresses lie in one 32-bit word. -/
def SameWord (a b : Word) : Prop := a.extractLsb 31 2 = b.extractLsb 31 2

theorem sameWord_iff {a b : Word} : SameWord a b ↔ a.toNat / 4 = b.toNat / 4 := by
  have value : ∀ c : Word, (c.extractLsb 31 2).toNat = c.toNat / 4 := by
    intro c
    have := c.isLt
    simp only [BitVec.extractLsb_toNat, Nat.shiftRight_eq_div_pow]
    omega
  rw [SameWord, ← BitVec.toNat_inj, value, value]

/-- The upper half of a word, two bytes behind its lower one. -/
theorem sameWord_add_two {a : Word} (lower : a.getLsbD 1 = false) : SameWord (a + 2) a := by
  have sum : (a + 2).toNat = a.toNat + 2 := toNat_add_two lower
  rw [sameWord_iff, sum]
  rw [getLsbD_one_iff, decide_eq_false_iff_not] at lower
  omega

theorem upper_add_two {a : Word} (lower : a.getLsbD 1 = false) : (a + 2).getLsbD 1 = true := by
  have flip : (a + 2).getLsbD 1 = !a.getLsbD 1 := upperHalf_add_two a
  rw [flip, lower]
  rfl

/-- Every entry but the first behind a redirect is aligned. -/
theorem lower_nextAddr (w : ℕ) (a : Word) : (nextAddr w a).getLsbD 1 = false := by
  rw [getLsbD_one_iff, decide_eq_false_iff_not, nextAddr]
  split
  · rw [BitVec.toNat_add, toNat_blockOf]
    simp only [BitVec.toNat_ofNat]
    omega
  · rw [BitVec.toNat_add, toNat_wordOf]
    simp only [BitVec.toNat_ofNat]
    omega

theorem lower_addrAfter (w : ℕ) (a : Word) {n : ℕ} (moved : 0 < n) : (addrAfter w a n).getLsbD 1 = false := by
  induction n generalizing a with
  | zero => cases moved
  | succ n ih =>
    cases n with
    | zero => exact lower_nextAddr w a
    | succ n => exact ih (nextAddr w a) (Nat.succ_pos n)

/-! ## The hold buffer -/

namespace DecCyc

/-- Where what is held after a cycle comes from. -/
inductive Stashes (d : DecCyc) : Prop
  | keeps (waits : (d.stall || d.spanWait) = true) (held : d.q.hold = true) (pops : d.pops = 0)
      (pc : d.next.holdPc = d.q.holdPc) (pred : d.next.holdPred = d.q.holdPred) (ghr : d.next.holdGhr = d.q.holdGhr)
  | second (moves : (d.stall || d.spanWait) = false) (span : d.targetSpanComplete = true)
      (valid : d.fe.nextValid = true) (pops : 0 < d.pops) (pc : d.next.holdPc = d.fe.nextPc + 2)
      (pred : d.next.holdPred = d.fe.nextPredHi) (ghr : d.next.holdGhr = d.fe.nextGhr)
  | head (moves : (d.stall || d.spanWait) = false) (single : d.targetSpanComplete = false) (valid : d.fe.valid = true)
      (pops : 0 < d.pops)
      (pc : d.next.holdPc = d.fe.pc + 2 ∧ (d.q.hold = true ∨ d.fe.pc.getLsbD 1 = false) ∨
        d.next.holdPc = d.fe.pc ∧ d.fe.pc.getLsbD 1 = true)
      (pred : d.next.holdPred = d.fe.predHi) (ghr : d.next.holdGhr = d.fe.ghr)

variable {d : DecCyc}

theorem pops_pos (valid : d.fe.valid = true) (plain : d.holdPlainPending = false) (running : d.stall = false) :
    0 < d.pops := by
  simp only [pops, valid, stallO, resourceStall, plain, running]
  cases d.fePop2 <;> decide

/-- Any redirect clears the hold buffer. -/
theorem held_quiet (held : d.next.hold = true) : d.flush = false ∧ d.predRedirectFire = false := by
  cases flush : d.flush with
  | true => simp [next, holdNext, flush] at held
  | false =>
    cases fire : d.predRedirectFire with
    | true => simp [next, holdNext, flush, fire] at held
    | false => exact ⟨rfl, rfl⟩

/-- A cycle that waits leaves the hold buffer as it is. -/
theorem stashes_wait (held : d.next.hold = true) (fault : d.takeFault = false)
    (waits : (d.stall || d.spanWait) = true) : d.Stashes := by
  obtain ⟨kept, quiet⟩ := held_quiet held
  have waits' := waits
  rw [Bool.or_eq_true] at waits'
  have same : d.holdNext = d.q := by
    rcases waits' with h | h <;> simp [holdNext, kept, quiet, fault, h]
  have held' : d.q.hold = true := by simpa [next, same] using held
  have pops : d.pops = 0 := by
    rcases waits' with stall | wait
    · simp [DecCyc.pops, stallO, stall]
    · have empty : d.fe.valid = false := by
        simp only [spanWait, Bool.and_eq_true, Bool.not_eq_true'] at wait
        exact wait.2
      simp [DecCyc.pops, empty]
  refine .keeps waits held' pops ?_ ?_ ?_ <;> simp [next, same]

/-- What is stashed from the head. -/
theorem stashes_head {a : Word} (moves : (d.stall || d.spanWait) = false) (single : d.targetSpanComplete = false)
    (valid : d.fe.valid = true) (plain : d.holdPlainPending = false)
    (pc : a = d.fe.pc + 2 ∧ (d.q.hold = true ∨ d.fe.pc.getLsbD 1 = false) ∨ a = d.fe.pc ∧ d.fe.pc.getLsbD 1 = true)
    (is : d.holdNext = stash d.fe.instr a d.fe.predHi d.fe.ghr) : d.Stashes := by
  have running : d.stall = false := (Bool.or_eq_false_iff.mp moves).1
  have own : d.next.holdPc = a := by
    rw [next, is]
    rfl
  rw [← own] at pc
  refine .head moves single valid (pops_pos valid plain running) pc ?_ ?_ <;> rw [next, is] <;> rfl

theorem next_hold (held : d.next.hold = true) : d.Stashes := by
  obtain ⟨kept, quiet⟩ := held_quiet held
  have fault : d.takeFault = false := by
    cases fault : d.takeFault with
    | false => rfl
    | true => simp [next, holdNext, kept, quiet, fault] at held
  cases moves : d.stall || d.spanWait with
  | true => exact stashes_wait held fault moves
  | false =>
    obtain ⟨stall, wait⟩ := Bool.or_eq_false_iff.mp moves
    cases complete : d.spanComplete with
    | true =>
      obtain ⟨⟨-, ⟨held', span⟩⟩, valid⟩ : (d.takeFault = false ∧ d.q.hold = true ∧ d.holdIsSpan = true) ∧
          d.fe.valid = true := by
        simpa [spanComplete, spanPending] using complete
      exact stashes_head moves (by simp [targetSpanComplete, targetSpan, targetUpper, held']) valid
        (by simp [holdPlainPending, span]) (.inl ⟨rfl, .inl held'⟩)
        (by simp [holdNext, kept, quiet, fault, stall, wait, complete])
    | false =>
      have plain : d.isHoldPlain = false := by
        cases plain : d.isHoldPlain with
        | false => rfl
        | true => simp [next, holdNext, kept, quiet, fault, stall, wait, complete, plain] at held
      cases target : d.targetSpanComplete with
      | true =>
        obtain ⟨⟨upper, nextValid⟩, -⟩ : (d.targetSpan = true ∧ d.fe.nextValid = true) ∧ d.fe.nextFault = false := by
          simpa [targetSpanComplete] using target
        have valid : d.fe.valid = true := by
          simp only [targetSpan, targetUpper, Bool.and_eq_true] at upper
          exact upper.1.1.2
        have is : d.holdNext = stash d.fe.nextInstr (d.fe.nextPc + 2) d.fe.nextPredHi d.fe.nextGhr := by
          simp [holdNext, kept, quiet, fault, stall, wait, complete, plain, target]
        refine .second moves target nextValid (pops_pos valid plain stall) ?_ ?_ ?_ <;> rw [next, is] <;> rfl
      | false =>
        cases delayed : d.targetSpanWait with
        | true =>
          have upper : d.targetUpper = true := by
            simp only [targetSpanWait, targetSpan, Bool.and_eq_true] at delayed
            exact delayed.1.1
          simp only [targetUpper, Bool.and_eq_true] at upper
          exact stashes_head moves target upper.1.2 plain (.inr ⟨rfl, upper.2⟩)
            (by simp [holdNext, kept, quiet, fault, stall, wait, complete, plain, target, delayed])
        | false =>
          have buffer : d.bufferUpper = true := by
            cases buffer : d.bufferUpper with
            | true => rfl
            | false =>
              simp [next, holdNext, kept, quiet, fault, stall, wait, complete, plain, target, delayed, buffer] at held
          obtain ⟨⟨⟨empty, low⟩, valid⟩, -⟩ : ((d.q.hold = false ∧ d.targetUpper = false) ∧ d.fe.valid = true) ∧
              d.feIsCompressed = true := by
            simpa [bufferUpper] using buffer
          have lower : d.fe.pc.getLsbD 1 = false := by simpa [targetUpper, fault, empty, valid] using low
          exact stashes_head moves target valid plain (.inl ⟨rfl, .inr lower⟩)
            (by simp [holdNext, kept, quiet, fault, stall, wait, complete, plain, target, delayed, buffer])

/-- What the flat classification says of a conditional branch. -/
theorem src_cond (cond : d.deD.exIsCond = true) :
    d.src.cfCond = true ∧ d.src.cfRet = false ∧ d.src.cfJal = false ∧ d.takeFault = false := by
  have legal : d.ctrl.decIllegal = false := by
    cases illegal : d.ctrl.decIllegal with
    | false => rfl
    | true => simp [DeT.exIsCond, deD, illegal] at cond
  have branch : d.deD.branchType = d.src.branch := by
    rw [← branchType_ctrl]
    simp [deD, legal]
  have isCond : d.src.branch.isCond = true := by
    rw [← branch]
    cases h : d.deD.branchType <;> simp [DeT.exIsCond, h] at cond <;> rfl
  refine ⟨by rw [Src.cfCond_eq, isCond], ?_, ?_, ?_⟩
  · rw [Src.cfRet_eq]
    cases h : d.src.branch <;> simp [h, Branch.isCond] at isCond <;> rfl
  · rw [Src.cfJal_eq]
    cases h : d.src.branch <;> simp [h, Branch.isCond] at isCond <;> rfl
  · cases fault : d.takeFault with
    | false => rfl
    | true =>
      rw [ctrl_takeFault fault] at legal
      cases legal

/-- Its prediction fields. -/
theorem pred_cond (valid : d.deD.valid = true) (cond : d.deD.exIsCond = true) (push : d.p.bpPushLookup = true) :
    d.deD.predPhtIndex = (if d.p.bpEn then d.deD.pc.extractLsb 7 1 ^^^ d.phtGhrSrc else 0) ∧
      d.deD.predTaken = (d.p.bpEn && d.phtTakenSrc) := by
  obtain ⟨cfCond, cfRet, cfJal, -⟩ := src_cond cond
  have valid' : d.decodedValid = true := valid
  have cf : d.isCf = true := by simp [isCf, valid', cfCond]
  constructor
  · simp only [deD, predPhtIndex, cf, cfRet, cfCond, phtIndexSrc, push]
    rfl
  · simp [deD, predTaken, cf, cfTaken, cfRet, cfCond, cfJal]

/-- What is decoded out of the hold buffer. -/
theorem src_held (push : d.p.bpPushLookup = true) (stashed : (d.spanComplete || d.isHoldPlain) = true)
    (clean : d.takeFault = false) :
    d.deD.pc = d.q.holdPc ∧ d.phtTakenSrc = d.q.holdPred ∧ d.phtGhrSrc = d.q.holdGhr := by
  refine ⟨?_, by simp [phtTakenSrc, push, stashed], by simp [phtGhrSrc, push, stashed]⟩
  have pc : d.deD.pc = d.src.pc := rfl
  rw [pc, src, if_neg (Bool.eq_false_iff.mp clean)]
  cases complete : d.spanComplete with
  | true => rfl
  | false =>
    cases wait : d.spanWait with
    | true => rfl
    | false =>
      rw [complete, Bool.false_or] at stashed
      rw [if_neg Bool.false_ne_true, if_neg Bool.false_ne_true, if_pos stashed]

/-- And out of the head entry. -/
theorem src_entry (push : d.p.bpPushLookup = true) (stashed : (d.spanComplete || d.isHoldPlain) = false)
    (valid : d.deD.valid = true) (clean : d.takeFault = false) :
    d.deD.pc = d.fe.pc ∧ d.phtTakenSrc = (if d.fe.pc.getLsbD 1 then d.fe.predHi else d.fe.predLo) ∧
      d.phtGhrSrc = d.fe.ghr ∧ d.fe.valid = true := by
  obtain ⟨complete, plain⟩ : d.spanComplete = false ∧ d.isHoldPlain = false := by simpa using stashed
  obtain ⟨⟨here, empty⟩, -⟩ : (d.fe.valid = true ∧ d.q.hold = false) ∧ d.targetSpanWait = false := by
    have valid' : d.decodedValid = true := valid
    simpa [decodedValid, clean, complete, plain] using valid'
  have wait : d.spanWait = false := by simp [spanWait, spanPending, empty]
  refine ⟨?_, by simp [phtTakenSrc, push, stashed], by simp [phtGhrSrc, push, stashed], here⟩
  have pc : d.deD.pc = d.src.pc := rfl
  rw [pc, src, clean, complete, wait, plain]
  simp only [Bool.false_eq_true, if_false]
  repeat' split
  all_goals rfl

end DecCyc

/-! ## The push port -/

namespace BpQ

variable {q : BpQ} {a pc : Word}

/-- The index of a halfword is the one of its word with the slot that `ghr[0]` gives its half. -/
theorem index_half (same : SameWord a pc) :
    q.lookupIndex a = q.pushU pc ++ BitVec.ofBool (a.getLsbD 1 ^^ q.ghr.getLsbD 0) := by
  have bit : ∀ j < 6, a.getLsbD (2 + j) = pc.getLsbD (2 + j) := by
    intro j hj
    have := congrArg (fun x => x.getLsbD j) same
    simpa [BitVec.getLsbD_extractLsb, show j ≤ 29 by omega, show j < 30 by omega] using this
  apply BitVec.eq_of_getLsbD_eq
  intro k hk
  rw [lookupIndex, pushU, BitVec.getLsbD_xor, BitVec.getLsbD_extractLsb, BitVec.getLsbD_append]
  cases k with
  | zero => simp
  | succ k =>
    have inside : k < 6 := by omega
    have shift : 1 + (k + 1) = 2 + k := by omega
    rw [BitVec.getLsbD_xor, BitVec.getLsbD_extractLsb, BitVec.getLsbD_extractLsb, shift, bit k inside]
    simp [inside, hk, Nat.add_comm 1 k]

/-- What the push port reads for a halfword of the first word, and of the second. -/
theorem push_first (pc1 : Word) (same : SameWord a pc) :
    (if a.getLsbD 1 then (q.push pc pc1).pred0Hi else (q.push pc pc1).pred0Lo) =
      (q.pht (q.lookupIndex a)).getLsbD 1 := by
  rw [index_half same]
  cases half : a.getLsbD 1 <;> cases odd : q.ghr.getLsbD 0 <;> simp only [push, pushCtr, odd] <;> rfl

theorem push_second (pc0 : Word) (same : SameWord a pc) :
    (if a.getLsbD 1 then (q.push pc0 pc).pred1Hi else (q.push pc0 pc).pred1Lo) =
      (q.pht (q.lookupIndex a)).getLsbD 1 := by
  rw [index_half same]
  cases half : a.getLsbD 1 <;> cases odd : q.ghr.getLsbD 0 <;> simp only [push, pushCtr, odd] <;> rfl

end BpQ

/-! ## On the way -/

namespace Cpu

variable {p : Params} {m : DmemParams} {image : ℕ → BitVec 64}

/-- In cycle `k` the word of the halfword at `a` is pushed, and the push port reads `taken` for it
under the history `ghr`. -/
structure ReadAt (p : Params) (m : DmemParams) (c : ℕ → Cpu) (ins : ℕ → CpuIn) (k : ℕ) (a : Word) (taken : Bool)
    (ghr : Ghr) : Prop where
  pushed : ∃ e ∈ FetchMem.pushed ((c k).fetchCyc p m (ins k)), SameWord a e.pc
  ghr : ghr = (c k).bp.ghr
  taken : taken = ((c k).bp.pht ((c k).bp.lookupIndex a)).getLsbD 1

/-- Both bits of an entry are those read in cycle `k`, before cycle `n`. -/
def EntryRead (p : Params) (m : DmemParams) (c : ℕ → Cpu) (ins : ℕ → CpuIn) (n k : ℕ) (e : BufEntry) : Prop :=
  k < n ∧ ∀ a, SameWord a e.pc → ReadAt p m c ins k a (if a.getLsbD 1 then e.predHi else e.predLo) e.ghr

variable {c : ℕ → Cpu} {ins : ℕ → CpuIn} {n k : ℕ} {t : Pushes}

theorem EntryRead.mono {e : BufEntry} (read : EntryRead p m c ins n k e) : EntryRead p m c ins (n + 1) k e :=
  ⟨Nat.lt_succ_of_lt read.1, read.2⟩

/-- What is pushed carries what is read. -/
theorem pushed_read {e : BufEntry} (here : e ∈ FetchMem.pushed ((c n).fetchCyc p m (ins n))) :
    EntryRead p m c ins (n + 1) n e := by
  have either : e = ((c n).fetchCyc p m (ins n)).push0 ∨ e = ((c n).fetchCyc p m (ins n)).push1 := by
    simpa using List.mem_of_mem_take here
  refine ⟨Nat.lt_succ_self n, fun a same => ⟨⟨e, here, same⟩, ?_, ?_⟩⟩
  · rcases either with rfl | rfl <;> rfl
  · rcases either with rfl | rfl
    · exact BpQ.push_first ((c n).fetchCyc p m (ins n)).push1Pc same
    · exact BpQ.push_second ((c n).fetchCyc p m (ins n)).push0Pc same

/-- The slots of the buffer that are in use, oldest first. -/
def slots (s : Cpu) : List BufEntry :=
  Clocked.ringList s.fetch.fetch.buf s.fetch.fetch.head s.fetch.fetch.count.toNat

/-- What the recorded cycles say before cycle `n`. -/
structure OnTheWay (p : Params) (m : DmemParams) (image : ℕ → BitVec 64) (c : ℕ → Cpu) (ins : ℕ → CpuIn) (n : ℕ)
    (t : Pushes) : Prop where
  buffer : List.Forall₂ (EntryRead p m c ins n) t.buffer (c n).slots
  /-- Behind a held halfword comes a whole word. -/
  aligned : ∃ a, FetchMem.Delivers p image a (c n).fetch ∧ ((c n).lsu.core.dec.hold = true → a.getLsbD 1 = false)
  hold : (c n).lsu.core.dec.hold = true → t.hold < n ∧
    ReadAt p m c ins t.hold (c n).lsu.core.dec.holdPc (c n).lsu.core.dec.holdPred (c n).lsu.core.dec.holdGhr
  de : (c n).de.valid = true → (c n).de.exIsCond = true → t.de < n ∧ ∃ taken ghr,
    ReadAt p m c ins t.de (c n).de.pc taken ghr ∧
      (c n).de.predPhtIndex = (if p.bpEn then (c n).de.pc.extractLsb 7 1 ^^^ ghr else 0) ∧
      (c n).de.predTaken = (p.bpEn && taken)

namespace OnTheWay

theorem head (way : OnTheWay p m image c ins n t) (valid : (c n).fetch.fetch.fePort.valid = true) :
    EntryRead p m c ins n t.head ((c n).fetch.fetch.buf (c n).fetch.fetch.head) := by
  rw [FetchMem.valid_iff] at valid
  obtain ⟨j, hj⟩ := Nat.exists_eq_add_of_le' valid
  have buffer := way.buffer
  rw [slots, hj, Clocked.ringList] at buffer
  cases h : t.buffer with
  | nil =>
    rw [h] at buffer
    cases buffer
  | cons k ks =>
    rw [h, List.forall₂_cons] at buffer
    rw [Pushes.head, h]
    exact buffer.1

theorem second (way : OnTheWay p m image c ins n t) (valid : (c n).fetch.fetch.fePort.nextValid = true) :
    EntryRead p m c ins n t.second ((c n).fetch.fetch.buf ((c n).fetch.fetch.head + 1)) := by
  have two : 2 ≤ (c n).fetch.fetch.count.toNat := by simpa [FetchQ.fePort, BitVec.le_def] using valid
  obtain ⟨j, hj⟩ := Nat.exists_eq_add_of_le' two
  have buffer := way.buffer
  rw [slots, hj, Clocked.ringList, Clocked.ringList] at buffer
  cases h : t.buffer with
  | nil =>
    rw [h] at buffer
    cases buffer
  | cons k rest =>
    rw [h, List.forall₂_cons] at buffer
    cases rest with
    | nil => cases buffer.2
    | cons l ks =>
      rw [List.forall₂_cons] at buffer
      rw [Pushes.second, h]
      exact buffer.2.1

/-- The buffer after a cycle: what was pushed comes last, and what decode popped is gone. -/
theorem buffer_next (way : OnTheWay p m image c ins n t) (sound : (c n).Sound p m image)
    (step : c (n + 1) = (c n).next p m (ins n)) :
    List.Forall₂ (EntryRead p m c ins (n + 1)) (t.next p m (c n) (ins n) n).buffer (c (n + 1)).slots := by
  cases red : ((c n).fetchCyc p m (ins n)).redirect with
  | true =>
    have gone : (c (n + 1)).slots = [] := by
      have none : (c (n + 1)).fetch.fetch.count = 0 := by
        rw [step]
        change (if ((c n).fetchCyc p m (ins n)).redirect then _ else _) = _
        rw [red]
        rfl
      rw [slots, none]
      rfl
    rw [gone, Pushes.next, red]
    exact .nil
  | false =>
    have moved : (c (n + 1)).slots = ((c n).slots ++ FetchMem.pushed ((c n).fetchCyc p m (ins n))).drop
        ((c n).fetchCyc p m (ins n)).bufPopCnt.toNat := by
      rw [step]
      exact FetchCyc.next_slots sound.fetch.counts (sound.fetch.ruled pop2Ok) red
    have new : List.Forall₂ (EntryRead p m c ins (n + 1))
        (List.replicate ((c n).fetchCyc p m (ins n)).pushCnt.toNat n)
        (FetchMem.pushed ((c n).fetchCyc p m (ins n))) := by
      have count : (FetchMem.pushed ((c n).fetchCyc p m (ins n))).length =
          ((c n).fetchCyc p m (ins n)).pushCnt.toNat := by
        have := ((c n).fetchCyc p m (ins n)).pushCnt_le
        simp [FetchMem.pushed]
        omega
      rw [List.forall₂_iff_get]
      refine ⟨by rw [List.length_replicate, count], fun j _ hj => ?_⟩
      rw [List.get_eq_getElem, List.getElem_replicate]
      exact pushed_read (List.get_mem _ _)
    rw [moved, Pushes.next, red]
    refine List.forall₂_drop _ (List.rel_append (way.buffer.imp fun _ _ read => read.mono) new)

theorem aligned_next (way : OnTheWay p m image c ins n t) (sound : (c n).Sound p m image)
    (step : c (n + 1) = (c n).next p m (ins n)) :
    ∃ a, FetchMem.Delivers p image a (c (n + 1)).fetch ∧
      ((c (n + 1)).lsu.core.dec.hold = true → a.getLsbD 1 = false) := by
  obtain ⟨a, del, low⟩ := way.aligned
  rw [step]
  cases flush : ((c n).exec p m (ins n)).flushO with
  | true =>
    refine ⟨_, (fetch_flush sound.fetch flush).2, fun held => ?_⟩
    have kept : ((c n).exec p m (ins n)).flushO = false :=
      (DecCyc.held_quiet (d := (c n).decode p m (ins n)) held).1
    rw [flush] at kept
    cases kept
  | false =>
    cases fire : ((c n).decode p m (ins n)).predRedirectFire with
    | true =>
      refine ⟨_, (fetch_predict sound.fetch flush fire).2, fun held => ?_⟩
      have quiet := (DecCyc.held_quiet (d := (c n).decode p m (ins n)) held).2
      rw [fire] at quiet
      cases quiet
    | false =>
      refine ⟨_, (fetch_quiet sound.fetch del flush fire).2, fun held => ?_⟩
      cases DecCyc.next_hold (d := (c n).decode p m (ins n)) held with
      | keeps _ held' pops =>
        rw [pops]
        exact low held'
      | second _ _ _ pops => exact lower_addrAfter _ _ pops
      | head _ _ _ pops => exact lower_addrAfter _ _ pops

theorem hold_next (way : OnTheWay p m image c ins n t) (step : c (n + 1) = (c n).next p m (ins n))
    (held : (c (n + 1)).lsu.core.dec.hold = true) :
    (t.next p m (c n) (ins n) n).hold < n + 1 ∧
      ReadAt p m c ins (t.next p m (c n) (ins n) n).hold (c (n + 1)).lsu.core.dec.holdPc
        (c (n + 1)).lsu.core.dec.holdPred (c (n + 1)).lsu.core.dec.holdGhr := by
  obtain ⟨a, del, low⟩ := way.aligned
  rw [step] at held ⊢
  have routed : (t.next p m (c n) (ins n) n).hold =
      if (((c n).decode p m (ins n)).stall || ((c n).decode p m (ins n)).spanWait) = true then t.hold
      else if ((c n).decode p m (ins n)).targetSpanComplete = true then t.second
      else t.head := rfl
  rw [routed, next_dec]
  cases DecCyc.next_hold (d := (c n).decode p m (ins n)) held with
  | keeps waits held' pops pc pred ghr =>
    rw [if_pos waits, pc, pred, ghr]
    obtain ⟨before, read⟩ := way.hold held'
    exact ⟨Nat.lt_succ_of_lt before, read⟩
  | second moves span valid pops pc pred ghr =>
    rw [if_neg (Bool.eq_false_iff.mp moves), if_pos span, pc, pred, ghr]
    obtain ⟨before, read⟩ := way.second valid
    have lower : ((c n).decode p m (ins n)).fe.nextPc.getLsbD 1 = false := by
      have here := congrArg Entry.pc (del.second valid)
      rw [pc_entryAt] at here
      exact (congrArg (fun x => x.getLsbD 1) here).trans (lower_nextAddr _ _)
    have half := read (((c n).decode p m (ins n)).fe.nextPc + 2) (sameWord_add_two lower)
    rw [upper_add_two lower] at half
    exact ⟨Nat.lt_succ_of_lt before, half⟩
  | head moves single valid pops pc pred ghr =>
    rw [if_neg (Bool.eq_false_iff.mp moves), if_neg (Bool.eq_false_iff.mp single), pred, ghr]
    obtain ⟨before, read⟩ := way.head valid
    refine ⟨Nat.lt_succ_of_lt before, ?_⟩
    rcases pc with ⟨pc, why⟩ | ⟨pc, upper⟩
    · have lower : ((c n).decode p m (ins n)).fe.pc.getLsbD 1 = false := by
        rcases why with held' | lower
        · have here := congrArg Entry.pc (del.head valid)
          rw [pc_entryAt] at here
          exact (congrArg (fun x => x.getLsbD 1) here).trans (low held')
        · exact lower
      have half := read (((c n).decode p m (ins n)).fe.pc + 2) (sameWord_add_two lower)
      rw [upper_add_two lower] at half
      rw [pc]
      exact half
    · have half := read ((c n).decode p m (ins n)).fe.pc rfl
      rw [upper] at half
      rw [pc]
      exact half

/-- The word latched into D/E: its bit comes from the hold buffer or from the head entry. -/
theorem de_next (push : p.bpPushLookup = true) (way : OnTheWay p m image c ins n t)
    (step : c (n + 1) = (c n).next p m (ins n)) (valid : (c (n + 1)).de.valid = true)
    (cond : (c (n + 1)).de.exIsCond = true) :
    (t.next p m (c n) (ins n) n).de < n + 1 ∧ ∃ taken ghr,
      ReadAt p m c ins (t.next p m (c n) (ins n) n).de (c (n + 1)).de.pc taken ghr ∧
        (c (n + 1)).de.predPhtIndex = (if p.bpEn then (c (n + 1)).de.pc.extractLsb 7 1 ^^^ ghr else 0) ∧
        (c (n + 1)).de.predTaken = (p.bpEn && taken) := by
  rw [step] at valid cond ⊢
  have kept : ((c n).exec p m (ins n)).flushO = false := by
    cases flush : ((c n).exec p m (ins n)).flushO with
    | false => rfl
    | true =>
      have empty : ((c n).next p m (ins n)).de = {} := Core.de_flush flush
      rw [empty] at valid
      cases valid
  have routed : (t.next p m (c n) (ins n) n).de =
      if ((c n).decode p m (ins n)).stall = true then t.de
      else if (((c n).decode p m (ins n)).spanComplete || ((c n).decode p m (ins n)).isHoldPlain) = true then t.hold
      else t.head := rfl
  rw [routed, decode_stall]
  cases stall : ((c n).exec p m (ins n)).stallO with
  | true =>
    have same : ((c n).next p m (ins n)).de = (c n).de := Core.de_stall kept stall
    rw [same] at valid cond ⊢
    obtain ⟨before, read⟩ := way.de valid cond
    exact ⟨Nat.lt_succ_of_lt before, read⟩
  | false =>
    have fresh : ((c n).next p m (ins n)).de = ((c n).decode p m (ins n)).deD := Core.de_advance kept stall
    rw [fresh] at valid cond ⊢
    obtain ⟨index, taken⟩ := DecCyc.pred_cond valid cond push
    obtain ⟨-, -, -, clean⟩ := DecCyc.src_cond cond
    rw [if_neg Bool.false_ne_true]
    cases stashed : ((c n).decode p m (ins n)).spanComplete || ((c n).decode p m (ins n)).isHoldPlain with
    | true =>
      obtain ⟨pc, bit, ghr⟩ := DecCyc.src_held push stashed clean
      have held : (c n).lsu.core.dec.hold = true := by
        simp only [DecCyc.spanComplete, DecCyc.spanPending, DecCyc.isHoldPlain, DecCyc.holdPlainPending,
          Bool.or_eq_true, Bool.and_eq_true] at stashed
        rcases stashed with ⟨⟨-, held, -⟩, -⟩ | ⟨held, -⟩ <;> exact held
      obtain ⟨before, read⟩ := way.hold held
      rw [if_pos rfl]
      refine ⟨Nat.lt_succ_of_lt before, _, _, ?_, index, taken⟩
      rw [pc, bit, ghr]
      exact read
    | false =>
      obtain ⟨pc, bit, ghr, here⟩ := DecCyc.src_entry push stashed valid clean
      obtain ⟨before, read⟩ := way.head here
      rw [if_neg Bool.false_ne_true]
      refine ⟨Nat.lt_succ_of_lt before, _, _, ?_, index, taken⟩
      rw [pc, bit, ghr]
      exact read _ rfl

end OnTheWay

/-! ## Runs -/

theorem onTheWay_run (push : p.bpPushLookup = true) (boot : Word) (s : Cpu) (ins : ℕ → CpuIn) (n : ℕ) :
    OnTheWay p m s.fetch.ram.mem (Clocked.run (next p m) (s.reset boot) ins) ins n
      (pushes p m (s.reset boot) ins n) := by
  induction n with
  | zero =>
    refine ⟨.nil, ⟨boot, .reset boot s.fetch, ?_⟩, ?_, ?_⟩
    · intro held
      cases held
    · intro held
      cases held
    · intro valid
      cases valid
  | succ n way =>
    have sound := sound_run (p := p) (m := m) boot { s with bp := s.bp.reset } ins n
    have step : Clocked.run (next p m) (s.reset boot) ins (n + 1) =
      (Clocked.run (next p m) (s.reset boot) ins n).next p m (ins n) := rfl
    exact ⟨way.buffer_next sound step, way.aligned_next sound step, way.hold_next step, way.de_next push step⟩

/-- A conditional branch in D/E carries the index its direction bit was read from when its first
halfword was pushed, and that bit; the predictor that is switched off leaves both fields zero. -/
theorem push_prediction (p : Params) (m : DmemParams) (push : p.bpPushLookup = true) (boot : Word) (s : Cpu)
    (ins : ℕ → CpuIn) (n : ℕ) (valid : (Clocked.run (next p m) (s.reset boot) ins n).de.valid = true)
    (cond : (Clocked.run (next p m) (s.reset boot) ins n).de.exIsCond = true) :
    let c := Clocked.run (next p m) (s.reset boot) ins
    let k := (pushes p m (s.reset boot) ins n).de
    k < n ∧ (∃ e ∈ FetchMem.pushed ((c k).fetchCyc p m (ins k)), SameWord (c n).de.pc e.pc) ∧
      (p.bpEn = true →
        (c n).de.predPhtIndex = (c n).de.pc.extractLsb 7 1 ^^^ (c k).bp.ghr ∧
        (c n).de.predTaken = ((c k).bp.pht (c n).de.predPhtIndex).getLsbD 1) ∧
      (p.bpEn = false → (c n).de.predPhtIndex = 0 ∧ (c n).de.predTaken = false) := by
  obtain ⟨before, taken, ghr, read, index, dir⟩ := (onTheWay_run push boot s ins n).de valid cond
  refine ⟨before, read.pushed, ?_, ?_⟩
  · intro en
    rw [en, if_pos rfl, read.ghr] at index
    refine ⟨index, ?_⟩
    rw [dir, en, Bool.true_and, read.taken, index]
    rfl
  · intro off
    rw [off] at index dir
    exact ⟨index, dir⟩

/-- A NOP, and a branch at address 4. -/
def branchAtFour : Cpu := ofWords [0x00000013#32, 0x00000463#32, 0x00000013#32]

/-- The branch is in D/E in cycle 4, and its word was pushed in cycle 1. -/
theorem push_prediction_four :
    let p : Params := { Params.board with bpPushLookup := true }
    let c := Clocked.run (next p .board) (branchAtFour.reset 0) (msipFrom 9)
    (pushes p .board (branchAtFour.reset 0) (msipFrom 9) 4).de = 1 ∧ (c 4).de.predPhtIndex = 2 := by
  intro p c
  have carried := push_prediction p .board rfl 0 branchAtFour (msipFrom 9) 4 (by decide +kernel) (by decide +kernel)
  refine ⟨by decide +kernel, (carried.2.2.1 rfl).1.trans (by decide +kernel)⟩

/-- With the predictor switched off the branch carries index zero. -/
theorem push_prediction_off : ¬ ∀ (p : Params) (m : DmemParams), p.bpPushLookup = true →
    ∀ (boot : Word) (s : Cpu) (ins : ℕ → CpuIn) (n : ℕ),
      let c := Clocked.run (next p m) (s.reset boot) ins
      (c n).de.valid = true → (c n).de.exIsCond = true →
        (c n).de.predPhtIndex =
          (c n).de.pc.extractLsb 7 1 ^^^ (c (pushes p m (s.reset boot) ins n).de).bp.ghr := by
  intro h
  have := h { Params.board with bpEn := false, bpPushLookup := true } .board rfl 0 branchAtFour (msipFrom 9) 4
    (by decide +kernel) (by decide +kernel)
  exact absurd this (by decide +kernel)

end Cpu

end YarvUc
