import YarvUc.Clocked.Stack
import YarvUc.Pipeline.Decoded

/-!
# The predictor's state

Training happens at commit and nowhere else, so the predictor is a function of the committed
control flow: the history register holds the outcomes of the last conditional branches, and
the return-address ring holds the bounded stack of the calls not yet returned from.
-/

namespace YarvUc

open Clocked

/-! ## Transfers -/

/-- `x1` and `x5` hold return addresses. -/
def linkReg (r : BitVec 5) : Bool := r == 1#5 || r == 5#5

namespace DeT

section

variable (de : DeT)

def isBranch : Bool := de.instr.extractLsb 6 0 == 0b1100011#7
def isJal : Bool := de.instr.extractLsb 6 0 == 0b1101111#7
def isJalr : Bool := de.instr.extractLsb 6 0 == 0b1100111#7

def isCall : Bool := (de.isJal || de.isJalr) && linkReg (de.instr.extractLsb 11 7)
def isReturn : Bool := de.isJalr && linkReg (de.instr.extractLsb 19 15) && de.instr.extractLsb 11 7 == 0#5

/-- The address behind the instruction. -/
def linkPc : Word := de.pc + if de.isCompressed then 2#32 else 4#32

/-- The outcome of a conditional branch: bit 14 compares for order, bit 13 without a sign, and
bit 12 negates. -/
def outcome : Bool :=
  let below := if de.instr.getLsbD 13 then decide (de.rs1Data.toNat < de.rs2Data.toNat)
    else decide (de.rs1Data.toInt < de.rs2Data.toInt)
  (if de.instr.getLsbD 14 then below else decide (de.rs1Data = de.rs2Data)) != de.instr.getLsbD 12

/-- What the word teaches the predictor when it commits. -/
def train : BpTrain where
  valid := de.isBranch || de.isJal || de.isJalr
  cond := de.isBranch
  call := de.isCall
  ret := de.isReturn
  taken := de.isJal || de.isJalr || de.isBranch && de.outcome
  phtIndex := de.predPhtIndex
  pushPc := de.linkPc

end

variable {de : DeT}

/-- The three kinds of transfer execute is shown are the three opcodes. -/
inductive Transfer (de : DeT) : Prop
  | jal (op : opcodeOf de.instr = OPC_JAL) (kind : de.branchType = .JAL)
  | jalr (op : opcodeOf de.instr = OPC_JALR) (kind : de.branchType = .JALR) (rs1 : de.rs1Addr = rs1Field de.instr)
  | cond (op : opcodeOf de.instr = OPC_BRANCH) (kind : de.branchType = condOf (funct3Of de.instr))
      (legal : condOf (funct3Of de.instr) ≠ .NONE)
  | none (jal : opcodeOf de.instr ≠ OPC_JAL) (jalr : opcodeOf de.instr ≠ OPC_JALR)
      (cond : opcodeOf de.instr ≠ OPC_BRANCH) (kind : de.branchType = .NONE)

theorem Decoded.transfer (known : de.Decoded) : de.Transfer := by
  have kind := known.branch
  have legal := known.legal
  by_cases jal : opcodeOf de.instr = OPC_JAL
  · exact .jal jal (kind.trans (decode_jal jal).1)
  by_cases jalr : opcodeOf de.instr = OPC_JALR
  · have f3 : funct3Of de.instr = 0b000#3 := by simpa using (decode_jalr jalr).2.symm.trans legal
    have uses : (decodeUniform de.instr).usesRs1 = true := by
      simp only [decodeUniform, jalr, f3]
      rfl
    refine .jalr jalr (kind.trans ((decode_jalr jalr).1.trans (if_pos f3))) ?_
    rw [known.rs1, rs1AddrDec, if_pos uses]
  by_cases cond : opcodeOf de.instr = OPC_BRANCH
  · rw [decode_branch cond] at kind legal
    rw [(decBranch_eq _).2.1] at legal
    exact .cond cond (kind.trans (decBranch_eq _).1) (beq_eq_false_iff_ne.mp legal)
  · exact .none jal jalr cond (kind.trans (branchType_other jal jalr cond))

/-- Execute compares as the `funct3` says. -/
theorem branchTaken_cond (kind : de.branchType = condOf (funct3Of de.instr))
    (legal : condOf (funct3Of de.instr) ≠ .NONE) : de.exIsCond = true ∧ de.branchTaken = de.outcome := by
  have b12 : de.instr.getLsbD 12 = (funct3Of de.instr).getLsbD 0 := by simp
  have b13 : de.instr.getLsbD 13 = (funct3Of de.instr).getLsbD 1 := by simp
  have b14 : de.instr.getLsbD 14 = (funct3Of de.instr).getLsbD 2 := by simp
  have eq : (de.rs1Data == de.rs2Data) = decide (de.rs1Data = de.rs2Data) := rfl
  have ge : de.rs2Data.sle de.rs1Data = !de.rs1Data.slt de.rs2Data := BitVec.sle_eq_not_slt
  have geu : de.rs2Data.ule de.rs1Data = !de.rs1Data.ult de.rs2Data := BitVec.ule_eq_not_ult _ _
  rw [exIsCond, branchTaken, outcome, b12, b13, b14, kind]
  rcases funct3_cases (funct3Of de.instr) with h | h | h | h | h | h | h | h <;> rw [h] at legal ⊢
  case inr.inr.inl | inr.inr.inr.inl => exact absurd rfl legal
  all_goals simp [condOf, bne, eq, ge, geu, BitVec.slt, BitVec.ult]

theorem Decoded.isBranch_eq (known : de.Decoded) : de.isBranch = de.exIsCond := by
  change (opcodeOf de.instr == OPC_BRANCH) = _
  cases known.transfer with
  | jal op kind => rw [op, exIsCond, kind]; rfl
  | jalr op kind rs1 => rw [op, exIsCond, kind]; rfl
  | cond op kind legal => rw [op, (branchTaken_cond kind legal).1]; rfl
  | none jal jalr cond kind => rw [beq_eq_false_iff_ne.mpr cond, exIsCond, kind]

theorem condOf_ne (f3 : BitVec 3) : condOf f3 ≠ .JAL ∧ condOf f3 ≠ .JALR := by
  revert f3
  decide

theorem Decoded.isJal_eq (known : de.Decoded) : de.isJal = (de.branchType == .JAL) := by
  change (opcodeOf de.instr == OPC_JAL) = _
  cases known.transfer with
  | jal op kind => rw [op, kind]; rfl
  | jalr op kind rs1 => rw [op, kind]; rfl
  | cond op kind legal => rw [op, kind, beq_eq_false_iff_ne.mpr (condOf_ne _).1]; rfl
  | none jal jalr cond kind => rw [beq_eq_false_iff_ne.mpr jal, kind]; rfl

theorem Decoded.isJalr_eq (known : de.Decoded) : de.isJalr = de.exIsJalr := by
  change (opcodeOf de.instr == OPC_JALR) = (de.branchType == .JALR)
  cases known.transfer with
  | jal op kind => rw [op, kind]; rfl
  | jalr op kind rs1 => rw [op, kind]; rfl
  | cond op kind legal => rw [op, kind, beq_eq_false_iff_ne.mpr (condOf_ne _).2]; rfl
  | none jal jalr cond kind => rw [beq_eq_false_iff_ne.mpr jalr, kind]; rfl

theorem Decoded.isCall_eq (known : de.Decoded) : de.isCall = de.exIsCall := by
  rw [isCall, known.isJal_eq, known.isJalr_eq, exIsCall, known.rd]
  rfl

theorem Decoded.isReturn_eq (known : de.Decoded) : de.isReturn = de.exIsReturn := by
  rw [isReturn, exIsReturn, known.isJalr_eq, known.rd]
  cases jalr : de.exIsJalr with
  | false => rfl
  | true =>
    have is : de.branchType = .JALR := beq_iff_eq.mp jalr
    cases known.transfer with
    | jal op kind => cases kind.symm.trans is
    | jalr op kind rs1 => rw [rs1]; rfl
    | cond op kind legal => exact absurd (kind.symm.trans is) (condOf_ne _).2
    | none jal jalr cond kind => cases kind.symm.trans is

theorem Decoded.taken_eq (known : de.Decoded) :
    (de.isJal || de.isJalr || de.isBranch && de.outcome) = de.branchTaken := by
  rw [known.isJal_eq, known.isJalr_eq, known.isBranch_eq]
  cases known.transfer with
  | jal op kind => simp [branchTaken, kind]
  | jalr op kind rs1 => simp [exIsJalr, branchTaken, kind]
  | cond op kind legal =>
    obtain ⟨cond, taken⟩ := branchTaken_cond kind legal
    simp [exIsJalr, cond, taken, kind, condOf_ne]
  | none jal jalr cond kind => simp [exIsJalr, exIsCond, branchTaken, kind]

theorem Decoded.valid_eq (known : de.Decoded) :
    (de.isBranch || de.isJal || de.isJalr) = (de.branchType != .NONE) := by
  rw [known.isBranch_eq, known.isJal_eq, known.isJalr_eq, exIsCond, exIsJalr]
  cases de.branchType <;> rfl

/-- Execute trains by what the word is. -/
theorem train_eq (known : de.Decoded) : de.train =
    { valid := de.branchType != .NONE, cond := de.exIsCond, call := de.exIsCall, ret := de.exIsReturn,
      taken := de.branchTaken, phtIndex := de.predPhtIndex, pushPc := de.pcLink } := by
  rw [train, known.valid_eq, known.taken_eq, known.isBranch_eq, known.isCall_eq, known.isReturn_eq]
  rfl

end DeT

/-! ## Training -/

@[simp] theorem DeT.train_cond (de : DeT) : de.train.cond = de.isBranch := rfl
@[simp] theorem DeT.train_call (de : DeT) : de.train.call = de.isCall := rfl
@[simp] theorem DeT.train_ret (de : DeT) : de.train.ret = de.isReturn := rfl
@[simp] theorem DeT.train_phtIndex (de : DeT) : de.train.phtIndex = de.predPhtIndex := rfl
@[simp] theorem DeT.train_pushPc (de : DeT) : de.train.pushPc = de.linkPc := rfl

theorem DeT.not_call_of_return {de : DeT} (ret : de.isReturn = true) : de.isCall = false := by
  simp only [isReturn, Bool.and_eq_true, beq_iff_eq] at ret
  simp [isCall, linkReg, ret.2]

theorem DeT.trains_return {de : DeT} (ret : de.isReturn = true) : de.train.valid = true := by
  simp only [isReturn, Bool.and_eq_true] at ret
  simp [train, ret.1.1]

theorem DeT.trains_call {de : DeT} (call : de.isCall = true) : de.train.valid = true := by
  simp only [isCall, Bool.and_eq_true] at call
  rw [train, Bool.or_assoc, call.1, Bool.or_true]

/-- The opcodes exclude each other. -/
theorem DeT.train_of_branch {de : DeT} (cond : de.isBranch = true) : de.train.valid = true ∧
    de.train.taken = de.outcome := by
  have op : de.instr.extractLsb 6 0 = 0b1100011#7 := beq_iff_eq.mp cond
  simp [train, cond, isJal, isJalr, op]

namespace BpQ

variable {q : BpQ} {t : BpTrain} {de : DeT}

theorem next_idle (idle : t.valid = false) : q.next t = q := by
  simp [next, idle]

/-- The live entries, last pushed first. -/
def rasList (q : BpQ) : List Word := stackList q.ras q.rasPtr q.rasCnt.toNat

/-- What a committed word does to the stack of return addresses. -/
def stackStep (stack : List Word) (de : DeT) : List Word :=
  if de.isCall then pushBounded 8 de.linkPc stack else if de.isReturn then stack.tail else stack

/-- What it does to the outcomes, newest first. -/
def outcomeStep (newest : List Bool) (de : DeT) : List Bool :=
  if de.isBranch then de.outcome :: newest else newest

/-- A counter from 0 to 3. -/
def count (n : ℕ) (taken : Bool) : ℕ := if taken then min (n + 1) 3 else n - 1

/-- The ring holds the stack, and its counter is at most the depth. -/
structure Holds (q : BpQ) (newest : List Bool) (stack : List Word) : Prop where
  ghr : Recent q.ghr newest
  count : q.rasCnt.toNat ≤ 8
  ras : q.rasList = stack

theorem holds_reset (q : BpQ) : q.reset.Holds [] [] := by
  refine ⟨?_, Nat.zero_le 8, rfl⟩
  intro j _
  simp [reset]

/-- The counter stops at the depth and at zero. -/
theorem count_push (bound : q.rasCnt.toNat ≤ 8) : (if q.rasCnt = 8 then q.rasCnt else q.rasCnt + 1).toNat =
    if q.rasCnt.toNat = 8 then q.rasCnt.toNat else q.rasCnt.toNat + 1 := by
  have full : q.rasCnt = 8 ↔ q.rasCnt.toNat = 8 := BitVec.toNat_inj.symm
  by_cases h : q.rasCnt.toNat = 8
  · rw [if_pos (full.mpr h), if_pos h]
  · rw [if_neg (mt full.mp h), if_neg h, BitVec.toNat_add]
    exact Nat.mod_eq_of_lt (by change _ + 1 < 16; omega)

theorem count_pop : (if q.rasCnt = 0 then 0 else q.rasCnt - 1).toNat = q.rasCnt.toNat - 1 := by
  have empty : q.rasCnt = 0 ↔ q.rasCnt.toNat = 0 := BitVec.toNat_inj.symm
  by_cases h : q.rasCnt.toNat = 0
  · rw [if_pos (empty.mpr h), h]
    rfl
  · have one : (1 : BitVec 4) ≤ q.rasCnt := by
      rw [BitVec.le_def]
      exact Nat.one_le_iff_ne_zero.mpr h
    rw [if_neg (mt empty.mp h), BitVec.toNat_sub_of_le one]
    rfl

/-- A return pops the ring. -/
theorem rasList_return (q : BpQ) (ret : de.isReturn = true) :
    (q.next de.train).rasCnt.toNat = q.rasCnt.toNat - 1 ∧ (q.next de.train).rasList = q.rasList.tail := by
  have call := DeT.not_call_of_return ret
  have valid := DeT.trains_return ret
  have cnt : (q.next de.train).rasCnt.toNat = q.rasCnt.toNat - 1 := by
    rw [← count_pop]
    simp [BpQ.next, ret, valid]
  refine ⟨cnt, ?_⟩
  rw [rasList, cnt, rasList, ← stackList_pop]
  simp [BpQ.next, ret, call, valid]

/-- A call pushes onto it. -/
theorem rasList_call (call : de.isCall = true) (ret : de.isReturn = false) (bound : q.rasCnt.toNat ≤ 8) :
    (q.next de.train).rasCnt.toNat = (if q.rasCnt.toNat = 8 then q.rasCnt.toNat else q.rasCnt.toNat + 1) ∧
      (q.next de.train).rasList = pushBounded 8 de.linkPc q.rasList := by
  have valid := DeT.trains_call call
  have cnt : (q.next de.train).rasCnt.toNat =
      if q.rasCnt.toNat = 8 then q.rasCnt.toNat else q.rasCnt.toNat + 1 := by
    rw [← count_push bound]
    simp [BpQ.next, ret, call, valid]
  refine ⟨cnt, ?_⟩
  have ras : (q.next de.train).ras = Function.update q.ras q.rasPtr de.linkPc := by
    simp [BpQ.next, call, valid]
  have ptr : (q.next de.train).rasPtr = q.rasPtr + 1 := by simp [BpQ.next, ret, call, valid]
  rw [rasList, ras, ptr, cnt]
  exact stackList_push q.ras q.rasPtr de.linkPc bound

theorem ghr_next {newest : List Bool} (recent : Recent q.ghr newest) :
    Recent (q.next de.train).ghr (outcomeStep newest de) := by
  cases cond : de.isBranch with
  | false => simpa [BpQ.next, cond, outcomeStep] using recent
  | true =>
    have ghr : (q.next de.train).ghr = q.ghr.extractLsb' 0 6 ++ BitVec.ofBool de.outcome := by
      simp only [BpQ.next, DeT.train_cond, cond, DeT.train_of_branch cond, Bool.and_self, if_true]
      rfl
    rw [ghr, outcomeStep, if_pos cond]
    exact recent.shift de.outcome

theorem toNat_satUpdate (c : BitVec 2) (t : Bool) : (satUpdate c t).toNat = count c.toNat t := by
  revert c t
  decide

theorem pht_next (q : BpQ) (de : DeT) (x : PhtIdx) : ((q.next de.train).pht x).toNat =
    if de.isBranch && de.predPhtIndex == x then count (q.pht x).toNat de.outcome else (q.pht x).toNat := by
  cases cond : de.isBranch with
  | false => simp [BpQ.next, cond]
  | true =>
    simp only [BpQ.next, DeT.train_cond, cond, DeT.train_of_branch cond, Bool.and_self, if_true, Bool.true_and,
      DeT.train_phtIndex, beq_iff_eq]
    by_cases hit : de.predPhtIndex = x
    · rw [if_pos hit, hit, Function.update_self, toNat_satUpdate]
    · rw [if_neg hit, Function.update_of_ne (Ne.symm hit)]

theorem Holds.next {newest : List Bool} {stack : List Word} (h : q.Holds newest stack) (de : DeT) :
    (q.next de.train).Holds (outcomeStep newest de) (stackStep stack de) := by
  have bound := h.count
  have ghr : Recent (q.next de.train).ghr (outcomeStep newest de) := ghr_next h.ghr
  rw [← h.ras]
  cases ret : de.isReturn with
  | true =>
    obtain ⟨cnt, ras⟩ := q.rasList_return ret
    refine ⟨ghr, by omega, ?_⟩
    rw [ras, stackStep, DeT.not_call_of_return ret, ret]
    rfl
  | false =>
    cases call : de.isCall with
    | true =>
      obtain ⟨cnt, ras⟩ := rasList_call call ret bound
      refine ⟨ghr, ?_, ?_⟩
      · rw [cnt]
        split <;> omega
      · rw [ras, stackStep, call, if_pos rfl]
    | false =>
      refine ⟨ghr, ?_, ?_⟩
      · simpa [BpQ.next, ret, call] using bound
      · simp [rasList, BpQ.next, DeT.train, ret, call, stackStep]

end BpQ

/-! ## Training is commit -/

namespace ExCyc

variable {e : ExCyc}

/-- The predictor sees a committed word and nothing else. -/
theorem Outcome.trains (h : e.Outcome)
    (known : e.de.valid = true → e.de.Latched) (q : BpQ) :
    q.next e.bpTrain = if e.opCommits then q.next e.de.train else q := by
  have quiet : e.cfResolving = false → q.next e.bpTrain = q := fun off => BpQ.next_idle off
  have inert : e.Inert → q.next e.bpTrain = if e.opCommits then q.next e.de.train else q := by
    intro inert
    rw [quiet inert.train, inert.commit]
    rfl
  cases h with
  | bubble _ _ _ _ _ none => exact inert none
  | asleep _ _ _ _ _ none => exact inert none
  | trap _ _ _ _ _ none => exact inert none
  | interrupt _ _ _ _ _ _ _ none => exact inert none
  | hold _ _ _ _ none => exact inert none
  | commit k valid is nonexc state awake stall sync int mret commit wb csr train =>
    have plain : e.de.exception = false := by
      rw [is.exception]
      cases k <;> first | rfl | exact absurd rfl nonexc
    rw [commit, if_pos rfl, DeT.train_eq ((known valid).decoded plain), is.branch, ← train]
    cases resolves : e.cfResolving with
    | false => rw [quiet resolves, BpQ.next_idle rfl]
    | true =>
      congr 1
      simp [bpTrain, resolves]

end ExCyc

namespace Cpu

variable {p : Params} {m : DmemParams}

/-- The word that commits in a cycle. -/
def commits (p : Params) (m : DmemParams) (s : Cpu) (i : CpuIn) : List DeT :=
  if (s.exec p m i).opCommits then [s.de] else []

/-- The words committed before cycle `n`, in order. -/
def committed (p : Params) (m : DmemParams) (s : Cpu) (ins : ℕ → CpuIn) (n : ℕ) : List DeT :=
  Clocked.log (next p m) (commits p m) s ins n

/-- The outcomes of the conditional branches among them, newest first. -/
def outcomes (words : List DeT) : List Bool := ((words.filter DeT.isBranch).map DeT.outcome).reverse

/-- The calls among them that have not been returned from, the last one first. -/
def returnStack (words : List DeT) : List Word := words.foldl BpQ.stackStep []

/-- The branches that train a counter. -/
def trains (x : PhtIdx) (words : List DeT) : List DeT := words.filter fun de => de.isBranch && de.predPhtIndex == x

theorem outcomes_eq_foldl (words : List DeT) : outcomes words = words.foldl BpQ.outcomeStep [] := by
  induction words using List.reverseRecOn with
  | nil => rfl
  | append_singleton words de ih =>
    rw [List.foldl_append, ← ih]
    cases cond : de.isBranch <;> simp [outcomes, BpQ.outcomeStep, cond]

theorem pht_foldl (q : BpQ) (words : List DeT) (x : PhtIdx) :
    ((words.foldl (fun q de => q.next de.train) q).pht x).toNat =
      ((trains x words).map DeT.outcome).foldl BpQ.count (q.pht x).toNat := by
  induction words generalizing q with
  | nil => rfl
  | cons de words ih =>
    rw [List.foldl_cons, ih, BpQ.pht_next, trains, trains, List.filter_cons]
    split <;> rfl

theorem holds_foldl (q : BpQ) (words : List DeT) :
    (words.foldl (fun q de => q.next de.train) q.reset).Holds (outcomes words) (returnStack words) := by
  rw [outcomes_eq_foldl]
  induction words using List.reverseRecOn with
  | nil => exact BpQ.holds_reset q
  | append_singleton words de ih =>
    rw [returnStack, List.foldl_append, List.foldl_append, List.foldl_append]
    exact ih.next de

/-- The predictor before cycle `n` of a run from reset. -/
structure Predicts (p : Params) (m : DmemParams) (boot : Word) (s : Cpu) (ins : ℕ → CpuIn) (n : ℕ) : Prop where
  /-- All of it is what the committed words made of its reset state. -/
  bp : (Clocked.run (next p m) (s.reset boot) ins n).bp =
    (committed p m (s.reset boot) ins n).foldl (fun q de => q.next de.train) s.bp.reset
  /-- A counter has seen the outcomes of the branches that were predicted with it. -/
  pht : ∀ x, ((Clocked.run (next p m) (s.reset boot) ins n).bp.pht x).toNat =
    ((trains x (committed p m (s.reset boot) ins n)).map DeT.outcome).foldl BpQ.count (s.bp.pht x).toNat
  ghr : ∀ j < 7, (Clocked.run (next p m) (s.reset boot) ins n).bp.ghr.getLsbD j =
    (outcomes (committed p m (s.reset boot) ins n)).getD j false
  rasValid : ∀ pc, ((Clocked.run (next p m) (s.reset boot) ins n).bp.lookup pc).rasValid = true ↔
    returnStack (committed p m (s.reset boot) ins n) ≠ []
  rasTop : ∀ pc top, (returnStack (committed p m (s.reset boot) ins n)).head? = some top →
    ((Clocked.run (next p m) (s.reset boot) ins n).bp.lookup pc).rasTop = top
  /-- A cycle in which nothing commits leaves it alone. -/
  quiet : ((Clocked.run (next p m) (s.reset boot) ins n).exec p m (ins n)).opCommits = false →
    (Clocked.run (next p m) (s.reset boot) ins (n + 1)).bp = (Clocked.run (next p m) (s.reset boot) ins n).bp

theorem predictor_committed (p : Params) (m : DmemParams) (boot : Word) (s : Cpu) (ins : ℕ → CpuIn) (n : ℕ) :
    Predicts p m boot s ins n := by
  have step : ∀ n, (Clocked.run (next p m) (s.reset boot) ins (n + 1)).bp =
      if ((Clocked.run (next p m) (s.reset boot) ins n).exec p m (ins n)).opCommits then
        (Clocked.run (next p m) (s.reset boot) ins n).bp.next (Clocked.run (next p m) (s.reset boot) ins n).de.train
      else (Clocked.run (next p m) (s.reset boot) ins n).bp := by
    intro n
    have sound := sound_run (p := p) (m := m) boot { s with bp := s.bp.reset } ins n
    exact sound.lsu.core.outcome.trains (latched_run boot { s with bp := s.bp.reset } ins n) _
  have bp : (Clocked.run (next p m) (s.reset boot) ins n).bp =
      (committed p m (s.reset boot) ins n).foldl (fun q de => q.next de.train) s.bp.reset := by
    induction n with
    | zero => rfl
    | succ n ih =>
      have log : committed p m (s.reset boot) ins (n + 1) =
        committed p m (s.reset boot) ins n ++ commits p m (Clocked.run (next p m) (s.reset boot) ins n) (ins n) := rfl
      rw [step, log, List.foldl_append, ← ih, commits]
      split <;> rfl
  have holds := holds_foldl s.bp (committed p m (s.reset boot) ins n)
  rw [← bp] at holds
  refine ⟨bp, ?_, holds.ghr, ?_, ?_, ?_⟩
  · intro x
    rw [bp, pht_foldl]
    rfl
  · intro pc
    rw [← holds.ras, ← List.length_pos_iff_ne_nil, BpQ.rasList, length_stackList, Nat.pos_iff_ne_zero]
    exact bne_iff_ne.trans (not_congr BitVec.toNat_inj.symm)
  · intro pc top head
    rw [← holds.ras, BpQ.rasList] at head
    cases cnt : (Clocked.run (next p m) (s.reset boot) ins n).bp.rasCnt.toNat with
    | zero =>
      rw [cnt] at head
      cases head
    | succ k =>
      rw [cnt, stackList] at head
      exact Option.some.inj head
  · intro none
    rw [step, none]
    rfl

/-- Two nested calls. The inner one's body is a branch that is taken and one that is not; both
return, the inner one through `x5`, and the first call's caller loops. -/
def nestedCalls : Cpu :=
  ofWords [0x010000EF#32, 0x0000006F#32, 0x00000013#32, 0x00000013#32, 0x008002EF#32, 0x00008067#32,
    0x00000463#32, 0x00000013#32, 0x00001463#32, 0x00028067#32]

/-- A cycle of its run. -/
def nestedCallsAt (n : ℕ) : Cpu := Clocked.run (next .board .board) (nestedCalls.reset 0) (msipFrom 100) n

/-- The words it has committed. -/
def nestedCallsDone (n : ℕ) : List DeT := committed .board .board (nestedCalls.reset 0) (msipFrom 100) n

theorem nestedCalls_called : returnStack (nestedCallsDone 12) = [0x14#32, 0x4#32] := by decide +kernel

theorem nestedCalls_returned :
    returnStack (nestedCallsDone 15) = [] ∧ outcomes (nestedCallsDone 15) = [false, true] := by decide +kernel

/-- The inner call's link address is on top in cycle 12, and none is left in cycle 15. -/
theorem predictor_committed_nested : ((nestedCallsAt 12).bp.lookup 0).rasTop = 0x14#32 ∧
    ((nestedCallsAt 15).bp.lookup 0).rasValid = false ∧
    (nestedCallsAt 15).bp.ghr.getLsbD 0 = false ∧ (nestedCallsAt 15).bp.ghr.getLsbD 1 = true := by
  have before := fun n => predictor_committed .board .board 0 nestedCalls (msipFrom 100) n
  obtain ⟨none, newest⟩ := nestedCalls_returned
  refine ⟨?_, ?_, ?_, ?_⟩
  · exact (before 12).rasTop 0 _ (congrArg List.head? nestedCalls_called)
  · exact Bool.eq_false_iff.mpr fun some => ((before 15).rasValid 0).mp some none
  · exact ((before 15).ghr 0 (by decide)).trans (congrArg (List.getD · 0 false) newest)
  · exact ((before 15).ghr 1 (by decide)).trans (congrArg (List.getD · 1 false) newest)

end Cpu

end YarvUc
