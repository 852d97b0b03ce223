import YarvUc.Decode.Class
import YarvUc.Decode.Immediates
import YarvUc.Rtl.ExecuteStage

/-!
# The predictor's fast path

The predictor classifies a source from its raw bits, beside `c_expand` and the opcode
case. Both are compared with one table, `branchOf` for 32-bit words and `branch16` for
halfwords: they agree on what is control flow, of what kind, and where it goes.
-/

namespace YarvUc

/-! ## The transfers of 32-bit words -/

/-- The transfer a conditional branch's `funct3` asks for. -/
def condOf (f3 : BitVec 3) : Branch :=
  if f3 = 0b000#3 then .BEQ
  else if f3 = 0b001#3 then .BNE
  else if f3 = 0b100#3 then .BLT
  else if f3 = 0b101#3 then .BGE
  else if f3 = 0b110#3 then .BLTU
  else if f3 = 0b111#3 then .BGEU
  else .NONE

/-- The transfer an opcode and a `funct3` ask for. -/
def branchOf (op : BitVec 7) (f3 : BitVec 3) : Branch :=
  if op = OPC_JAL then .JAL
  else if op = OPC_JALR then (if f3 = 0b000#3 then .JALR else .NONE)
  else if op = OPC_BRANCH then condOf f3
  else .NONE

def Branch.isCond : Branch → Bool
  | .BEQ | .BNE | .BLT | .BGE | .BLTU | .BGEU => true
  | _ => false

theorem decBranch_eq (w : Word) : (decBranch w).branchType = condOf (funct3Of w) ∧
    (decBranch w).decIllegal = (condOf (funct3Of w) == .NONE) ∧ (decBranch w).imm = immB w := by
  unfold decBranch
  rcases funct3_cases (funct3Of w) with h | h | h | h | h | h | h | h <;> rw [h] <;> exact ⟨rfl, rfl, rfl⟩

/-- The opcodes behind the branches transfer nothing. -/
theorem branchType_other {w : Word} (jal : opcodeOf w ≠ OPC_JAL) (jalr : opcodeOf w ≠ OPC_JALR)
    (branch : opcodeOf w ≠ OPC_BRANCH) : (decodeUniform w).branchType = .NONE := by
  have ite : ∀ {p : Prop} [Decidable p] {a b : Ctrl}, a.branchType = .NONE → b.branchType = .NONE →
      (if p then a else b).branchType = .NONE := by
    intro p _ a b ha hb
    split
    · exact ha
    · exact hb
  unfold decodeUniform
  rw [if_neg jal, if_neg jalr, if_neg branch]
  refine ite rfl (ite rfl (ite ?load (ite ?store (ite ?opImm (ite ?op (ite ?amo (ite ?system (ite ?miscMem rfl))))))))
  case load => exact ite rfl (ite rfl (ite rfl (ite rfl (ite rfl rfl))))
  case store => exact ite rfl (ite rfl (ite rfl rfl))
  case opImm => exact ite rfl (ite rfl (ite rfl (ite rfl (ite rfl (ite rfl (ite rfl rfl))))))
  case op =>
    refine ite ?_ ?_
    · exact ite rfl (ite rfl (ite rfl (ite rfl (ite rfl (ite rfl (ite rfl rfl))))))
    · exact ite rfl (ite rfl (ite rfl (ite rfl (ite rfl (ite rfl (ite rfl rfl))))))
  case amo => exact ite rfl rfl
  case system =>
    refine ite ?_ ?_
    · exact ite rfl (ite rfl (ite rfl (ite rfl (ite rfl (ite rfl rfl)))))
    · exact ite rfl (ite rfl (ite rfl (ite rfl rfl)))
  case miscMem => exact ite rfl (ite rfl rfl)

theorem decode_jal {w : Word} (op : opcodeOf w = OPC_JAL) : (decodeUniform w).branchType = .JAL ∧
    (decodeUniform w).decIllegal = false ∧ (decodeUniform w).imm = immJ w := by
  simp only [decodeUniform, op]
  exact ⟨rfl, rfl, rfl⟩

theorem decode_jalr {w : Word} (op : opcodeOf w = OPC_JALR) :
    (decodeUniform w).branchType = (if funct3Of w = 0b000#3 then .JALR else .NONE) ∧
      (decodeUniform w).decIllegal = decide (funct3Of w ≠ 0b000#3) := by
  have case : decodeUniform w =
      if funct3Of w = 0b000#3 then
        { regWrite := true, aluSrcA := .RS1, aluSrcB := .IMM, wbSrc := .PC4, branchType := .JALR,
          usesRs1 := true, imm := immI w, decIllegal := false }
      else {} := by
    simp only [decodeUniform, op]
    rfl
  rw [case]
  by_cases f3 : funct3Of w = 0b000#3
  · rw [if_pos f3, if_pos f3, decide_eq_false (not_not.mpr f3)]
    exact ⟨rfl, rfl⟩
  · rw [if_neg f3, if_neg f3, decide_eq_true f3]
    exact ⟨rfl, rfl⟩

theorem decode_branch {w : Word} (op : opcodeOf w = OPC_BRANCH) : decodeUniform w = decBranch w := by
  simp only [decodeUniform, op]
  rfl

theorem branchType_uniform (w : Word) : (decodeUniform w).branchType = branchOf (opcodeOf w) (funct3Of w) := by
  unfold branchOf
  by_cases jal : opcodeOf w = OPC_JAL
  · rw [if_pos jal, (decode_jal jal).1]
  by_cases jalr : opcodeOf w = OPC_JALR
  · rw [if_neg jal, if_pos jalr, (decode_jalr jalr).1]
  by_cases branch : opcodeOf w = OPC_BRANCH
  · rw [if_neg jal, if_neg jalr, if_pos branch, decode_branch branch, (decBranch_eq w).1]
  · rw [if_neg jal, if_neg jalr, if_neg branch, branchType_other jal jalr branch]

/-- No illegal word has a branch type. -/
theorem legal_of_branch {w : Word} (transfers : (decodeUniform w).branchType ≠ .NONE) :
    (decodeUniform w).decIllegal = false := by
  by_cases jal : opcodeOf w = OPC_JAL
  · exact (decode_jal jal).2.1
  by_cases jalr : opcodeOf w = OPC_JALR
  · rw [(decode_jalr jalr).1] at transfers
    rw [(decode_jalr jalr).2]
    by_cases f3 : funct3Of w = 0b000#3
    · simp [f3]
    · rw [if_neg f3] at transfers
      exact absurd rfl transfers
  by_cases branch : opcodeOf w = OPC_BRANCH
  · rw [decode_branch branch, (decBranch_eq w).1] at transfers
    rw [decode_branch branch, (decBranch_eq w).2.1]
    exact beq_eq_false_iff_ne.mpr transfers
  · exact absurd (branchType_other jal jalr branch) transfers

/-- Direct transfers are relative to the pc by the J or the B immediate. -/
theorem imm_direct {w : Word} (direct : (decodeUniform w).branchType ≠ .NONE)
    (noJalr : (decodeUniform w).branchType ≠ .JALR) :
    (decodeUniform w).imm = if opcodeOf w = OPC_JAL then immJ w else immB w := by
  by_cases jal : opcodeOf w = OPC_JAL
  · rw [if_pos jal, (decode_jal jal).2.2]
  rw [if_neg jal]
  by_cases jalr : opcodeOf w = OPC_JALR
  · rw [(decode_jalr jalr).1] at direct noJalr
    split at noJalr
    · exact absurd rfl noJalr
    · rename_i f3
      rw [if_neg f3] at direct
      exact absurd rfl direct
  by_cases branch : opcodeOf w = OPC_BRANCH
  · rw [decode_branch branch, (decBranch_eq w).2.2]
  · exact absurd (branchType_other jal jalr branch) direct

/-! ## The transfers of halfwords -/

/-- The transfer of a compressed halfword, by its raw bits. -/
def branch16 (c : BitVec 16) : Branch :=
  if c.extractLsb 1 0 = 0b01#2 then
    if cF3 c = 0b001#3 ∨ cF3 c = 0b101#3 then .JAL
    else if cF3 c = 0b110#3 then .BEQ
    else if cF3 c = 0b111#3 then .BNE
    else .NONE
  else if c.extractLsb 1 0 = 0b10#2 ∧ cF3 c = 0b100#3 ∧ cRs2 c = 0 ∧ cRd5 c ≠ 0 then .JALR
  else .NONE

/-- A built word of any other opcode transfers nothing. -/
theorem plain_mkI {op : BitVec 7} (rd rs1 : BitVec 5) (f3 : BitVec 3) (off : Word)
    (other : op = OPC_OP_IMM ∨ op = OPC_LOAD ∨ op = OPC_SYSTEM) :
    (decodeUniform (mkI op rd rs1 f3 off)).branchType = .NONE := by
  rw [branchType_uniform, (fields_mkI _ _ _ _ _).1]
  rcases other with rfl | rfl | rfl <;> rfl

theorem plain_mkS (rs1 rs2 : BitVec 5) (f3 : BitVec 3) (off : Word) :
    (decodeUniform (mkS OPC_STORE rs1 rs2 f3 off)).branchType = .NONE := by
  rw [branchType_uniform, (fields_mkS _ _ _ _ _).1]
  rfl

theorem plain_mkR (rd rs1 rs2 : BitVec 5) (f3 : BitVec 3) (f7 : BitVec 7) :
    (decodeUniform (mkR OPC_OP rd rs1 rs2 f3 f7)).branchType = .NONE := by
  rw [branchType_uniform, (fields_mkR _ _ _ _ _ _).1]
  rfl

theorem plain_mkU (rd : BitVec 5) (off : Word) : (decodeUniform (mkU OPC_LUI rd off)).branchType = .NONE := by
  rw [branchType_uniform, fields_mkU]
  rfl

theorem jal_mkJ (rd : BitVec 5) (off : Word) : (decodeUniform (mkJ OPC_JAL rd off)).branchType = .JAL := by
  rw [branchType_uniform, fields_mkJ]
  rfl

theorem plain_misc (c : BitVec 16) : (decodeUniform (cQuad1Misc c)).branchType = .NONE := by
  unfold cQuad1Misc
  repeat' split
  · exact plain_mkI _ _ _ _ (.inl rfl)
  · exact plain_mkI _ _ _ _ (.inl rfl)
  · exact plain_mkI _ _ _ _ (.inl rfl)
  · exact plain_mkR _ _ _ _ _
  · exact plain_mkR _ _ _ _ _
  · exact plain_mkR _ _ _ _ _
  · exact plain_mkR _ _ _ _ _

theorem branchType_quad0 (c : BitVec 16) : (decodeUniform (cQuad0 c)).branchType = .NONE := by
  unfold cQuad0
  repeat' split
  · exact plain_mkI _ _ _ _ (.inl rfl)
  · rfl
  · exact plain_mkI _ _ _ _ (.inr (.inl rfl))
  · exact plain_mkS _ _ _ _
  · rfl

theorem branchType_quad1 {c : BitVec 16} (q : c.extractLsb 1 0 = 0b01#2) :
    (decodeUniform (cQuad1 c)).branchType = branch16 c := by
  rw [branch16, if_pos q, cQuad1]
  rcases funct3_cases (cF3 c) with h | h | h | h | h | h | h | h <;> rw [h]
  · change (decodeUniform (if cRd5 c = 0 ∧ cImm6 c = 0 then _ else if cRd5 c ≠ 0 then _ else 0)).branchType = .NONE
    repeat' split
    · exact plain_mkI _ _ _ _ (.inl rfl)
    · exact plain_mkI _ _ _ _ (.inl rfl)
    · rfl
  · exact jal_mkJ _ _
  · change (decodeUniform (if cRd5 c ≠ 0 then _ else 0)).branchType = .NONE
    split
    · exact plain_mkI _ _ _ _ (.inl rfl)
    · rfl
  · change (decodeUniform (if cRd5 c = 2 then if cNz16 c ≠ 0 then _ else 0
      else if cRd5 c ≠ 0 ∧ cImm6 c ≠ 0 then _ else 0)).branchType = .NONE
    repeat' split
    · exact plain_mkI _ _ _ _ (.inl rfl)
    · rfl
    · exact plain_mkU _ _
    · rfl
  · exact plain_misc c
  · exact jal_mkJ _ _
  · change (decodeUniform (mkB _ _ _ _ _)).branchType = .BEQ
    rw [branchType_uniform, (fields_mkB _ _ _ _ _).1, (fields_mkB _ _ _ _ _).2]
    rfl
  · change (decodeUniform (mkB _ _ _ _ _)).branchType = .BNE
    rw [branchType_uniform, (fields_mkB _ _ _ _ _).1, (fields_mkB _ _ _ _ _).2]
    rfl

theorem branchType_quad2 {c : BitVec 16} (q : c.extractLsb 1 0 = 0b10#2) :
    (decodeUniform (cQuad2 c)).branchType = branch16 c := by
  have none : cF3 c ≠ 0b100#3 → branch16 c = .NONE := fun h => by simp [branch16, q, h]
  rw [cQuad2]
  rcases funct3_cases (cF3 c) with h | h | h | h | h | h | h | h <;> rw [h] at none ⊢
  · rw [none (by decide)]
    change (decodeUniform (if cRd5 c ≠ 0 then _ else 0)).branchType = .NONE
    split
    · exact plain_mkI _ _ _ _ (.inl rfl)
    · rfl
  · exact (none (by decide)).symm
  · rw [none (by decide)]
    change (decodeUniform (if cRd5 c ≠ 0 then _ else 0)).branchType = .NONE
    split
    · exact plain_mkI _ _ _ _ (.inr (.inl rfl))
    · rfl
  · exact (none (by decide)).symm
  · change (decodeUniform (if cRd5 c = 0#5 ∧ cRs2 c = 0#5 then _ else if cRs2 c = 0#5 then _ else if cRd5 c ≠ 0#5 then
      (if c.getLsbD 12 then _ else _) else 0)).branchType = _
    by_cases rs2 : cRs2 c = 0#5
    · by_cases rd : cRd5 c = 0#5
      · rw [if_pos ⟨rd, rs2⟩, show branch16 c = .NONE by simp [branch16, q, rd]]
        exact plain_mkI _ _ _ _ (.inr (.inr rfl))
      · rw [if_neg (fun both => rd both.1), if_pos rs2, branchType_uniform, (fields_mkI _ _ _ _ _).1,
          (fields_mkI _ _ _ _ _).2.1, show branch16 c = .JALR by simp [branch16, q, h, rs2, rd]]
        rfl
    · rw [if_neg (fun both => rs2 both.2), if_neg rs2, show branch16 c = .NONE by simp [branch16, q, rs2]]
      split
      · split
        · exact plain_mkR _ _ _ _ _
        · exact plain_mkR _ _ _ _ _
      · rfl
  · exact (none (by decide)).symm
  · rw [none (by decide)]
    exact plain_mkS _ _ _ _
  · exact (none (by decide)).symm

theorem branchType_expand (c : BitVec 16) : (decodeUniform (cExpand c)).branchType = branch16 c := by
  unfold cExpand
  rcases quadrant_cases (c.extractLsb 1 0) with q | q | q | q <;> rw [q]
  · rw [branch16, q]
    exact branchType_quad0 c
  · exact branchType_quad1 q
  · exact branchType_quad2 q
  · rw [branch16, q]
    rfl

theorem expand_jal {c : BitVec 16} (jal : branch16 c = .JAL) :
    (∃ rd, cExpand c = mkJ OPC_JAL rd ((cJOff c).signExtend 32)) ∧ c.getLsbD 14 = false := by
  have bit : c.getLsbD 14 = (cF3 c).getLsbD 1 := by simp
  unfold branch16 at jal
  split at jal
  · rename_i q
    split at jal
    · rename_i f3
      rw [bit, cExpand, q]
      rcases f3 with f3 | f3 <;> simp only [cQuad1, f3] <;> exact ⟨⟨_, rfl⟩, rfl⟩
    · repeat' split at jal
      all_goals cases jal
  · split at jal <;> cases jal

theorem expand_cond {c : BitVec 16} (cond : (branch16 c).isCond = true) :
    (∃ f3, cExpand c = mkB OPC_BRANCH (cRs1P c) 0 f3 ((cBOff c).signExtend 32)) ∧ c.getLsbD 14 = true := by
  have bit : c.getLsbD 14 = (cF3 c).getLsbD 1 := by simp
  unfold branch16 at cond
  split at cond
  · rename_i q
    rw [bit, cExpand, q]
    rcases funct3_cases (cF3 c) with h | h | h | h | h | h | h | h <;> rw [h] at cond ⊢
    all_goals first
      | exact Bool.noConfusion cond
      | simp only [cQuad1, h]; exact ⟨⟨_, rfl⟩, rfl⟩
  · split at cond <;> cases cond

theorem expand_jalr {c : BitVec 16} (jalr : branch16 c = .JALR) :
    cExpand c = mkI OPC_JALR (if c.getLsbD 12 then 1 else 0) (cRd5 c) 0b000#3 0 := by
  unfold branch16 at jalr
  split at jalr
  · repeat' split at jalr
    all_goals cases jalr
  · split at jalr
    · rename_i h
      obtain ⟨q, f3, rs2, nonzero⟩ := h
      have rd : cRd5 c ≠ 0#5 := nonzero
      simp [cExpand, q, cQuad2, f3, rs2, rd]
    · cases jalr

/-! ## The fast path -/

namespace Src

variable (s : Src)

/-- The transfer of a source. -/
def branch : Branch := if s.isCompressed then branch16 s.half16 else branchOf (opcodeOf s.word32) (funct3Of s.word32)

theorem branchType_instr32 : (decodeUniform s.instr32).branchType = s.branch := by
  unfold instr32 branch
  split
  · exact branchType_expand _
  · exact branchType_uniform _

theorem opc_ne : OPC_JAL ≠ OPC_JALR ∧ OPC_JAL ≠ OPC_BRANCH ∧ OPC_JALR ≠ OPC_BRANCH := by decide

theorem cfJal_eq : s.cfJal = (s.branch == .JAL) := by
  rw [Bool.eq_iff_iff, beq_iff_eq]
  cases comp : s.isCompressed with
  | true =>
    simp only [cfJal, branch, comp, if_true, cfCJal, branch16, Bool.and_eq_true, Bool.or_eq_true, beq_iff_eq]
    grind
  | false =>
    simp only [cfJal, branch, comp, Bool.false_eq_true, if_false, cfNJal, branchOf, condOf, beq_iff_eq]
    grind

theorem cfJalr_eq : s.cfJalr = (s.branch == .JALR) := by
  obtain ⟨ne, ne', ne''⟩ := opc_ne
  rw [Bool.eq_iff_iff, beq_iff_eq]
  cases comp : s.isCompressed with
  | true =>
    simp only [cfJalr, branch, comp, if_true, cfCJalr, branch16, Bool.and_eq_true, bne_iff_ne, beq_iff_eq]
    grind
  | false =>
    simp only [cfJalr, branch, comp, Bool.false_eq_true, if_false, cfNJalr, branchOf, condOf, Bool.and_eq_true,
      beq_iff_eq]
    grind

theorem isCond_condOf (f3 : BitVec 3) : (condOf f3).isCond = (f3.extractLsb 2 1 != 0b01#2) := by
  revert f3
  decide

theorem isCond_branch16 (c : BitVec 16) :
    (branch16 c).isCond = (c.extractLsb 1 0 == 0b01#2 && (cF3 c).extractLsb 2 1 == 0b11#2) := by
  unfold branch16
  by_cases q : c.extractLsb 1 0 = 0b01#2
  · rw [if_pos q, q]
    rcases funct3_cases (cF3 c) with h | h | h | h | h | h | h | h <;> rw [h] <;> rfl
  · rw [if_neg q, beq_eq_false_iff_ne.mpr q, Bool.false_and]
    split <;> rfl

theorem cfCond_eq : s.cfCond = s.branch.isCond := by
  cases comp : s.isCompressed with
  | true =>
    have high : (cF3 s.half16).extractLsb 2 1 = s.half16.extractLsb 15 14 := by
      apply BitVec.eq_of_toNat_eq
      simp only [BitVec.extractLsb_toNat, Nat.shiftRight_eq_div_pow]
      omega
    simp only [cfCond, branch, comp, if_true]
    rw [isCond_branch16, high]
    rfl
  | false =>
    have high : (funct3Of s.word32).extractLsb 2 1 = s.word32.extractLsb 14 13 := by
      apply BitVec.eq_of_toNat_eq
      simp only [BitVec.extractLsb_toNat, Nat.shiftRight_eq_div_pow]
      omega
    simp only [cfCond, branch, comp, Bool.false_eq_true, if_false, cfNCond, branchOf]
    by_cases jal : opcodeOf s.word32 = OPC_JAL
    · rw [if_pos jal, jal]
      rfl
    by_cases jalr : opcodeOf s.word32 = OPC_JALR
    · rw [if_neg jal, if_pos jalr, jalr]
      split <;> rfl
    by_cases op : opcodeOf s.word32 = OPC_BRANCH
    · rw [if_neg jal, if_neg jalr, if_pos op, op, isCond_condOf, high]
      rfl
    · rw [if_neg jal, if_neg jalr, if_neg op, beq_eq_false_iff_ne.mpr op]
      rfl

/-- A source transfers control exactly when one of the three kinds says so. -/
theorem cf_eq : (s.cfJal || s.cfJalr || s.cfCond) = (s.branch != .NONE) := by
  rw [cfJal_eq, cfJalr_eq, cfCond_eq]
  cases s.branch <;> rfl

/-- Returns are told by the registers of the expanded word. -/
theorem cfRet_eq : s.cfRet = (s.branch == .JALR && (rs1Field s.instr32 == 1#5 || rs1Field s.instr32 == 5#5) &&
    rdField s.instr32 == 0#5) := by
  cases comp : s.isCompressed with
  | true =>
    have jalr : s.cfCJalr = (s.branch == .JALR) := by rw [← cfJalr_eq, cfJalr, comp, if_pos rfl]
    rw [cfRet, comp, if_pos rfl, cfCRet, jalr]
    cases is : s.branch == .JALR with
    | false => rfl
    | true =>
      have expand := expand_jalr (c := s.half16) (by simpa [branch, comp] using is)
      rw [instr32, comp, if_pos rfl, expand, (regs_mkI _ _ _ _ _).1, (regs_mkI _ _ _ _ _).2]
      cases s.half16.getLsbD 12 <;> simp
  | false =>
    have jalr : s.cfNJalr = (s.branch == .JALR) := by
      rw [← cfJalr_eq, cfJalr, comp, if_neg Bool.false_ne_true]
    rw [cfRet, comp, if_neg Bool.false_ne_true, cfNRet, jalr, instr32, comp, if_neg Bool.false_ne_true,
      Bool.and_assoc, Bool.and_assoc, Bool.and_comm (_ == 0#5)]

/-- The raw immediate of a direct transfer is the decoded one. -/
theorem predImm_eq (direct : s.branch = .JAL ∨ s.branch.isCond = true) :
    s.predImm = (decodeUniform s.instr32).imm := by
  have some : (decodeUniform s.instr32).branchType ≠ .NONE := by
    rw [branchType_instr32]
    rcases direct with h | h
    · rw [h]
      decide
    · intro none
      rw [none] at h
      cases h
  have noJalr : (decodeUniform s.instr32).branchType ≠ .JALR := by
    rw [branchType_instr32]
    rcases direct with h | h
    · rw [h]
      decide
    · intro jalr
      rw [jalr] at h
      cases h
  rw [imm_direct some noJalr]
  cases comp : s.isCompressed with
  | false =>
    simp only [predImm, instr32, comp, Bool.false_eq_true, if_false]
    rfl
  | true =>
    have raw : s.branch = branch16 s.half16 := by simp [branch, comp]
    have word : s.instr32 = cExpand s.half16 := by simp [instr32, comp]
    rw [raw] at direct
    rw [word, predImm, comp, if_pos rfl]
    rcases direct with jal | cond
    · obtain ⟨⟨rd, expand⟩, bit⟩ := expand_jal jal
      rw [bit, if_neg Bool.false_ne_true, expand, if_pos (fields_mkJ _ _ _),
        immJ_mkJ _ _ (fits_signExtend _ (by decide) (by decide))
          (by rw [getLsbD_zero_signExtend _ (by decide), BitVec.getLsbD_append]; rfl)]
      rfl
    · obtain ⟨⟨f3, expand⟩, bit⟩ := expand_cond cond
      rw [bit, if_pos rfl, expand, (fields_mkB _ _ _ _ _).1, if_neg (by decide),
        immB_mkB _ _ _ _ (fits_signExtend _ (by decide) (by decide))
          (by rw [getLsbD_zero_signExtend _ (by decide), BitVec.getLsbD_append]; rfl)]
      rfl

end Src

namespace DecCyc

variable (d : DecCyc)

/-! `slow_is_cf`, `slow_is_cond_cf` and `slow_is_return_cf` of decode's simulation check. -/

def slowIsCf : Bool := d.decodedValid && !d.ctrl.decIllegal && d.ctrl.branchType != .NONE

def slowIsCondCf : Bool := d.slowIsCf && d.ctrl.branchType.isCond

def slowIsReturnCf : Bool :=
  d.slowIsCf && d.ctrl.branchType == .JALR && (rs1Field d.src.instr32 == 1#5 || rs1Field d.src.instr32 == 5#5) &&
    rdField d.src.instr32 == 0#5

variable {d}

theorem branchType_ctrl : d.ctrl.branchType = d.src.branch := Src.branchType_instr32 _

theorem slowIsCf_eq : d.slowIsCf = (d.decodedValid && d.src.branch != .NONE) := by
  rw [slowIsCf, branchType_ctrl]
  cases transfers : d.src.branch != .NONE with
  | false => simp
  | true =>
    have legal : d.ctrl.decIllegal = false := by
      refine legal_of_branch ?_
      rw [Src.branchType_instr32]
      exact bne_iff_ne.mp transfers
    rw [legal]
    simp

theorem isCf_eq : d.isCf = d.slowIsCf := by rw [slowIsCf_eq, isCf, Src.cf_eq]

/-- The predictor's fast path agrees with the decoder: in every cycle, whatever source is
selected, on what is control flow, a conditional branch or a return, and on the target of
direct transfers. What a predicted redirect is fired for is latched as a word that
execute resolves. -/
theorem fast_path_agrees (d : DecCyc) :
    d.isCf = d.slowIsCf ∧ (d.decodedValid && d.src.cfCond) = d.slowIsCondCf ∧ d.isReturnCf = d.slowIsReturnCf ∧
      (d.decodedValid = true → (d.src.cfJal || d.src.cfCond) = true → d.src.predDirTarget = d.deD.branchTarget) ∧
      (d.predRedirectFire = true →
        d.next.de = d.deD ∧ d.deD.valid = true ∧ d.deD.illegal = false ∧ d.deD.branchType ≠ .NONE) := by
  have resolved : d.decodedValid = true → d.src.branch ≠ .NONE →
      d.deD.illegal = false ∧ d.deD.branchType = d.src.branch := by
    intro valid transfers
    have legal : d.ctrl.decIllegal = false := legal_of_branch (by rwa [Src.branchType_instr32])
    exact ⟨by simp [deD, legal], by simp [deD, legal, branchType_ctrl]⟩
  refine ⟨isCf_eq, ?_, ?_, ?_, ?_⟩
  · rw [slowIsCondCf, slowIsCf_eq, branchType_ctrl, Src.cfCond_eq]
    cases d.decodedValid <;> cases d.src.branch <;> rfl
  · rw [isReturnCf, slowIsReturnCf, slowIsCf_eq, branchType_ctrl, Src.cfRet_eq]
    cases d.decodedValid <;> cases d.src.branch <;> rfl
  · intro valid direct
    rw [Src.cfJal_eq, Src.cfCond_eq, Bool.or_eq_true, beq_iff_eq] at direct
    have transfers : d.src.branch ≠ .NONE ∧ d.src.branch ≠ .JALR := by
      constructor <;> intro h <;> rw [h] at direct <;> revert direct <;> decide
    have target : d.deD.branchTarget = d.src.pc + d.ctrl.imm := by
      rw [DeT.branchTarget, (resolved valid transfers.1).2, if_neg transfers.2]
      rfl
    rw [target, Src.predDirTarget, Src.predImm_eq _ direct]
    rfl
  · intro fire
    simp only [predRedirectFire, Bool.and_eq_true, Bool.not_eq_true'] at fire
    obtain ⟨⟨⟨⟨-, cf⟩, -⟩, stall⟩, flush⟩ := fire
    rw [isCf_eq, slowIsCf_eq, Bool.and_eq_true, bne_iff_ne] at cf
    obtain ⟨valid, transfers⟩ := cf
    obtain ⟨legal, branch⟩ := resolved valid transfers
    refine ⟨?_, valid, legal, by rwa [branch]⟩
    rw [next, deNext, flush, stall]
    rfl

end DecCyc

end YarvUc
