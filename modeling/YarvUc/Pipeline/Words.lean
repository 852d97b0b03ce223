import YarvUc.Decode.Predict
import YarvUc.Decode.Slice
import YarvUc.Execute.Word
import YarvUc.Pipeline.Front

/-!
# D/E words of instructions

The word decode latches is a function of the instruction, or the fault, and of the
registers it reads, up to the prediction: `Fetched.word`. A prediction is only ever
attached to an instruction that execute resolves.
-/

namespace YarvUc

/-- The D/E word of an instruction, by the uniform decoder. -/
def decodeWord (regs : BitVec 5 → Word) (pc w : Word) (compressed : Bool) : DeT where
  valid := true
  pc := pc
  instr := w
  isCompressed := compressed
  rs1Addr := rs1AddrDec w
  rs1Data := regs (rs1AddrDec w)
  rs2Data := regs (rs2AddrDec w)
  imm := (decodeUniform w).imm
  rd := rdField w
  regWrite := !(decodeUniform w).decIllegal && (decodeUniform w).regWrite
  csrWren := !(decodeUniform w).decIllegal && (decodeUniform w).csrWren
  csrOp := (decodeUniform w).csrOp
  csrAddr := csrAddrDec w
  aluOp := (decodeUniform w).aluOp
  aluSrcA := (decodeUniform w).aluSrcA
  aluSrcB := (decodeUniform w).aluSrcB
  memRead := !(decodeUniform w).decIllegal && (decodeUniform w).memRead
  memWrite := !(decodeUniform w).decIllegal && (decodeUniform w).memWrite
  memSize := (decodeUniform w).memSize
  memUnsigned := (decodeUniform w).memUnsigned
  memShamt := (decodeUniform w).memShamt
  wbSrc := (decodeUniform w).wbSrc
  branchType := if (decodeUniform w).decIllegal then .NONE else (decodeUniform w).branchType
  sysOp := (decodeUniform w).sysOp
  exception := (decodeUniform w).decIllegal || (decodeUniform w).excReq
  exceptionCause := if (decodeUniform w).decIllegal then MCAUSE_ILLEGAL else (decodeUniform w).excCause
  exceptionTval := if (decodeUniform w).decIllegal then w else (decodeUniform w).excTval
  illegal := (decodeUniform w).decIllegal

/-- The D/E word of what was fetched. A fault is an all-zero word, which is illegal, with
the access fault's cause over it. -/
def Fetched.word (regs : BitVec 5 → Word) : Fetched → DeT
  | .instr pc w c => decodeWord regs pc w c
  | .fault a => { decodeWord regs a 0 false with exceptionCause := MCAUSE_INSTR_ACC, exceptionTval := a }

/-- A D/E word without its prediction. -/
def DeT.base (de : DeT) : DeT :=
  { de with predValid := false, predTaken := false, predTarget := 0, predSource := .NONE, predPhtIndex := 0 }

namespace DecCyc

variable {d : DecCyc}

/-- A register as decode reads it, with the writeback of this cycle forwarded. -/
def operand (d : DecCyc) (a : BitVec 5) : Word :=
  if d.exWbEn && d.exWbAddr != 0 && a == d.exWbAddr then d.exWbData else d.regRead a

theorem base_deD (valid : d.decodedValid = true) : d.deD.base = d.deD.fetched.word d.operand := by
  have rs1 : d.rs1Fwd = d.operand (rs1AddrDec d.src.instr32) := rfl
  have rs2 : d.rs2Fwd = d.operand (rs2AddrDec d.src.instr32) := rfl
  have ctrl : d.ctrl = decodeUniform d.src.instr32 := rfl
  rw [fetched_deD]
  cases fault : d.takeFault with
  | true =>
    have zero : d.src.instr32 = 0 := by rw [src_takeFault fault]; rfl
    have pc : d.src.pc = d.fe.pc := by rw [src_takeFault fault]
    have plain : d.src.isCompressed = false := by rw [src_takeFault fault]
    simp [DeT.base, deD, Fetched.word, decodeWord, rs1, rs2, ctrl, zero, pc, plain, excReq, excCause, excTval, fault,
      valid, rs1AddrO, decodeUniform_zero]
  | false =>
    simp only [DeT.base, deD, if_neg (Bool.false_ne_true), Fetched.word, decodeWord, rs1, rs2, ctrl, excReq, excCause,
      excTval, excIllegal, fault, valid, rs1AddrO, Bool.and_true, Bool.false_or]

/-- Forwarding shows decode the register file after this cycle's writeback. -/
theorem operand_eq (rf : RegFile) (read : d.regRead = rf.read) :
    d.operand = (rf.next d.exWbEn d.exWbAddr d.exWbData).read := by
  funext a
  rw [operand, RegFile.read, RegFile.next, read, RegFile.read]
  cases write : d.exWbEn && d.exWbAddr != 0 with
  | false => rfl
  | true =>
    rw [Bool.true_and, if_pos rfl]
    by_cases hit : a = d.exWbAddr
    · have nonzero : d.exWbAddr ≠ 0 := by
        simp only [Bool.and_eq_true, bne_iff_ne, ne_eq] at write
        exact write.2
      rw [hit, if_pos (by simp), if_neg nonzero, Function.update_self]
    · rw [if_neg (by simpa using hit), Function.update_of_ne hit]

end DecCyc

/-! ## Predictions -/

/-- An instruction that transfers control. -/
def Ctrl.Transfers (c : Ctrl) : Prop := c.flags.branch = true

theorem Src.transfers {s : Src} (cf : (s.cfJal || s.cfJalr || s.cfCond) = true) :
    (decodeUniform s.instr32).Transfers := by
  rw [Src.cf_eq, ← Src.branchType_instr32] at cf
  rw [Ctrl.Transfers, Ctrl.flags, legal_of_branch (bne_iff_ne.mp cf), cf]
  rfl

namespace DecCyc

variable {d : DecCyc}

/-- Only a control transfer is predicted taken, and to the address fetch is sent to. -/
theorem predT_deD (taken : d.deD.predT = true) :
    d.deD.flags.branch = true ∧ d.deD.predTarget = d.cfTarget ∧ d.p.bpEn = true ∧ d.isCf = true ∧ d.cfTaken = true := by
  obtain ⟨bp, cf, take⟩ : d.p.bpEn = true ∧ d.isCf = true ∧ d.cfTaken = true := by
    simp only [DeT.predT, deD, predTaken, Bool.and_eq_true] at taken
    exact ⟨taken.1.1, taken.1.2, taken.2.2.2⟩
  obtain ⟨valid, kind⟩ : d.decodedValid = true ∧ (d.src.cfJal || d.src.cfJalr || d.src.cfCond) = true := by
    simpa [isCf] using cf
  refine ⟨?_, ?_, bp, cf, take⟩
  · rw [flags_deD valid]
    exact Src.transfers kind
  · simp only [deD, bp, if_true, predTarget, cf, cfTarget]
    cases ret : d.src.cfRet with
    | true => rfl
    | false =>
      have direct : (d.src.cfCond || d.src.cfJal) = true := by
        simp only [cfTaken, ret, Bool.false_and, Bool.or_false, Bool.or_eq_true, Bool.and_eq_true] at take
        rcases take with h | ⟨h, -⟩ <;> simp [h]
      rw [direct]
      rfl

/-- The predicted redirect fires exactly with the latching of such a word. -/
theorem predRedirectFire_eq (running : d.stall = false) (kept : d.flush = false) :
    d.predRedirectFire = d.deD.predT := by
  simp only [predRedirectFire, running, kept, DeT.predT, deD, predTaken]
  cases d.p.bpEn <;> cases d.isCf <;> cases d.cfTaken <;> rfl

end DecCyc

end YarvUc
