import YarvUc.Rtl.DecodeStage

/-!
# Instruction classes

Execute looks at a control word through a dozen separate enables. Decode only ever
produces eleven combinations of them, one for each `OpKind`; everything execute
assumes about its input (a load is no CSR operation, an excepting word enables
nothing) is read off that table.
-/

namespace YarvUc

/-- What an instruction is to execute. -/
inductive OpKind where
  | exc | load | store | csr | div | cond | jump | wfi | mret | alu | nop
deriving DecidableEq, Repr

/-- The enables execute switches on; `wb` is the writeback source of a word that writes. -/
structure OpFlags where
  exc : Bool := false
  regWrite : Bool := false
  wb : WbSrc := .ALU
  memRead : Bool := false
  memWrite : Bool := false
  csrWren : Bool := false
  csrOp : Bool := false
  branch : Bool := false
  jump : Bool := false
  div : Bool := false
  wfi : Bool := false
  mret : Bool := false
deriving DecidableEq

def OpKind.flags : OpKind → OpFlags
  | .exc => { exc := true }
  | .load => { regWrite := true, wb := .MEM, memRead := true }
  | .store => { memWrite := true }
  | .csr => { regWrite := true, wb := .CSR, csrWren := true, csrOp := true }
  | .div => { regWrite := true, div := true }
  | .cond => { branch := true }
  | .jump => { regWrite := true, wb := .PC4, branch := true, jump := true }
  | .wfi => { wfi := true }
  | .mret => { mret := true }
  | .alu => { regWrite := true }
  | .nop => {}

def AluOp.isDiv (op : AluOp) : Bool := op == .DIV || op == .DIVU || op == .REM || op == .REMU

def Branch.isJump (b : Branch) : Bool := b == .JAL || b == .JALR

/-- The enables of a control word, gated by `dec_illegal` as `de_d` gates them. -/
def Ctrl.flags (c : Ctrl) : OpFlags where
  exc := c.decIllegal || c.excReq
  regWrite := !c.decIllegal && c.regWrite
  wb := if !c.decIllegal && c.regWrite then c.wbSrc else .ALU
  memRead := !c.decIllegal && c.memRead
  memWrite := !c.decIllegal && c.memWrite
  csrWren := !c.decIllegal && c.csrWren
  csrOp := c.csrOp != .NONE
  branch := !c.decIllegal && c.branchType != .NONE
  jump := !c.decIllegal && c.branchType.isJump
  div := c.aluOp.isDiv
  wfi := c.sysOp == .WFI
  mret := c.sysOp == .MRET

/-- The enables of a D/E word. -/
def DeT.flags (de : DeT) : OpFlags where
  exc := de.exception
  regWrite := de.regWrite
  wb := if de.regWrite then de.wbSrc else .ALU
  memRead := de.memRead
  memWrite := de.memWrite
  csrWren := de.csrWren
  csrOp := de.csrOp != .NONE
  branch := de.branchType != .NONE
  jump := de.branchType.isJump
  div := de.aluOp.isDiv
  wfi := de.sysOp == .WFI
  mret := de.sysOp == .MRET

def Ctrl.Classified (c : Ctrl) : Prop := ∃ k : OpKind, c.flags = k.flags

theorem Ctrl.Classified.ite {p : Prop} [Decidable p] {a b : Ctrl} (ha : a.Classified) (hb : b.Classified) :
    (if p then a else b).Classified := by
  split
  · exact ha
  · exact hb

variable (w : Word)

theorem classified_branch : (decBranch w).Classified := by
  unfold decBranch
  repeat' split
  all_goals first | exact ⟨.cond, rfl⟩ | exact ⟨.exc, rfl⟩

theorem classified_load : (decLoad w).Classified := by
  unfold decLoad
  repeat' split
  all_goals first | exact ⟨.load, rfl⟩ | exact ⟨.exc, rfl⟩

theorem classified_store : (decStore w).Classified := by
  unfold decStore
  repeat' split
  all_goals first | exact ⟨.store, rfl⟩ | exact ⟨.exc, rfl⟩

theorem classified_opImm : (decOpImm w).Classified := by
  unfold decOpImm
  generalize (funct7Of w != 0b0000000#7 && funct7Of w != 0b0100000#7) = shiftRight
  generalize (funct7Of w != 0b0000000#7) = shiftLeft
  repeat' split
  all_goals cases shiftLeft <;> cases shiftRight <;> first | exact ⟨.alu, rfl⟩ | exact ⟨.exc, rfl⟩

theorem classified_op : (decOp w).Classified := by
  unfold decOp
  generalize (funct7Of w != 0b0000000#7 && funct7Of w != 0b0100000#7) = bad
  repeat' split
  all_goals cases bad
  all_goals first | exact ⟨.alu, rfl⟩ | exact ⟨.div, rfl⟩ | exact ⟨.exc, rfl⟩

theorem classified_amo : (decAmo w).Classified := by
  unfold decAmo
  repeat' split
  all_goals first | exact ⟨.load, rfl⟩ | exact ⟨.exc, rfl⟩

theorem classified_system : (decSystem w).Classified := by
  unfold decSystem
  repeat' split
  all_goals first | exact ⟨.csr, rfl⟩ | exact ⟨.exc, rfl⟩ | exact ⟨.wfi, rfl⟩ | exact ⟨.mret, rfl⟩

theorem classified_miscMem : (decMiscMem w).Classified := by
  unfold decMiscMem
  repeat' split
  all_goals first | exact ⟨.nop, rfl⟩ | exact ⟨.exc, rfl⟩

/-- Every word decodes to one of the classes. -/
theorem classified_uniform : (decodeUniform w).Classified := by
  have illegal : Ctrl.Classified {} := ⟨.exc, rfl⟩
  unfold decodeUniform
  refine .ite ⟨.alu, rfl⟩ (.ite ⟨.alu, rfl⟩ (.ite ⟨.jump, rfl⟩ (.ite (.ite ⟨.jump, rfl⟩ illegal) ?_)))
  refine .ite (classified_branch w) (.ite (classified_load w) (.ite (classified_store w) ?_))
  refine .ite (classified_opImm w) (.ite (classified_op w) (.ite (classified_amo w) ?_))
  exact .ite (classified_system w) (.ite (classified_miscMem w) illegal)

/-- The causes the opcode case asks for. -/
def Ctrl.CauseOk (c : Ctrl) : Prop := c.excCause ∈ [0#32, MCAUSE_BREAKPOINT, MCAUSE_ECALL_M]

theorem Ctrl.CauseOk.ite {p : Prop} [Decidable p] {a b : Ctrl} (ha : a.CauseOk) (hb : b.CauseOk) :
    (if p then a else b).CauseOk := by
  split
  · exact ha
  · exact hb

/-- An instruction asks for no cause but `ecall`'s and `ebreak`'s. -/
theorem cause_uniform : (decodeUniform w).CauseOk := by
  have none : ∀ {c : Ctrl}, c.excCause = 0 → c.CauseOk := fun h => by simp [Ctrl.CauseOk, h]
  have n : ∀ {p : Prop} [Decidable p] {a b : Ctrl}, a.excCause = 0 → b.CauseOk → (if p then a else b).CauseOk :=
    fun ha hb => .ite (none ha) hb
  unfold decodeUniform
  refine n rfl (n rfl (n rfl (.ite (n rfl (none rfl)) ?_)))
  refine .ite ?branch (.ite ?load (.ite ?store (.ite ?opImm (.ite ?op (.ite ?amo (.ite ?system (.ite ?miscMem
    (none rfl))))))))
  case branch => unfold decBranch; exact n rfl (n rfl (n rfl (n rfl (n rfl (n rfl (none rfl))))))
  case load => unfold decLoad; exact n rfl (n rfl (n rfl (n rfl (n rfl (none rfl)))))
  case store => unfold decStore; exact n rfl (n rfl (n rfl (none rfl)))
  case opImm =>
    unfold decOpImm
    exact n rfl (n rfl (n rfl (n rfl (n rfl (n rfl (n rfl (none rfl)))))))
  case op =>
    unfold decOp
    exact .ite (n rfl (n rfl (n rfl (n rfl (n rfl (n rfl (n rfl (none rfl))))))))
      (n rfl (n rfl (n rfl (n rfl (n rfl (n rfl (n rfl (none rfl))))))))
  case amo => unfold decAmo; exact n rfl (none rfl)
  case system =>
    unfold decSystem
    exact .ite (n rfl (n rfl (n rfl (n rfl (n rfl (n rfl (none rfl)))))))
      (.ite (by simp [Ctrl.CauseOk]) (.ite (by simp [Ctrl.CauseOk]) (n rfl (n rfl (none rfl)))))
  case miscMem => unfold decMiscMem; exact n rfl (n rfl (none rfl))

theorem excCause_uniform : (decodeUniform w).excCause ≠ MCAUSE_INSTR_ACC ∧
    (decodeUniform w).excCause ≠ MCAUSE_ILLEGAL := by
  have h := cause_uniform w
  simp only [Ctrl.CauseOk, List.mem_cons, List.not_mem_nil, or_false] at h
  rcases h with h | h | h <;> rw [h] <;> decide

/-! ## The D/E word -/

namespace DecCyc

variable {d : DecCyc}

theorem src_takeFault (fault : d.takeFault = true) :
    d.src = { word32 := 0, half16 := 0, pc := d.fe.pc, isCompressed := false } := by
  simp [DecCyc.src, fault]

theorem decodeUniform_zero : decodeUniform 0#32 = {} := rfl

theorem ctrl_takeFault (fault : d.takeFault = true) : d.ctrl = {} := by
  rw [DecCyc.ctrl, src_takeFault fault, Src.instr32]
  exact decodeUniform_zero

/-- A valid D/E word carries its control word's enables. -/
theorem flags_deD (valid : d.decodedValid = true) : d.deD.flags = d.ctrl.flags := by
  have hexc : d.excReq = (d.ctrl.decIllegal || d.ctrl.excReq) := by
    cases hf : d.takeFault with
    | true => simp [DecCyc.excReq, hf, ctrl_takeFault hf]
    | false => simp [DecCyc.excReq, DecCyc.excIllegal, hf, valid]
  simp only [DeT.flags, Ctrl.flags, DecCyc.deD, hexc, OpFlags.mk.injEq, true_and, and_true]
  cases d.ctrl.decIllegal <;> simp [Branch.isJump]

theorem classified_deD (valid : d.decodedValid = true) : ∃ k : OpKind, d.deD.flags = k.flags := by
  rw [flags_deD valid]
  exact classified_uniform _

end DecCyc

end YarvUc
