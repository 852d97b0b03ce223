import YarvUc.Pipeline.NoTrace

/-!
# The word in D/E is decoded

Decode latches what the control word says of the instruction it latches with it, and the D/E
register holds still until the instruction leaves execute. Whatever execute is shown of a word
that does not trap is therefore a matter of the instruction's own fields, and so is whether it
traps, unless its fetch did.
-/

namespace YarvUc

namespace DeT

/-- Execute is shown the instruction's own fields. -/
structure Decoded (de : DeT) : Prop where
  legal : (decodeUniform de.instr).decIllegal = false
  branch : de.branchType = (decodeUniform de.instr).branchType
  csrWren : de.csrWren = (decodeUniform de.instr).csrWren
  csrOp : de.csrOp = (decodeUniform de.instr).csrOp
  sysOp : de.sysOp = (decodeUniform de.instr).sysOp
  imm : de.imm = (decodeUniform de.instr).imm
  csrAddr : de.csrAddr = csrAddrDec de.instr
  rd : de.rd = rdField de.instr
  rs1 : de.rs1Addr = rs1AddrDec de.instr

/-- There is no instruction: the fetch left the I-mem. -/
def isFault (de : DeT) : Bool := de.exception && de.exceptionCause == MCAUSE_INSTR_ACC

/-- What is known of a valid word. -/
structure Latched (de : DeT) : Prop where
  decoded : de.exception = false → de.Decoded
  traps : de.exception = true → de.isFault = false →
    (decodeUniform de.instr).decIllegal = true ∨ (decodeUniform de.instr).excReq = true

end DeT

theorem DecCyc.latched_deD {d : DecCyc} (valid : d.decodedValid = true) : d.deD.Latched := by
  have exc : d.deD.exception = (d.takeFault || d.excIllegal || d.ctrl.excReq) := rfl
  constructor
  · intro plain
    rw [exc, excIllegal, valid] at plain
    simp only [Bool.or_eq_false_iff, Bool.and_true] at plain
    have legal : d.ctrl.decIllegal = false := plain.1.2
    refine ⟨legal, ?_, ?_, rfl, rfl, rfl, rfl, rfl, rfl⟩ <;>
      simp only [deD, legal] <;> rfl
  · intro traps fetched
    have clean : d.takeFault = false := by
      cases fault : d.takeFault with
      | false => rfl
      | true =>
        rw [DeT.isFault, traps, show d.deD.exceptionCause = MCAUSE_INSTR_ACC from if_pos fault] at fetched
        cases fetched
    rw [exc, clean, excIllegal, valid, Bool.false_or, Bool.and_true, Bool.or_eq_true] at traps
    exact traps

/-- The word in D/E is as decode latched it. -/
theorem Cpu.latched_run {p : Params} {m : DmemParams} (boot : Word) (s : Cpu) (ins : ℕ → CpuIn) (n : ℕ) :
    (Clocked.run (next p m) (s.start boot) ins n).de.valid = true →
      (Clocked.run (next p m) (s.start boot) ins n).de.Latched := by
  refine Clocked.run_invariant (fun s : Cpu => s.de.valid = true → s.de.Latched) (fun _ _ => True)
    (fun valid => by cases valid) ?_ n fun _ _ => trivial
  intro s i known _ valid
  cases flush : (s.exec p m i).flushO with
  | true =>
    rw [show (s.next p m i).de = {} from Core.de_flush flush] at valid
    cases valid
  | false =>
    cases stall : (s.exec p m i).stallO with
    | true =>
      rw [show (s.next p m i).de = s.de from Core.de_stall flush stall] at valid ⊢
      exact known valid
    | false =>
      rw [show (s.next p m i).de = (s.decode p m i).deD from Core.de_advance flush stall] at valid ⊢
      exact DecCyc.latched_deD valid

end YarvUc
