import YarvUc.Isa.Machine
import YarvUc.Sequential.Alone

/-!
# The pipeline runs the instruction set

The sequential machine is `Isa.step` where the instruction at the PC is tame, and every cycle of
an instruction that needs the CPU alone is plain. So the pipeline, which refines the one, runs
the other, on conditions that speak of the program and the interrupt lines only.
-/

namespace YarvUc

/-! ## Expansions are no slips -/

theorem unslipped {w : Word} (noOp : opcodeOf w ≠ OPC_OP) (noSystem : opcodeOf w ≠ OPC_SYSTEM) : ¬ Slip32 w := by
  rintro ⟨⟨op, -⟩ | ⟨op, -⟩⟩
  · exact noOp op
  · exact noSystem op

theorem unslipped_mkI {op : BitVec 7} (noOp : op ≠ OPC_OP) (noSystem : op ≠ OPC_SYSTEM) (rd rs1 : BitVec 5)
    (f3 : BitVec 3) (off : Word) : ¬ Slip32 (mkI op rd rs1 f3 off) := by
  apply unslipped <;> rw [(fields_mkI op rd rs1 f3 off).1] <;> assumption

theorem unslipped_mkR {f3 : BitVec 3} {f7 : BitVec 7} (row : f7 = 0b0000000#7 ∨ f3 = 0b000#3) (rd rs1 rs2 : BitVec 5) :
    ¬ Slip32 (mkR OPC_OP rd rs1 rs2 f3 f7) := by
  obtain ⟨op, hf3, hf7⟩ := fields_mkR OPC_OP rd rs1 rs2 f3 f7
  rintro ⟨⟨-, slip7, slip3, -⟩ | ⟨op', -⟩⟩
  · rw [hf7] at slip7
    rw [hf3] at slip3
    rcases row with rfl | rfl
    · cases slip7
    · exact slip3 rfl
  · rw [op] at op'
    cases op'

theorem unslipped_opImm (rd rs1 : BitVec 5) (f3 : BitVec 3) (off : Word) : ¬ Slip32 (mkI OPC_OP_IMM rd rs1 f3 off) :=
  unslipped_mkI (by decide) (by decide) rd rs1 f3 off

theorem unslipped_lw (rd rs1 : BitVec 5) (off : Word) : ¬ Slip32 (mkI OPC_LOAD rd rs1 0b010#3 off) :=
  unslipped_mkI (by decide) (by decide) rd rs1 _ off

theorem unslipped_sw (rs1 rs2 : BitVec 5) (off : Word) : ¬ Slip32 (mkS OPC_STORE rs1 rs2 0b010#3 off) := by
  apply unslipped <;> rw [(fields_mkS _ _ _ _ _).1] <;> decide

theorem unslipped_zero : ¬ Slip32 (0 : Word) := by decide

theorem unslipped_quad0 (c : BitVec 16) : ¬ Slip32 (cQuad0 c) := by
  unfold cQuad0
  split_ifs
  · exact unslipped_opImm _ _ _ _
  · exact unslipped_zero
  · exact unslipped_lw _ _ _
  · exact unslipped_sw _ _ _
  · exact unslipped_zero

theorem unslipped_misc (c : BitVec 16) : ¬ Slip32 (cQuad1Misc c) := by
  unfold cQuad1Misc
  split_ifs
  · exact unslipped_opImm _ _ _ _
  · exact unslipped_opImm _ _ _ _
  · exact unslipped_opImm _ _ _ _
  · exact unslipped_mkR (.inr rfl) _ _ _
  all_goals exact unslipped_mkR (.inl rfl) _ _ _

theorem unslipped_quad1 (c : BitVec 16) : ¬ Slip32 (cQuad1 c) := by
  have jal : ∀ rd off, ¬ Slip32 (mkJ OPC_JAL rd off) := fun rd off => by
    apply unslipped <;> rw [fields_mkJ] <;> decide
  have lui : ∀ rd off, ¬ Slip32 (mkU OPC_LUI rd off) := fun rd off => by
    apply unslipped <;> rw [fields_mkU] <;> decide
  have branch : ∀ rs1 rs2 f3 off, ¬ Slip32 (mkB OPC_BRANCH rs1 rs2 f3 off) := fun rs1 rs2 f3 off => by
    apply unslipped <;> rw [(fields_mkB _ _ _ _ _).1] <;> decide
  unfold cQuad1
  split_ifs
  · exact unslipped_opImm _ _ _ _
  · exact unslipped_opImm _ _ _ _
  · exact unslipped_zero
  · exact jal _ _
  · exact unslipped_opImm _ _ _ _
  · exact unslipped_zero
  · exact unslipped_opImm _ _ _ _
  · exact unslipped_zero
  · exact lui _ _
  · exact unslipped_zero
  · exact unslipped_misc c
  · exact jal _ _
  · exact branch _ _ _ _
  · exact branch _ _ _ _

theorem unslipped_quad2 (c : BitVec 16) : ¬ Slip32 (cQuad2 c) := by
  have ebreak : ¬ Slip32 (mkI OPC_SYSTEM 0 0 0b000#3 1) := by decide
  have jalr : ∀ rd rs1, ¬ Slip32 (mkI OPC_JALR rd rs1 0b000#3 0) := fun rd rs1 =>
    unslipped_mkI (by decide) (by decide) rd rs1 _ _
  unfold cQuad2
  split_ifs
  · exact unslipped_opImm _ _ _ _
  · exact unslipped_zero
  · exact unslipped_lw _ _ _
  · exact unslipped_zero
  · exact ebreak
  · exact jalr _ _
  · exact jalr _ _
  · exact unslipped_mkR (.inl rfl) _ _ _
  · exact unslipped_mkR (.inl rfl) _ _ _
  · exact unslipped_zero
  · exact unslipped_sw _ _ _
  · exact unslipped_zero

theorem unslipped_expand (c : BitVec 16) : ¬ Slip32 (cExpand c) := by
  rw [cExpand]
  split_ifs
  · exact unslipped_quad0 c
  · exact unslipped_quad1 c
  · exact unslipped_quad2 c
  · exact unslipped_zero

/-! ## Who else is needed -/

section Alone

variable {s : Arch} {c : Bool}

theorem alone_illegal {w : Word} (refused : (decodeUniform w).decIllegal = true) :
    (decodeWord s.rf.read s.pc w c).Alone s.csr := by
  constructor <;> simp [decodeWord, refused]

namespace Instr

variable {i : Instr} {rd : BitVec 5}

/-- What accesses neither memory nor CSRs and is no WFI. -/
theorem alone_plain (read : i.ctrl.memRead = false) (write : i.ctrl.memWrite = false) (csr : i.ctrl.csrWren = false)
    (sys : i.ctrl.sysOp ≠ .WFI) : (decodeWord s.rf.read s.pc i.encode c).Alone s.csr := by
  constructor <;> simp [decodeWord, decode_encode, DeT.isWfiOp, DeT.isMemOp, read, write, csr, sys]

theorem alone_memory (csr : i.ctrl.csrWren = false) (sys : i.ctrl.sysOp ≠ .WFI)
    (dmem : (decoded s i).lsuEa.getLsbD PERI_ADDR_BIT = false) : (decodeWord s.rf.read s.pc i.encode c).Alone s.csr := by
  refine ⟨fun _ => ?_, fun _ _ => dmem, fun access => ?_, fun access => ?_⟩
  · simp [decodeWord, decode_encode, DeT.isWfiOp, sys]
  all_goals simp [decodeWord, decode_encode, csr] at access

theorem alone_csr {f : CsrFn} {addr : BitVec 12} {src : Word} (is : Ctrl.Accesses i.ctrl f)
    (csrAddr : (decoded s i).csrAddr = addr) (source : (decoded s i).csrSrc = src)
    (alone : csrAlone s f addr src = true) : (decodeWord s.rf.read s.pc i.encode c).Alone s.csr := by
  simp only [csrAlone, Bool.and_eq_true, bne_iff_ne] at alone
  obtain ⟨⟨cycle, instret⟩, mepc⟩ := alone
  have field : (decodeWord s.rf.read s.pc i.encode c).csrAddr = addr := csrAddr
  refine ⟨fun _ => ?_, fun _ mem => ?_, fun _ => ?_, fun _ isMepc v write => ?_⟩
  · simp [decodeWord, decode_encode, DeT.isWfiOp, is.sys]
  · simp [decodeWord, decode_encode, DeT.isMemOp, is.read, is.write] at mem
  · rw [field]
    rintro (rfl | rfl)
    · exact cycle rfl
    · exact instret rfl
  · have access := csrWrite_accesses is source (s.csr.read CSR_ADDR_MEPC)
    obtain rfl : addr = CSR_ADDR_MEPC := field.symm.trans isMepc
    change (decoded s i).csrWrite _ = _ at write
    rw [access] at write
    cases touches : f.touches src with
    | false =>
      rw [touches] at write
      cases write
    | true =>
      rw [touches, if_pos rfl] at write
      obtain rfl := Option.some.inj write
      simpa [touches, CsrRegs.contents_eq] using mepc

theorem alone_decoded (alone : i.alone s = true) : (decodeWord s.rf.read s.pc i.encode c).Alone s.csr := by
  cases i with
  | load z rd rs1 imm => exact alone_memory rfl (by simp [ctrl]) (by rw [ea_load]; simpa [Instr.alone] using alone)
  | store z rs1 rs2 imm => exact alone_memory rfl (by simp [ctrl]) (by rw [ea_store]; simpa [Instr.alone] using alone)
  | indexed x rd rs1 rs2 =>
    exact alone_memory rfl (by simp [ctrl]) (by rw [ea_indexed]; simpa [Instr.alone] using alone)
  | csr f rd rs1 addr => exact alone_csr (accesses_csr f rs1 addr) (csrAddr_csr f rs1 addr) (csrSrc_csr f rs1 addr) alone
  | csrImm f rd zimm addr =>
    exact alone_csr (accesses_csrImm f zimm addr) (csrAddr_csrImm f zimm addr) (csrSrc_csrImm f zimm addr) alone
  | wfi => cases alone
  | _ => exact alone_plain rfl rfl rfl (by simp [ctrl])

end Instr

/-- A word that is no slip. -/
theorem alone_word {w : Word} (plain : ¬ Slip32 w) (alone : (Instr.ofWord w).all (·.alone s) = true) :
    (decodeWord s.rf.read s.pc w c).Alone s.csr := by
  cases read : Instr.ofWord w with
  | some i =>
    rw [read] at alone
    rw [← Instr.encode_ofWord read]
    exact Instr.alone_decoded alone
  | none =>
    refine alone_illegal ?_
    rw [← Bool.not_eq_false, (agrees w).accepts, Instr.legal32_iff, read]
    simpa using plain

end Alone

namespace Isa

variable {p : Params} {image : ℕ → BitVec 64} {s : Arch}

theorem Tame.fetchAt (tame : Tame p.imemAddrW image s) :
    fetchAt p.imemAddrW image s.pc = .instr s.pc (shown p.imemAddrW image s) !(isWide p.imemAddrW image s) := by
  rw [fetchAt_eq, tame.inside, shown]
  cases long : isWide p.imemAddrW image s with
  | true =>
    rw [tame.past long]
    rfl
  | false => rfl

theorem Tame.runsInside (tame : Tame p.imemAddrW image s) : s.Inside p image := by
  rw [Arch.Inside, tame.fetchAt]
  rfl

theorem Tame.runsAlone (tame : Tame p.imemAddrW image s) : (s.word p image).Alone s.csr := by
  rw [Arch.word, tame.fetchAt]
  refine alone_word ?_ tame.alone
  cases long : isWide p.imemAddrW image s with
  | true =>
    rw [shown, long]
    exact tame.word long
  | false =>
    rw [shown, long]
    exact unslipped_expand _

end Isa

/-! ## The run -/

namespace Cpu

/-- One cycle of the pipeline against one instruction of the set. -/
theorem follows_isa (p : Params) (m : DmemParams) (image : ℕ → BitVec 64) (peri : PeriMem) :
    Clocked.Follows (next p m) (shows p m) (Isa.step p.imemAddrW m image peri) (Isa.event p.imemAddrW m image peri) delay
      43 (Follows p m image) (fun _ i => i.Low) (Isa.Tame p.imemAddrW image) :=
  (follows p m image peri).machine (fun _ tame => ⟨tame.runsInside, Isa.step_eq tame.plain, Isa.event_eq tame.plain⟩)
    fun _ _ _ rel low tame => rel.plain tame.runsAlone low

/-- The pipeline runs the instruction set. While the interrupt lines are low and the program
stays inside the I-mem, off the slips and hints and away from devices and counters, what has
retired and trapped after `n` cycles, with its writes, is what the instructions at the PC do one
after the other; the registers, CSRs and D-mem are as they leave them; and their number grows
with the cycles. -/
theorem pipeline_runs_isa (p : Params) (m : DmemParams) (peri : PeriMem) (boot : Word)
    (even : boot.getLsbD 0 = false) (s : Cpu) (ins : ℕ → CpuIn) (n : ℕ) (low : ∀ j < n, (ins j).Low) :
    let c := Clocked.run (next p m) (s.start boot) ins
    let log := Clocked.log (next p m) (shows p m) (s.start boot) ins n
    let step := Isa.step p.imemAddrW m s.fetch.ram.mem peri
    (∀ k ≤ log.length, Isa.Tame p.imemAddrW s.fetch.ram.mem (step^[k] (.start boot s))) →
      log = Clocked.eventsOf step (Isa.event p.imemAddrW m s.fetch.ram.mem peri) (.start boot s) log.length ∧
        (c n).Agrees (step^[log.length] (.start boot s)) ∧ n < 43 * (log.length + 1) := by
  intro c log step tame
  have here := (follows_isa p m s.fetch.ram.mem peri).run (follows_start even s) n low tame
  exact ⟨here.log, here.rel.agrees, Nat.lt_of_le_of_lt (Nat.le_add_right n _) here.wait⟩

theorem pipeline_runs_isa_storeLoad :
    let log := Clocked.log (next .board .board) (shows .board .board) (storeLoad.start 0) (msipFrom 99) 12
    let step := Isa.step Params.board.imemAddrW .board storeLoad.fetch.ram.mem fun _ => 0
    log = Clocked.eventsOf step (Isa.event Params.board.imemAddrW .board storeLoad.fetch.ram.mem fun _ => 0)
        (.start 0 storeLoad) log.length ∧
      (Clocked.run (next .board .board) (storeLoad.start 0) (msipFrom 99) 12).Agrees
        (step^[log.length] (.start 0 storeLoad)) ∧
      12 < 43 * (log.length + 1) :=
  pipeline_runs_isa .board .board (fun _ => 0) 0 rfl storeLoad (msipFrom 99) 12 (by decide +kernel) (by decide +kernel)

end Cpu

end YarvUc
