import YarvUc.Decode.Class
import YarvUc.Clocked.Bits

/-!
# Which encodings decode accepts

The instruction set as a table of encodings (`rv32`, `rvc`), and the decoder's
legality flag against it. The flag and the table agree except on the encodings of
`Slip32` and `Slip16`, which the decoder takes for the instruction they resemble.
-/

namespace YarvUc

/-! ## The instruction set -/

/-- The fixed fields of a 32-bit encoding. -/
inductive Pattern where
  | opcode (op : BitVec 7)
  | funct3 (op : BitVec 7) (f3 : BitVec 3)
  | funct7 (op : BitVec 7) (f3 : BitVec 3) (f7 : BitVec 7)
  | word (w : Word)

def Pattern.covers (w : Word) : Pattern → Bool
  | .opcode op => opcodeOf w == op
  | .funct3 op f3 => opcodeOf w == op && funct3Of w == f3
  | .funct7 op f3 f7 => opcodeOf w == op && funct3Of w == f3 && funct7Of w == f7
  | .word x => w == x

/-- RV32I, M, Zicsr, `fence` / `fence.i`, the four privileged words and Zilx. -/
def rv32 : List Pattern :=
  [.opcode OPC_LUI, .opcode OPC_AUIPC, .opcode OPC_JAL, .funct3 OPC_JALR 0b000,
   -- beq, bne, blt, bge, bltu, bgeu
   .funct3 OPC_BRANCH 0b000, .funct3 OPC_BRANCH 0b001, .funct3 OPC_BRANCH 0b100, .funct3 OPC_BRANCH 0b101,
   .funct3 OPC_BRANCH 0b110, .funct3 OPC_BRANCH 0b111,
   -- lb, lh, lw, lbu, lhu; sb, sh, sw
   .funct3 OPC_LOAD 0b000, .funct3 OPC_LOAD 0b001, .funct3 OPC_LOAD 0b010, .funct3 OPC_LOAD 0b100,
   .funct3 OPC_LOAD 0b101, .funct3 OPC_STORE 0b000, .funct3 OPC_STORE 0b001, .funct3 OPC_STORE 0b010,
   -- addi, slti, sltiu, xori, ori, andi; slli, srli, srai
   .funct3 OPC_OP_IMM 0b000, .funct3 OPC_OP_IMM 0b010, .funct3 OPC_OP_IMM 0b011, .funct3 OPC_OP_IMM 0b100,
   .funct3 OPC_OP_IMM 0b110, .funct3 OPC_OP_IMM 0b111, .funct7 OPC_OP_IMM 0b001 0b0000000,
   .funct7 OPC_OP_IMM 0b101 0b0000000, .funct7 OPC_OP_IMM 0b101 0b0100000,
   -- add, sub, sll, slt, sltu, xor, srl, sra, or, and
   .funct7 OPC_OP 0b000 0b0000000, .funct7 OPC_OP 0b000 0b0100000, .funct7 OPC_OP 0b001 0b0000000,
   .funct7 OPC_OP 0b010 0b0000000, .funct7 OPC_OP 0b011 0b0000000, .funct7 OPC_OP 0b100 0b0000000,
   .funct7 OPC_OP 0b101 0b0000000, .funct7 OPC_OP 0b101 0b0100000, .funct7 OPC_OP 0b110 0b0000000,
   .funct7 OPC_OP 0b111 0b0000000,
   -- mul, mulh, mulhsu, mulhu, div, divu, rem, remu
   .funct7 OPC_OP 0b000 0b0000001, .funct7 OPC_OP 0b001 0b0000001, .funct7 OPC_OP 0b010 0b0000001,
   .funct7 OPC_OP 0b011 0b0000001, .funct7 OPC_OP 0b100 0b0000001, .funct7 OPC_OP 0b101 0b0000001,
   .funct7 OPC_OP 0b110 0b0000001, .funct7 OPC_OP 0b111 0b0000001,
   -- fence, fence.i
   .funct3 OPC_MISC_MEM 0b000, .funct3 OPC_MISC_MEM 0b001,
   -- csrrw, csrrs, csrrc, csrrwi, csrrsi, csrrci
   .funct3 OPC_SYSTEM 0b001, .funct3 OPC_SYSTEM 0b010, .funct3 OPC_SYSTEM 0b011, .funct3 OPC_SYSTEM 0b101,
   .funct3 OPC_SYSTEM 0b110, .funct3 OPC_SYSTEM 0b111,
   -- ecall, ebreak, mret, wfi
   .word 0x00000073, .word 0x00100073, .word 0x30200073, .word 0x10500073,
   -- lx: half, word, half unsigned; lxs: byte, half, word, byte and half unsigned
   .funct7 OPC_AMO 0b001 0b1001000, .funct7 OPC_AMO 0b010 0b1001000, .funct7 OPC_AMO 0b101 0b1001000,
   .funct7 OPC_AMO 0b000 0b1101000, .funct7 OPC_AMO 0b001 0b1101000, .funct7 OPC_AMO 0b010 0b1101000,
   .funct7 OPC_AMO 0b100 0b1101000, .funct7 OPC_AMO 0b101 0b1101000]

def legal32 (w : Word) : Bool := rv32.any (·.covers w)

/-- The reserved 32-bit encodings the decoder does not refuse. -/
structure Slip32 (w : Word) : Prop where
  slip : opcodeOf w = OPC_OP ∧ funct7Of w = 0b0100000#7 ∧ funct3Of w ≠ 0b000#3 ∧ funct3Of w ≠ 0b101#3 ∨
    opcodeOf w = OPC_SYSTEM ∧ funct3Of w = 0b000#3 ∧
      (funct12Of w ∈ [0x000#12, 0x001#12] ∧ (rdField w ≠ 0 ∨ rs1Field w ≠ 0) ∨
        funct12Of w ∈ [0x105#12, 0x302#12] ∧ rs1Field w = 0 ∧ rdField w ≠ 0)

/-- The major opcode a pattern belongs to. -/
def Pattern.major : Pattern → BitVec 7
  | .opcode op => op
  | .funct3 op _ => op
  | .funct7 op _ _ => op
  | .word x => opcodeOf x

theorem Pattern.major_eq {pat : Pattern} {w : Word} (covers : pat.covers w = true) : pat.major = opcodeOf w := by
  cases pat <;> simp_all [Pattern.covers, Pattern.major]

/-- Only the rows of the word's own opcode matter. -/
theorem legal32_major (w : Word) : legal32 w = (rv32.filter (·.major == opcodeOf w)).any (·.covers w) := by
  rw [legal32, List.any_filter]
  congr 1
  funext pat
  cases h : pat.covers w with
  | false => simp
  | true => simp [pat.major_eq h]

theorem funct3_cases (f : BitVec 3) : f = 0b000#3 ∨ f = 0b001#3 ∨ f = 0b010#3 ∨ f = 0b011#3 ∨ f = 0b100#3 ∨
    f = 0b101#3 ∨ f = 0b110#3 ∨ f = 0b111#3 := by
  revert f
  decide

/-- A word is its fields. -/
theorem word_eq_iff (w x : Word) : w = x ↔ opcodeOf w = opcodeOf x ∧ rdField w = rdField x ∧
    funct3Of w = funct3Of x ∧ rs1Field w = rs1Field x ∧ funct12Of w = funct12Of x := by
  constructor
  · rintro rfl
    simp
  · rintro ⟨hop, hrd, hf3, hrs1, hf12⟩
    rw [← BitVec.toNat_inj] at hop hrd hf3 hrs1 hf12 ⊢
    simp only [BitVec.extractLsb_toNat, Nat.shiftRight_eq_div_pow] at hop hrd hf3 hrs1 hf12
    omega

/-! ## The decoder against the table -/

/-- The decoder accepts exactly the table and the slips. -/
structure Agrees (w : Word) : Prop where
  accepts : (decodeUniform w).decIllegal = false ↔ legal32 w = true ∨ Slip32 w
  reserved : Slip32 w → legal32 w = false

/-- Opcodes without slips. -/
theorem Agrees.of_iff {w : Word} (noOp : opcodeOf w ≠ OPC_OP) (noSystem : opcodeOf w ≠ OPC_SYSTEM)
    (h : (decodeUniform w).decIllegal = false ↔ legal32 w = true) : Agrees w := by
  have hslip : ¬ Slip32 w := by
    rintro ⟨⟨hop, -⟩ | ⟨hop, -⟩⟩
    · exact noOp hop
    · exact noSystem hop
  exact ⟨by simp [h, hslip], fun hs => absurd hs hslip⟩

theorem agrees_load {w : Word} (op : opcodeOf w = OPC_LOAD) : Agrees w := by
  refine .of_iff (by rw [op]; decide) (by rw [op]; decide) ?_
  have hdec : decodeUniform w = decLoad w := by rw [decodeUniform, op]; rfl
  have hrows : rv32.filter (·.major == OPC_LOAD) =
      [.funct3 OPC_LOAD 0b000, .funct3 OPC_LOAD 0b001, .funct3 OPC_LOAD 0b010, .funct3 OPC_LOAD 0b100,
       .funct3 OPC_LOAD 0b101] := rfl
  rw [hdec, legal32_major, op, hrows]
  rcases funct3_cases (funct3Of w) with h | h | h | h | h | h | h | h <;> simp [decLoad, h, Pattern.covers, op]

theorem agrees_store {w : Word} (op : opcodeOf w = OPC_STORE) : Agrees w := by
  refine .of_iff (by rw [op]; decide) (by rw [op]; decide) ?_
  have hdec : decodeUniform w = decStore w := by rw [decodeUniform, op]; rfl
  have hrows : rv32.filter (·.major == OPC_STORE) =
      [.funct3 OPC_STORE 0b000, .funct3 OPC_STORE 0b001, .funct3 OPC_STORE 0b010] := rfl
  rw [hdec, legal32_major, op, hrows]
  rcases funct3_cases (funct3Of w) with h | h | h | h | h | h | h | h <;> simp [decStore, h, Pattern.covers, op]

theorem agrees_branch {w : Word} (op : opcodeOf w = OPC_BRANCH) : Agrees w := by
  refine .of_iff (by rw [op]; decide) (by rw [op]; decide) ?_
  have hdec : decodeUniform w = decBranch w := by rw [decodeUniform, op]; rfl
  have hrows : rv32.filter (·.major == OPC_BRANCH) =
      [.funct3 OPC_BRANCH 0b000, .funct3 OPC_BRANCH 0b001, .funct3 OPC_BRANCH 0b100, .funct3 OPC_BRANCH 0b101,
       .funct3 OPC_BRANCH 0b110, .funct3 OPC_BRANCH 0b111] := rfl
  rw [hdec, legal32_major, op, hrows]
  rcases funct3_cases (funct3Of w) with h | h | h | h | h | h | h | h <;> simp [decBranch, h, Pattern.covers, op]

theorem agrees_miscMem {w : Word} (op : opcodeOf w = OPC_MISC_MEM) : Agrees w := by
  refine .of_iff (by rw [op]; decide) (by rw [op]; decide) ?_
  have hdec : decodeUniform w = decMiscMem w := by rw [decodeUniform, op]; rfl
  have hrows : rv32.filter (·.major == OPC_MISC_MEM) =
      [.funct3 OPC_MISC_MEM 0b000, .funct3 OPC_MISC_MEM 0b001] := rfl
  rw [hdec, legal32_major, op, hrows]
  rcases funct3_cases (funct3Of w) with h | h | h | h | h | h | h | h <;> simp [decMiscMem, h, Pattern.covers, op]

theorem agrees_jalr {w : Word} (op : opcodeOf w = OPC_JALR) : Agrees w := by
  refine .of_iff (by rw [op]; decide) (by rw [op]; decide) ?_
  have hdec : (decodeUniform w).decIllegal = !decide (funct3Of w = 0b000#3) := by
    by_cases h : funct3Of w = 0b000#3
    · rw [decodeUniform, op, h]
      rfl
    · rw [decodeUniform, op]
      simp [h, OPC_LUI, OPC_AUIPC, OPC_JAL, OPC_JALR]
  have hrows : rv32.filter (·.major == OPC_JALR) = [.funct3 OPC_JALR 0b000] := rfl
  rw [hdec, legal32_major, op, hrows]
  simp [Pattern.covers, op]

theorem agrees_opImm {w : Word} (op : opcodeOf w = OPC_OP_IMM) : Agrees w := by
  refine .of_iff (by rw [op]; decide) (by rw [op]; decide) ?_
  have hdec : decodeUniform w = decOpImm w := by rw [decodeUniform, op]; rfl
  have hrows : rv32.filter (·.major == OPC_OP_IMM) =
      [.funct3 OPC_OP_IMM 0b000, .funct3 OPC_OP_IMM 0b010, .funct3 OPC_OP_IMM 0b011, .funct3 OPC_OP_IMM 0b100,
       .funct3 OPC_OP_IMM 0b110, .funct3 OPC_OP_IMM 0b111, .funct7 OPC_OP_IMM 0b001 0b0000000,
       .funct7 OPC_OP_IMM 0b101 0b0000000, .funct7 OPC_OP_IMM 0b101 0b0100000] := rfl
  rw [hdec, legal32_major, op, hrows]
  rcases funct3_cases (funct3Of w) with h | h | h | h | h | h | h | h <;>
    by_cases hz : funct7Of w = 0b0000000#7 <;> simp [decOpImm, h, hz, Pattern.covers, op]

/-- The opcodes that look at nothing else. -/
theorem agrees_plain {w : Word} (op : opcodeOf w = OPC_LUI ∨ opcodeOf w = OPC_AUIPC ∨ opcodeOf w = OPC_JAL) :
    Agrees w := by
  rcases op with op | op | op
  all_goals
    refine .of_iff (by rw [op]; decide) (by rw [op]; decide) ?_
    have hdec : (decodeUniform w).decIllegal = false := by rw [decodeUniform, op]; rfl
    rw [hdec, legal32_major, op]
  · rw [show rv32.filter (·.major == OPC_LUI) = [.opcode OPC_LUI] from rfl]
    simp [Pattern.covers, op]
  · rw [show rv32.filter (·.major == OPC_AUIPC) = [.opcode OPC_AUIPC] from rfl]
    simp [Pattern.covers, op]
  · rw [show rv32.filter (·.major == OPC_JAL) = [.opcode OPC_JAL] from rfl]
    simp [Pattern.covers, op]

/-- An opcode of no row. -/
theorem agrees_other {w : Word}
    (op : opcodeOf w ∉ [OPC_LUI, OPC_AUIPC, OPC_JAL, OPC_JALR, OPC_BRANCH, OPC_LOAD, OPC_STORE, OPC_OP_IMM, OPC_OP,
      OPC_AMO, OPC_SYSTEM, OPC_MISC_MEM]) : Agrees w := by
  simp only [List.mem_cons, List.not_mem_nil, or_false, not_or] at op
  obtain ⟨h1, h2, h3, h4, h5, h6, h7, h8, h9, h10, h11, h12⟩ := op
  refine .of_iff h9 h11 ?_
  have hdec : decodeUniform w = {} := by
    simp only [decodeUniform, h1, h2, h3, h4, h5, h6, h7, h8, h9, h10, h11, h12, if_false]
  have hmajors : ∀ pat ∈ rv32, pat.major ∈ [OPC_LUI, OPC_AUIPC, OPC_JAL, OPC_JALR, OPC_BRANCH, OPC_LOAD, OPC_STORE,
      OPC_OP_IMM, OPC_OP, OPC_AMO, OPC_SYSTEM, OPC_MISC_MEM] := by decide
  have hlegal : legal32 w = false := by
    rw [legal32, List.any_eq_false]
    intro pat hpat hc
    have := hmajors pat hpat
    rw [pat.major_eq hc] at this
    simp [h1, h2, h3, h4, h5, h6, h7, h8, h9, h10, h11, h12] at this
  rw [hdec, hlegal]
  simp

theorem agrees_op {w : Word} (op : opcodeOf w = OPC_OP) : Agrees w := by
  have hdec : decodeUniform w = decOp w := by rw [decodeUniform, op]; rfl
  have hrows : rv32.filter (·.major == OPC_OP) =
      [.funct7 OPC_OP 0b000 0b0000000, .funct7 OPC_OP 0b000 0b0100000, .funct7 OPC_OP 0b001 0b0000000,
       .funct7 OPC_OP 0b010 0b0000000, .funct7 OPC_OP 0b011 0b0000000, .funct7 OPC_OP 0b100 0b0000000,
       .funct7 OPC_OP 0b101 0b0000000, .funct7 OPC_OP 0b101 0b0100000, .funct7 OPC_OP 0b110 0b0000000,
       .funct7 OPC_OP 0b111 0b0000000, .funct7 OPC_OP 0b000 0b0000001, .funct7 OPC_OP 0b001 0b0000001,
       .funct7 OPC_OP 0b010 0b0000001, .funct7 OPC_OP 0b011 0b0000001, .funct7 OPC_OP 0b100 0b0000001,
       .funct7 OPC_OP 0b101 0b0000001, .funct7 OPC_OP 0b110 0b0000001, .funct7 OPC_OP 0b111 0b0000001] := rfl
  have hslip : Slip32 w ↔ funct7Of w = 0b0100000#7 ∧ funct3Of w ≠ 0b000#3 ∧ funct3Of w ≠ 0b101#3 := by
    have hne : OPC_OP ≠ OPC_SYSTEM := by decide
    constructor
    · rintro ⟨⟨-, h⟩ | ⟨hop, -⟩⟩
      · exact h
      · rw [op] at hop
        exact absurd hop hne
    · exact fun h => ⟨.inl ⟨op, h⟩⟩
  constructor
  · rw [hdec, hslip, legal32_major, op, hrows]
    rcases funct3_cases (funct3Of w) with h | h | h | h | h | h | h | h <;>
      by_cases hm : funct7Of w = 0b0000001#7 <;> by_cases hz : funct7Of w = 0b0000000#7 <;>
      simp [decOp, isMExt, h, hm, hz, Pattern.covers, op]
  · rw [hslip, legal32_major, op, hrows]
    rintro ⟨h7, h0, h5⟩
    simp [Pattern.covers, op, h7, h0, h5]

/-- `funct7` of an AMO word is `funct5`, `aq`, `rl`. -/
theorem funct7_amo (w : Word) (f5 : BitVec 5) :
    funct7Of w = f5 ++ 0b00#2 ↔ funct5Of w = f5 ∧ (aqOf w || rlOf w) = false := by
  simp only [aqOf, rlOf, BitVec.getLsbD_eq_div, Bool.or_eq_false_iff, decide_eq_false_iff_not, ← BitVec.toNat_inj,
    BitVec.extractLsb_toNat, Nat.shiftRight_eq_div_pow, BitVec.toNat_append, Nat.shiftLeft_eq]
  have := f5.isLt
  simp only [BitVec.toNat_ofNat, Nat.zero_mod, Nat.or_zero]
  omega

theorem size_bits (w : Word) : w.extractLsb 13 12 = (funct3Of w).extractLsb 1 0 := by
  apply BitVec.eq_of_toNat_eq
  simp only [BitVec.extractLsb_toNat, Nat.shiftRight_eq_div_pow]
  omega

theorem agrees_amo {w : Word} (op : opcodeOf w = OPC_AMO) : Agrees w := by
  refine .of_iff (by rw [op]; decide) (by rw [op]; decide) ?_
  have hdec : decodeUniform w = decAmo w := by rw [decodeUniform, op]; rfl
  have hrows : rv32.filter (·.major == OPC_AMO) =
      [.funct7 OPC_AMO 0b001 0b1001000, .funct7 OPC_AMO 0b010 0b1001000, .funct7 OPC_AMO 0b101 0b1001000,
       .funct7 OPC_AMO 0b000 0b1101000, .funct7 OPC_AMO 0b001 0b1101000, .funct7 OPC_AMO 0b010 0b1101000,
       .funct7 OPC_AMO 0b100 0b1101000, .funct7 OPC_AMO 0b101 0b1101000] := rfl
  have hlx : funct7Of w = 0b1001000#7 ↔ funct5Of w = 0b10010#5 ∧ (aqOf w || rlOf w) = false := funct7_amo w 0b10010#5
  have hlxs : funct7Of w = 0b1101000#7 ↔ funct5Of w = 0b11010#5 ∧ (aqOf w || rlOf w) = false := funct7_amo w 0b11010#5
  have hill : (decAmo w).decIllegal = !zilxOk w := by
    unfold decAmo
    cases zilxOk w <;> rfl
  rw [hdec, hill, legal32_major, op, hrows]
  simp only [List.any_cons, List.any_nil, Pattern.covers, op, beq_self_eq_true, Bool.true_and, Bool.or_false,
    Bool.or_eq_true, Bool.and_eq_true, beq_iff_eq, Bool.not_eq_false', BitVec.ofNat_eq_ofNat, hlx, hlxs, zilxOk]
  generalize (aqOf w || rlOf w) = ordered
  rcases funct3_cases (funct3Of w) with h | h | h | h | h | h | h | h <;> cases ordered <;>
    simp [isUnscaled, isScaled, sizeOkRv32, size_bits, h]

/-- `funct12` is `funct7` above `rs2`. -/
theorem funct12_eq_iff (w : Word) (f7 : BitVec 7) (rs2 : BitVec 5) :
    funct12Of w = f7 ++ rs2 ↔ funct7Of w = f7 ∧ rs2Field w = rs2 := by
  simp only [← BitVec.toNat_inj, BitVec.extractLsb_toNat, Nat.shiftRight_eq_div_pow, BitVec.toNat_append,
    Nat.shiftLeft_eq]
  have hlt := rs2.isLt
  rw [show f7.toNat * 2 ^ 5 ||| rs2.toNat = f7.toNat * 2 ^ 5 + rs2.toNat by
    rw [Nat.mul_comm, Nat.two_pow_add_eq_or_of_lt hlt]]
  omega

/-- What the decoder looks at in a `funct3 = 000` word. -/
theorem decIllegal_priv {w : Word} (f3 : funct3Of w = 0b000#3) :
    (decSystem w).decIllegal = false ↔ funct12Of w = 0x000#12 ∨ funct12Of w = 0x001#12 ∨
      (funct12Of w = 0x105#12 ∨ funct12Of w = 0x302#12) ∧ rs1Field w = 0 := by
  have hwfi : funct12Of w = 0x105#12 ↔ funct7Of w = 0b0001000#7 ∧ rs2Field w = 0b00101#5 :=
    funct12_eq_iff w 0b0001000#7 0b00101#5
  have hmret : funct12Of w = 0x302#12 ↔ funct7Of w = 0b0011000#7 ∧ rs2Field w = 0b00010#5 :=
    funct12_eq_iff w 0b0011000#7 0b00010#5
  have hne : ¬ (funct12Of w = 0x105#12 ∧ funct12Of w = 0x302#12) := by
    rintro ⟨h, h'⟩
    rw [h] at h'
    exact absurd h' (by decide)
  rw [decSystem, if_neg (by simp [f3])]
  simp only [← and_assoc, ← hwfi, ← hmret]
  clear hwfi hmret
  generalize funct12Of w = f12 at hne
  repeat' split
  all_goals simp_all [or_imp]

theorem agrees_system {w : Word} (op : opcodeOf w = OPC_SYSTEM) : Agrees w := by
  have hdec : decodeUniform w = decSystem w := by rw [decodeUniform, op]; rfl
  have hrows : rv32.filter (·.major == OPC_SYSTEM) =
      [.funct3 OPC_SYSTEM 0b001, .funct3 OPC_SYSTEM 0b010, .funct3 OPC_SYSTEM 0b011, .funct3 OPC_SYSTEM 0b101,
       .funct3 OPC_SYSTEM 0b110, .funct3 OPC_SYSTEM 0b111, .word 0x00000073, .word 0x00100073, .word 0x30200073,
       .word 0x10500073] := rfl
  have hne : OPC_SYSTEM ≠ OPC_OP := by decide
  by_cases f3 : funct3Of w = 0b000#3
  · have hword : ∀ x : Word, opcodeOf x = OPC_SYSTEM → rdField x = 0 → funct3Of x = 0b000#3 → rs1Field x = 0 →
        (w = x ↔ rdField w = 0 ∧ rs1Field w = 0 ∧ funct12Of w = funct12Of x) := by
      intro x h1 h2 h3 h4
      rw [word_eq_iff, op, f3, h1, h2, h3, h4]
      simp
    have hfs : funct12Of 0x00000073 = 0x000#12 ∧ funct12Of 0x00100073 = 0x001#12 ∧
        funct12Of 0x30200073 = 0x302#12 ∧ funct12Of 0x10500073 = 0x105#12 := by decide
    have hlegal : legal32 w = true ↔ rdField w = 0 ∧ rs1Field w = 0 ∧
        funct12Of w ∈ [0x000#12, 0x001#12, 0x302#12, 0x105#12] := by
      rw [legal32_major, op, hrows]
      simp only [List.any_cons, List.any_nil, Pattern.covers, op, f3, Bool.or_eq_true, beq_iff_eq,
        hword 0x00000073 rfl rfl rfl rfl, hword 0x00100073 rfl rfl rfl rfl, hword 0x30200073 rfl rfl rfl rfl,
        hword 0x10500073 rfl rfl rfl rfl, hfs]
      simp [and_or_left]
    have hslip : Slip32 w ↔ funct12Of w ∈ [0x000#12, 0x001#12] ∧ (rdField w ≠ 0 ∨ rs1Field w ≠ 0) ∨
        funct12Of w ∈ [0x105#12, 0x302#12] ∧ rs1Field w = 0 ∧ rdField w ≠ 0 := by
      constructor
      · rintro ⟨⟨hop, -⟩ | ⟨-, -, h⟩⟩
        · rw [op] at hop
          exact absurd hop hne
        · exact h
      · exact fun h => ⟨.inr ⟨op, f3, h⟩⟩
    constructor
    · rw [hdec, decIllegal_priv f3, hlegal, hslip]
      simp only [List.mem_cons, List.not_mem_nil, or_false]
      generalize funct12Of w = f12
      by_cases hrd : rdField w = 0#5 <;> by_cases hrs1 : rs1Field w = 0#5 <;> simp [hrd, hrs1]
      all_goals simp only [or_assoc, or_comm]
    · rw [hslip, ← Bool.not_eq_true, hlegal]
      rintro (⟨-, hrd | hrs1⟩ | ⟨-, -, hrd⟩) ⟨hrd', hrs1', -⟩
      · exact hrd hrd'
      · exact hrs1 hrs1'
      · exact hrd hrd'
  · have hslip : ¬ Slip32 w := by
      rintro ⟨⟨hop, -⟩ | ⟨-, h, -⟩⟩
      · rw [op] at hop
        exact absurd hop hne
      · exact f3 h
    refine ⟨?_, fun h => absurd h hslip⟩
    rw [hdec, legal32_major, op, hrows]
    have hword : ∀ x : Word, funct3Of x = 0b000#3 → w ≠ x := by
      rintro x hx rfl
      exact f3 hx
    rcases funct3_cases (funct3Of w) with h | h | h | h | h | h | h | h
    · exact absurd h f3
    all_goals
      simp [decSystem, h, Pattern.covers, op, hword 0x00000073#32 rfl, hword 0x00100073#32 rfl,
        hword 0x30200073#32 rfl, hword 0x10500073#32 rfl, hslip]

theorem agrees (w : Word) : Agrees w := by
  by_cases h : opcodeOf w ∈ [OPC_LUI, OPC_AUIPC, OPC_JAL, OPC_JALR, OPC_BRANCH, OPC_LOAD, OPC_STORE, OPC_OP_IMM,
      OPC_OP, OPC_AMO, OPC_SYSTEM, OPC_MISC_MEM]
  · simp only [List.mem_cons, List.not_mem_nil, or_false] at h
    rcases h with h | h | h | h | h | h | h | h | h | h | h | h
    · exact agrees_plain (.inl h)
    · exact agrees_plain (.inr (.inl h))
    · exact agrees_plain (.inr (.inr h))
    · exact agrees_jalr h
    · exact agrees_branch h
    · exact agrees_load h
    · exact agrees_store h
    · exact agrees_opImm h
    · exact agrees_op h
    · exact agrees_amo h
    · exact agrees_system h
    · exact agrees_miscMem h
  · exact agrees_other h

/-! ## Built words -/

/-- The opcode and `funct3` a builder puts in are the ones the decoder reads. -/
theorem fields_mkI (op : BitVec 7) (rd rs1 : BitVec 5) (f3 : BitVec 3) (off : Word) :
    opcodeOf (mkI op rd rs1 f3 off) = op ∧ funct3Of (mkI op rd rs1 f3 off) = f3 ∧
      funct7Of (mkI op rd rs1 f3 off) = off.extractLsb 11 5 := by
  simp only [← BitVec.toNat_inj, mkI, BitVec.extractLsb_toNat, BitVec.toNat_append_eq, Nat.shiftRight_eq_div_pow]
  omega

theorem fields_mkR (op : BitVec 7) (rd rs1 rs2 : BitVec 5) (f3 : BitVec 3) (f7 : BitVec 7) :
    opcodeOf (mkR op rd rs1 rs2 f3 f7) = op ∧ funct3Of (mkR op rd rs1 rs2 f3 f7) = f3 ∧
      funct7Of (mkR op rd rs1 rs2 f3 f7) = f7 := by
  simp only [← BitVec.toNat_inj, mkR, BitVec.extractLsb_toNat, BitVec.toNat_append_eq, Nat.shiftRight_eq_div_pow]
  omega

theorem fields_mkS (op : BitVec 7) (rs1 rs2 : BitVec 5) (f3 : BitVec 3) (off : Word) :
    opcodeOf (mkS op rs1 rs2 f3 off) = op ∧ funct3Of (mkS op rs1 rs2 f3 off) = f3 := by
  simp only [← BitVec.toNat_inj, mkS, BitVec.extractLsb_toNat, BitVec.toNat_append_eq, Nat.shiftRight_eq_div_pow]
  omega

theorem fields_mkB (op : BitVec 7) (rs1 rs2 : BitVec 5) (f3 : BitVec 3) (off : Word) :
    opcodeOf (mkB op rs1 rs2 f3 off) = op ∧ funct3Of (mkB op rs1 rs2 f3 off) = f3 := by
  unfold mkB
  generalize off.extractLsb 12 12 = a, off.extractLsb 10 5 = b, off.extractLsb 4 1 = c, off.extractLsb 11 11 = d
  have hc := c.isLt
  have hd := d.isLt
  simp only [← BitVec.toNat_inj, BitVec.extractLsb_toNat, BitVec.toNat_append_eq, Nat.shiftRight_eq_div_pow]
  omega

theorem fields_mkU (op : BitVec 7) (rd : BitVec 5) (off : Word) : opcodeOf (mkU op rd off) = op := by
  simp only [← BitVec.toNat_inj, mkU, BitVec.extractLsb_toNat, BitVec.toNat_append_eq, Nat.shiftRight_eq_div_pow]
  omega

theorem fields_mkJ (op : BitVec 7) (rd : BitVec 5) (off : Word) : opcodeOf (mkJ op rd off) = op := by
  simp only [← BitVec.toNat_inj, mkJ, BitVec.extractLsb_toNat, BitVec.toNat_append_eq, Nat.shiftRight_eq_div_pow]
  omega

/-- A row of the table is accepted. -/
theorem accepted (pat : Pattern) {w : Word} (row : pat ∈ rv32) (covers : pat.covers w = true) :
    (decodeUniform w).decIllegal = false :=
  (agrees w).accepts.mpr (.inl (List.any_eq_true.mpr ⟨pat, row, covers⟩))

/-- The zero word is refused: `c_expand`'s convention for an illegal halfword. -/
@[simp] theorem refused_zero : (decodeUniform 0#32).decIllegal = true := rfl

@[simp] theorem accepted_addi (rd rs1 : BitVec 5) (off : Word) :
    (decodeUniform (mkI OPC_OP_IMM rd rs1 0b000#3 off)).decIllegal = false :=
  accepted (.funct3 OPC_OP_IMM 0b000) (by simp [rv32]) (by simp [Pattern.covers, fields_mkI])

@[simp] theorem accepted_andi (rd rs1 : BitVec 5) (off : Word) :
    (decodeUniform (mkI OPC_OP_IMM rd rs1 0b111#3 off)).decIllegal = false :=
  accepted (.funct3 OPC_OP_IMM 0b111) (by simp [rv32]) (by simp [Pattern.covers, fields_mkI])

theorem shamt_low (shamt : BitVec 5) : (shamt.setWidth 32).extractLsb 11 5 = 0b0000000#7 := by
  apply BitVec.eq_of_toNat_eq
  simp only [BitVec.extractLsb_toNat, Nat.shiftRight_eq_div_pow, BitVec.toNat_setWidth, BitVec.toNat_ofNat]
  omega

theorem shamt_high (f7 : BitVec 7) (shamt : BitVec 5) : (0#20 ++ f7 ++ shamt).extractLsb 11 5 = f7 := by
  simp only [← BitVec.toNat_inj, BitVec.extractLsb_toNat, BitVec.toNat_append_eq, Nat.shiftRight_eq_div_pow,
    BitVec.toNat_ofNat]
  omega

@[simp] theorem accepted_slli (rd rs1 shamt : BitVec 5) :
    (decodeUniform (mkI OPC_OP_IMM rd rs1 0b001#3 (shamt.setWidth 32))).decIllegal = false :=
  accepted (.funct7 OPC_OP_IMM 0b001 0b0000000) (by simp [rv32])
    (by simp only [Pattern.covers, fields_mkI, shamt_low]; decide)

@[simp] theorem accepted_srli (rd rs1 shamt : BitVec 5) :
    (decodeUniform (mkI OPC_OP_IMM rd rs1 0b101#3 (shamt.setWidth 32))).decIllegal = false :=
  accepted (.funct7 OPC_OP_IMM 0b101 0b0000000) (by simp [rv32])
    (by simp only [Pattern.covers, fields_mkI, shamt_low]; decide)

@[simp] theorem accepted_srai (rd rs1 shamt : BitVec 5) :
    (decodeUniform (mkI OPC_OP_IMM rd rs1 0b101#3 (0#20 ++ 0b0100000#7 ++ shamt))).decIllegal = false :=
  accepted (.funct7 OPC_OP_IMM 0b101 0b0100000) (by simp [rv32])
    (by simp only [Pattern.covers, fields_mkI, shamt_high]; decide)

@[simp] theorem accepted_lw (rd rs1 : BitVec 5) (off : Word) :
    (decodeUniform (mkI OPC_LOAD rd rs1 0b010#3 off)).decIllegal = false :=
  accepted (.funct3 OPC_LOAD 0b010) (by simp [rv32]) (by simp [Pattern.covers, fields_mkI])

@[simp] theorem accepted_sw (rs1 rs2 : BitVec 5) (off : Word) :
    (decodeUniform (mkS OPC_STORE rs1 rs2 0b010#3 off)).decIllegal = false :=
  accepted (.funct3 OPC_STORE 0b010) (by simp [rv32]) (by simp [Pattern.covers, fields_mkS])

@[simp] theorem accepted_jalr (rd rs1 : BitVec 5) (off : Word) :
    (decodeUniform (mkI OPC_JALR rd rs1 0b000#3 off)).decIllegal = false :=
  accepted (.funct3 OPC_JALR 0b000) (by simp [rv32]) (by simp [Pattern.covers, fields_mkI])

@[simp] theorem accepted_ebreak : (decodeUniform (mkI OPC_SYSTEM 0#5 0#5 0b000#3 1#32)).decIllegal = false := rfl

@[simp] theorem accepted_jal (rd : BitVec 5) (off : Word) : (decodeUniform (mkJ OPC_JAL rd off)).decIllegal = false :=
  accepted (.opcode OPC_JAL) (by simp [rv32]) (by simp [Pattern.covers, fields_mkJ])

@[simp] theorem accepted_lui (rd : BitVec 5) (off : Word) : (decodeUniform (mkU OPC_LUI rd off)).decIllegal = false :=
  accepted (.opcode OPC_LUI) (by simp [rv32]) (by simp [Pattern.covers, fields_mkU])

@[simp] theorem accepted_beq (rs1 rs2 : BitVec 5) (off : Word) :
    (decodeUniform (mkB OPC_BRANCH rs1 rs2 0b000#3 off)).decIllegal = false :=
  accepted (.funct3 OPC_BRANCH 0b000) (by simp [rv32]) (by simp [Pattern.covers, fields_mkB])

@[simp] theorem accepted_bne (rs1 rs2 : BitVec 5) (off : Word) :
    (decodeUniform (mkB OPC_BRANCH rs1 rs2 0b001#3 off)).decIllegal = false :=
  accepted (.funct3 OPC_BRANCH 0b001) (by simp [rv32]) (by simp [Pattern.covers, fields_mkB])

/-- `add`, `sub`, `xor`, `or`, `and`: the register operations with a compressed form. -/
theorem accepted_mkR {f3 : BitVec 3} {f7 : BitVec 7} (row : Pattern.funct7 OPC_OP f3 f7 ∈ rv32)
    (rd rs1 rs2 : BitVec 5) : (decodeUniform (mkR OPC_OP rd rs1 rs2 f3 f7)).decIllegal = false :=
  accepted _ row (by simp [Pattern.covers, fields_mkR])

/-! ## The compressed set -/

/-- A compressed encoding: quadrant, `funct3`, and what its other fields must be. -/
structure CPattern where
  quadrant : BitVec 2
  funct3 : BitVec 3
  fields : BitVec 16 → Bool

def CPattern.covers (c : BitVec 16) (pat : CPattern) : Bool :=
  c.extractLsb 1 0 == pat.quadrant && cF3 c == pat.funct3 && pat.fields c

/-- The RV32 integer compressed instructions, the hints among them. -/
def rvc : List CPattern :=
  [ -- c.addi4spn, c.lw, c.sw
   ⟨0b00, 0b000, fun c => cNzSpn c != 0⟩, ⟨0b00, 0b010, fun _ => true⟩, ⟨0b00, 0b110, fun _ => true⟩,
   -- c.nop / c.addi, c.jal, c.li, c.addi16sp, c.lui
   ⟨0b01, 0b000, fun _ => true⟩, ⟨0b01, 0b001, fun _ => true⟩, ⟨0b01, 0b010, fun _ => true⟩,
   ⟨0b01, 0b011, fun c => cRd5 c == 2 && cNz16 c != 0⟩, ⟨0b01, 0b011, fun c => cRd5 c != 2 && cImm6 c != 0⟩,
   -- c.srli, c.srai, c.andi, then c.sub / c.xor / c.or / c.and
   ⟨0b01, 0b100, fun c => c.extractLsb 11 10 == 0b00#2 && !c.getLsbD 12⟩,
   ⟨0b01, 0b100, fun c => c.extractLsb 11 10 == 0b01#2 && !c.getLsbD 12⟩,
   ⟨0b01, 0b100, fun c => c.extractLsb 11 10 == 0b10#2⟩,
   ⟨0b01, 0b100, fun c => c.extractLsb 11 10 == 0b11#2 && !c.getLsbD 12⟩,
   -- c.j, c.beqz, c.bnez
   ⟨0b01, 0b101, fun _ => true⟩, ⟨0b01, 0b110, fun _ => true⟩, ⟨0b01, 0b111, fun _ => true⟩,
   -- c.slli, c.lwsp, c.swsp
   ⟨0b10, 0b000, fun c => !c.getLsbD 12⟩, ⟨0b10, 0b010, fun c => cRd5 c != 0⟩, ⟨0b10, 0b110, fun _ => true⟩,
   -- c.jr, c.mv, c.ebreak, c.jalr, c.add
   ⟨0b10, 0b100, fun c => !c.getLsbD 12 && cRd5 c != 0 && cRs2 c == 0⟩,
   ⟨0b10, 0b100, fun c => !c.getLsbD 12 && cRs2 c != 0⟩,
   ⟨0b10, 0b100, fun c => c.getLsbD 12 && cRd5 c == 0 && cRs2 c == 0⟩,
   ⟨0b10, 0b100, fun c => c.getLsbD 12 && cRd5 c != 0 && cRs2 c == 0⟩,
   ⟨0b10, 0b100, fun c => c.getLsbD 12 && cRs2 c != 0⟩]

def legal16 (c : BitVec 16) : Bool := rvc.any (·.covers c)

/-- The hint code points of RV32C. -/
def hints : List CPattern :=
  [ -- c.nop with an immediate, c.addi without one, c.li and c.lui to x0
   ⟨0b01, 0b000, fun c => (cRd5 c == 0) != (cImm6 c == 0)⟩, ⟨0b01, 0b010, fun c => cRd5 c == 0⟩,
   ⟨0b01, 0b011, fun c => cRd5 c == 0 && cImm6 c != 0⟩,
   -- c.srli64, c.srai64, c.slli64 and c.slli to x0
   ⟨0b01, 0b100, fun c => !c.getLsbD 11 && !c.getLsbD 12 && c.extractLsb 6 2 == 0#5⟩,
   ⟨0b10, 0b000, fun c => !c.getLsbD 12 && (cRd5 c == 0 || c.extractLsb 6 2 == 0#5)⟩,
   -- c.mv and c.add to x0
   ⟨0b10, 0b100, fun c => cRd5 c == 0 && cRs2 c != 0⟩]

def hint16 (c : BitVec 16) : Bool := hints.any (·.covers c)

/-- The reserved halfwords `c_expand` does not refuse: shifts with `shamt[5] = 1`, the
register group with bit 12 set, and `c.jr x0`, which becomes `c.ebreak`. -/
structure Slip16 (c : BitVec 16) : Prop where
  slip : c.extractLsb 1 0 = 0b01#2 ∧ cF3 c = 0b100#3 ∧ c.extractLsb 11 10 ≠ 0b10#2 ∧ c.getLsbD 12 = true ∨
    c.extractLsb 1 0 = 0b10#2 ∧ cF3 c = 0b000#3 ∧ cRd5 c ≠ 0 ∧ c.getLsbD 12 = true ∨
    c.extractLsb 1 0 = 0b10#2 ∧ cF3 c = 0b100#3 ∧ cRd5 c = 0 ∧ cRs2 c = 0 ∧ c.getLsbD 12 = false

/-- The expansion accepts exactly the table and the slips. -/
structure Agrees16 (c : BitVec 16) : Prop where
  accepts : (decodeUniform (cExpand c)).decIllegal = false ↔ legal16 c = true ∨ Slip16 c
  reserved : Slip16 c → legal16 c = false

theorem quadrant_cases (q : BitVec 2) : q = 0b00#2 ∨ q = 0b01#2 ∨ q = 0b10#2 ∨ q = 0b11#2 := by
  revert q
  decide

theorem agrees_quad0 {c : BitVec 16} (q : c.extractLsb 1 0 = 0b00#2) : Agrees16 c := by
  have hslip : ¬ Slip16 c := by rintro ⟨h⟩; simp [q] at h
  refine ⟨?_, fun h => absurd h hslip⟩
  rcases funct3_cases (cF3 c) with h | h | h | h | h | h | h | h
  · by_cases hz : cNzSpn c = 0#10 <;>
      simp [cExpand, cQuad0, q, h, hz, hslip, legal16, rvc, CPattern.covers]
  all_goals simp [cExpand, cQuad0, q, h, hslip, legal16, rvc, CPattern.covers]

/-- The misc group is accepted whatever bit 12 is. -/
theorem accepted_misc (c : BitVec 16) : (decodeUniform (cQuad1Misc c)).decIllegal = false := by
  have hsub : Pattern.funct7 OPC_OP 0b000#3 0b0100000#7 ∈ rv32 := by simp [rv32]
  have hxor : Pattern.funct7 OPC_OP 0b100#3 0b0000000#7 ∈ rv32 := by simp [rv32]
  have hor : Pattern.funct7 OPC_OP 0b110#3 0b0000000#7 ∈ rv32 := by simp [rv32]
  have hand : Pattern.funct7 OPC_OP 0b111#3 0b0000000#7 ∈ rv32 := by simp [rv32]
  unfold cQuad1Misc
  split
  · exact accepted_srli _ _ _
  split
  · exact accepted_srai _ _ _
  split
  · exact accepted_andi _ _ _
  split
  · exact accepted_mkR hsub _ _ _
  split
  · exact accepted_mkR hxor _ _ _
  split
  · exact accepted_mkR hor _ _ _
  · exact accepted_mkR hand _ _ _

theorem agrees_quad1 {c : BitVec 16} (q : c.extractLsb 1 0 = 0b01#2) (plain : hint16 c = false) : Agrees16 c := by
  have hslip : Slip16 c ↔ cF3 c = 0b100#3 ∧ c.extractLsb 11 10 ≠ 0b10#2 ∧ c.getLsbD 12 = true := by
    constructor
    · rintro ⟨h⟩
      simpa [q] using h
    · exact fun h => ⟨.inl ⟨q, h⟩⟩
  simp only [hint16, hints, CPattern.covers, q, List.any_cons, List.any_nil] at plain
  rcases funct3_cases (cF3 c) with h | h | h | h | h | h | h | h
  case inr.inr.inr.inr.inl =>
    -- The misc group: the shifts and the register operations differ only in bit 12.
    have hmisc := accepted_misc c
    have hx : cExpand c = cQuad1Misc c := by simp [cExpand, cQuad1, q, h]
    rw [← hx] at hmisc
    refine ⟨?_, ?_⟩ <;> rw [hslip]
    · rcases quadrant_cases (c.extractLsb 11 10) with g | g | g | g <;> cases hb : c[12] <;>
        simp [hmisc, h, legal16, rvc, CPattern.covers, q, g]
    · rintro ⟨-, hne, hb⟩
      simp [legal16, rvc, CPattern.covers, q, h, hne, hb]
  all_goals refine ⟨?_, by simp [hslip, h]⟩
  · by_cases hrd : cRd5 c = 0#5 <;> by_cases himm : cImm6 c = 0#6 <;>
      simp_all [cExpand, cQuad1, legal16, rvc, CPattern.covers]
  · simp [cExpand, cQuad1, q, h, hslip, legal16, rvc, CPattern.covers]
  · by_cases hrd : cRd5 c = 0#5 <;> simp_all [cExpand, cQuad1, legal16, rvc, CPattern.covers]
  · by_cases hsp : cRd5 c = 2#5
    · by_cases hnz : cNz16 c = 0#10 <;> simp_all [cExpand, cQuad1, legal16, rvc, CPattern.covers]
    · by_cases hrd : cRd5 c = 0#5 <;> by_cases himm : cImm6 c = 0#6 <;>
        simp_all [cExpand, cQuad1, legal16, rvc, CPattern.covers]
  all_goals simp [cExpand, cQuad1, q, h, hslip, legal16, rvc, CPattern.covers]

theorem agrees_quad2 {c : BitVec 16} (q : c.extractLsb 1 0 = 0b10#2) (plain : hint16 c = false) : Agrees16 c := by
  have hslip : Slip16 c ↔ cF3 c = 0b000#3 ∧ cRd5 c ≠ 0 ∧ c.getLsbD 12 = true ∨
      cF3 c = 0b100#3 ∧ cRd5 c = 0 ∧ cRs2 c = 0 ∧ c.getLsbD 12 = false := by
    constructor
    · rintro ⟨h⟩
      simpa [q] using h
    · rintro (h | h)
      · exact ⟨.inr (.inl ⟨q, h⟩)⟩
      · exact ⟨.inr (.inr ⟨q, h⟩)⟩
  simp only [hint16, hints, CPattern.covers, q, List.any_cons, List.any_nil] at plain
  rcases funct3_cases (cF3 c) with h | h | h | h | h | h | h | h
  · refine ⟨?_, ?_⟩ <;> rw [hslip] <;> by_cases hrd : cRd5 c = 0#5 <;> cases hb : c.getLsbD 12 <;>
      simp_all [cExpand, cQuad2, legal16, rvc, CPattern.covers]
  · exact ⟨by simp [cExpand, cQuad2, q, h, hslip, legal16, rvc, CPattern.covers], by simp [hslip, h]⟩
  · refine ⟨?_, by simp [hslip, h]⟩
    by_cases hrd : cRd5 c = 0#5 <;> simp [cExpand, cQuad2, q, h, hslip, hrd, legal16, rvc, CPattern.covers]
  · exact ⟨by simp [cExpand, cQuad2, q, h, hslip, legal16, rvc, CPattern.covers], by simp [hslip, h]⟩
  · have hadd : ∀ rs1, (decodeUniform (mkR OPC_OP (cRd5 c) rs1 (cRs2 c) 0b000#3 0b0000000#7)).decIllegal = false :=
      fun rs1 => accepted_mkR (by simp [rv32]) _ _ _
    refine ⟨?_, ?_⟩ <;> rw [hslip] <;> by_cases hrd : cRd5 c = 0#5 <;> by_cases hrs : cRs2 c = 0#5 <;>
      cases hb : c.getLsbD 12 <;> simp_all [cExpand, cQuad2, legal16, rvc, CPattern.covers]
  · exact ⟨by simp [cExpand, cQuad2, q, h, hslip, legal16, rvc, CPattern.covers], by simp [hslip, h]⟩
  · exact ⟨by simp [cExpand, cQuad2, q, h, hslip, legal16, rvc, CPattern.covers], by simp [hslip, h]⟩
  · exact ⟨by simp [cExpand, cQuad2, q, h, hslip, legal16, rvc, CPattern.covers], by simp [hslip, h]⟩

/-- No halfword of the fourth quadrant is a compressed instruction. -/
theorem agrees_quad3 {c : BitVec 16} (q : c.extractLsb 1 0 = 0b11#2) : Agrees16 c := by
  have hslip : ¬ Slip16 c := by rintro ⟨h⟩; simp [q] at h
  refine ⟨?_, fun h => absurd h hslip⟩
  simp [cExpand, q, hslip, legal16, rvc, CPattern.covers]

theorem agrees16 {c : BitVec 16} (plain : hint16 c = false) : Agrees16 c := by
  rcases quadrant_cases (c.extractLsb 1 0) with q | q | q | q
  · exact agrees_quad0 q
  · exact agrees_quad1 q plain
  · exact agrees_quad2 q plain
  · exact agrees_quad3 q

/-! ## The exception request -/

/-- The source is an instruction of the set. -/
def Src.legal (s : Src) : Bool := if s.isCompressed then legal16 s.half16 else legal32 s.word32

def Src.hint (s : Src) : Bool := s.isCompressed && hint16 s.half16

def Src.Slip (s : Src) : Prop := if s.isCompressed then Slip16 s.half16 else Slip32 s.word32

namespace DecCyc

/-- The D/E word asks for the illegal-instruction exception. -/
def illegalRequested (d : DecCyc) : Bool := d.deD.exception && d.deD.exceptionCause == MCAUSE_ILLEGAL

theorem illegalRequested_eq {d : DecCyc} (valid : d.decodedValid = true) (clean : d.takeFault = false) :
    d.illegalRequested = (decodeUniform d.src.instr32).decIllegal := by
  have hill : d.excIllegal = (decodeUniform d.src.instr32).decIllegal := by
    simp [DecCyc.excIllegal, valid, DecCyc.ctrl]
  have hcause : (d.ctrl.excCause == MCAUSE_ILLEGAL) = false :=
    beq_eq_false_iff_ne.mpr (excCause_uniform d.src.instr32).2
  simp only [illegalRequested, DecCyc.deD, DecCyc.excReq, DecCyc.excCause, clean, hill]
  cases (decodeUniform d.src.instr32).decIllegal <;> simp [hcause]

/-- Hints aside, the illegal-instruction exception is requested exactly for the
encodings outside the instruction set, except for the slips. -/
theorem illegal_iff_reserved (d : DecCyc) (valid : d.decodedValid = true) (clean : d.takeFault = false)
    (plain : d.src.hint = false) :
    (d.illegalRequested = true ↔ d.src.legal = false) ↔ ¬ d.src.Slip := by
  have key : ∀ {ill leg : Bool} {slip : Prop}, (ill = false ↔ leg = true ∨ slip) → (slip → leg = false) →
      ((ill = true ↔ leg = false) ↔ ¬ slip) := by
    intro ill leg slip accepts reserved
    cases ill <;> cases leg <;> simp_all
  rw [illegalRequested_eq valid clean]
  cases hc : d.src.isCompressed with
  | true =>
    have hp : hint16 d.src.half16 = false := by simpa [Src.hint, hc] using plain
    simp only [Src.instr32, Src.legal, Src.Slip, hc, if_true]
    exact key (agrees16 hp).accepts (agrees16 hp).reserved
  | false =>
    simp only [Src.instr32, Src.legal, Src.Slip, hc, Bool.false_eq_true, if_false]
    exact key (agrees d.src.word32).accepts (agrees d.src.word32).reserved

/-- A cycle that decodes the word `w` at address 0. -/
def ofWord (w : Word) : DecCyc where
  p := .board
  q := .reset
  fe := { instr := w, pc := 0, valid := true, fault := false, predLo := false, predHi := false, ghr := 0,
          nextInstr := 0, nextPc := 0, nextValid := false, nextFault := false, nextPredHi := false, nextGhr := 0 }
  regRead := fun _ => 0
  stall := false
  flush := false
  exWbEn := false
  exWbAddr := 0
  exWbData := 0
  bpLookup := fun _ => { phtTaken := false, rasValid := false, rasTop := 0, phtIndex := 0 }

/-- `sll` with `funct7 = 0100000` is executed as `sll`. -/
theorem sll_slip : ¬ ∀ d : DecCyc, d.decodedValid = true → d.takeFault = false → d.src.hint = false →
    (d.illegalRequested = true ↔ d.src.legal = false) := by
  intro h
  have := h (ofWord 0x40001033#32) (by decide) (by decide) (by decide)
  revert this
  decide

/-- The legal `sll`. -/
theorem illegal_iff_reserved_sll :
    ((ofWord 0x00001033#32).illegalRequested = true ↔ (ofWord 0x00001033#32).src.legal = false) ↔
      ¬ (ofWord 0x00001033#32).src.Slip :=
  illegal_iff_reserved (ofWord 0x00001033#32) (by decide) (by decide) (by decide)

end DecCyc

end YarvUc
