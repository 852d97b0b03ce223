import Mathlib.Tactic.IntervalCases
import YarvUc.Decode.Immediates
import YarvUc.Decode.Legal

/-!
# The 32-bit instructions

RV32I, M, Zicsr, `fence`, `fence.i`, the privileged words and Zilx as a syntax of their own,
with the formats the words have: `Instr.encode` writes an instruction and `Instr.ofWord` reads
one by the tables of the functions. The two are inverse to each other, and the words they
speak of are the ones of `rv32`.
-/

namespace YarvUc

/-! ## Functions and their codes -/

inductive Cond where
  | eq | ne | lt | ge | ltu | geu

inductive Width where
  | byte | half | word | byteU | halfU

inductive ImmFn where
  | add | slt | sltu | xor | or | and

inductive ShiftFn where
  | sll | srl | sra

inductive RegFn where
  | add | sub | sll | slt | sltu | xor | srl | sra | or | and
  | mul | mulh | mulhsu | mulhu | div | divu | rem | remu

/-- `lx` of a size, and `lxs`, whose index counts elements. -/
inductive Indexed where
  | lxh | lxw | lxhu | lxsb | lxsh | lxsw | lxsbu | lxshu

inductive CsrFn where
  | rw | rs | rc

namespace Cond

def all : List Cond := [.eq, .ne, .lt, .ge, .ltu, .geu]

def funct3 : Cond → BitVec 3
  | eq => 0b000
  | ne => 0b001
  | lt => 0b100
  | ge => 0b101
  | ltu => 0b110
  | geu => 0b111

def of (f3 : BitVec 3) : Option Cond := all.find? (·.funct3 == f3)

theorem of_funct3 (c : Cond) : of c.funct3 = some c := by cases c <;> rfl

theorem funct3_of {f3 : BitVec 3} {c : Cond} (h : of f3 = some c) : c.funct3 = f3 := by
  simpa using List.find?_some h

end Cond

namespace Width

def all : List Width := [.byte, .half, .word, .byteU, .halfU]

def funct3 : Width → BitVec 3
  | byte => 0b000
  | half => 0b001
  | word => 0b010
  | byteU => 0b100
  | halfU => 0b101

def of (f3 : BitVec 3) : Option Width := all.find? (·.funct3 == f3)

theorem of_funct3 (z : Width) : of z.funct3 = some z := by cases z <;> rfl

theorem funct3_of {f3 : BitVec 3} {z : Width} (h : of f3 = some z) : z.funct3 = f3 := by
  simpa using List.find?_some h

end Width

namespace MemSize

def all : List MemSize := [.B, .H, .W]

def funct3 : MemSize → BitVec 3
  | B => 0b000
  | H => 0b001
  | W => 0b010

def of (f3 : BitVec 3) : Option MemSize := all.find? (·.funct3 == f3)

theorem of_funct3 (z : MemSize) : of z.funct3 = some z := by cases z <;> rfl

theorem funct3_of {f3 : BitVec 3} {z : MemSize} (h : of f3 = some z) : z.funct3 = f3 := by
  simpa using List.find?_some h

end MemSize

namespace ImmFn

def all : List ImmFn := [.add, .slt, .sltu, .xor, .or, .and]

def funct3 : ImmFn → BitVec 3
  | add => 0b000
  | slt => 0b010
  | sltu => 0b011
  | xor => 0b100
  | or => 0b110
  | and => 0b111

def of (f3 : BitVec 3) : Option ImmFn := all.find? (·.funct3 == f3)

theorem of_funct3 (f : ImmFn) : of f.funct3 = some f := by cases f <;> rfl

theorem funct3_of {f3 : BitVec 3} {f : ImmFn} (h : of f3 = some f) : f.funct3 = f3 := by
  simpa using List.find?_some h

end ImmFn

namespace ShiftFn

def all : List ShiftFn := [.sll, .srl, .sra]

def codes : ShiftFn → BitVec 7 × BitVec 3
  | sll => (0b0000000, 0b001)
  | srl => (0b0000000, 0b101)
  | sra => (0b0100000, 0b101)

def of (codes : BitVec 7 × BitVec 3) : Option ShiftFn := all.find? (·.codes == codes)

theorem of_codes (f : ShiftFn) : of f.codes = some f := by cases f <;> rfl

theorem codes_of {k : BitVec 7 × BitVec 3} {f : ShiftFn} (h : of k = some f) : f.codes = k := by
  simpa using List.find?_some h

/-- No function with an immediate has the `funct3` of a shift. -/
theorem not_imm (f : ShiftFn) : ImmFn.of f.codes.2 = none := by cases f <;> rfl

end ShiftFn

namespace RegFn

def all : List RegFn :=
  [.add, .sub, .sll, .slt, .sltu, .xor, .srl, .sra, .or, .and, .mul, .mulh, .mulhsu, .mulhu, .div, .divu, .rem, .remu]

def codes : RegFn → BitVec 7 × BitVec 3
  | add => (0b0000000, 0b000)
  | sub => (0b0100000, 0b000)
  | sll => (0b0000000, 0b001)
  | slt => (0b0000000, 0b010)
  | sltu => (0b0000000, 0b011)
  | xor => (0b0000000, 0b100)
  | srl => (0b0000000, 0b101)
  | sra => (0b0100000, 0b101)
  | or => (0b0000000, 0b110)
  | and => (0b0000000, 0b111)
  | mul => (0b0000001, 0b000)
  | mulh => (0b0000001, 0b001)
  | mulhsu => (0b0000001, 0b010)
  | mulhu => (0b0000001, 0b011)
  | div => (0b0000001, 0b100)
  | divu => (0b0000001, 0b101)
  | rem => (0b0000001, 0b110)
  | remu => (0b0000001, 0b111)

def of (codes : BitVec 7 × BitVec 3) : Option RegFn := all.find? (·.codes == codes)

theorem of_codes (f : RegFn) : of f.codes = some f := by cases f <;> rfl

theorem codes_of {k : BitVec 7 × BitVec 3} {f : RegFn} (h : of k = some f) : f.codes = k := by
  simpa using List.find?_some h

end RegFn

namespace Indexed

def all : List Indexed := [.lxh, .lxw, .lxhu, .lxsb, .lxsh, .lxsw, .lxsbu, .lxshu]

def width : Indexed → Width
  | lxh | lxsh => .half
  | lxw | lxsw => .word
  | lxhu | lxshu => .halfU
  | lxsb => .byte
  | lxsbu => .byteU

def scaled : Indexed → Bool
  | lxh | lxw | lxhu => false
  | lxsb | lxsh | lxsw | lxsbu | lxshu => true

def codes (x : Indexed) : BitVec 7 × BitVec 3 := (if x.scaled then 0b1101000 else 0b1001000, x.width.funct3)

def of (codes : BitVec 7 × BitVec 3) : Option Indexed := all.find? (·.codes == codes)

theorem of_codes (x : Indexed) : of x.codes = some x := by cases x <;> rfl

theorem codes_of {k : BitVec 7 × BitVec 3} {x : Indexed} (h : of k = some x) : x.codes = k := by
  simpa using List.find?_some h

end Indexed

namespace CsrFn

def all : List CsrFn := [.rw, .rs, .rc]

/-- With a register; with an immediate bit 2 is set. -/
def funct3 : CsrFn → BitVec 3
  | rw => 0b001
  | rs => 0b010
  | rc => 0b011

def of (f3 : BitVec 3) : Option CsrFn := all.find? (·.funct3 == f3)

theorem of_funct3 (f : CsrFn) : of f.funct3 = some f := by cases f <;> rfl

theorem funct3_of {f3 : BitVec 3} {f : CsrFn} (h : of f3 = some f) : f.funct3 = f3 := by
  simpa using List.find?_some h

end CsrFn

/-! ## The instructions -/

/-- Offsets of transfers are without their bit 0; what a field reserves or leaves open is kept. -/
inductive Instr where
  | lui (rd : BitVec 5) (imm : BitVec 20)
  | auipc (rd : BitVec 5) (imm : BitVec 20)
  | jal (rd : BitVec 5) (off : BitVec 20)
  | jalr (rd rs1 : BitVec 5) (imm : BitVec 12)
  | branch (c : Cond) (rs1 rs2 : BitVec 5) (off : BitVec 12)
  | load (z : Width) (rd rs1 : BitVec 5) (imm : BitVec 12)
  | store (z : MemSize) (rs1 rs2 : BitVec 5) (imm : BitVec 12)
  | immediate (f : ImmFn) (rd rs1 : BitVec 5) (imm : BitVec 12)
  | shift (f : ShiftFn) (rd rs1 shamt : BitVec 5)
  | register (f : RegFn) (rd rs1 rs2 : BitVec 5)
  | indexed (x : Indexed) (rd rs1 rs2 : BitVec 5)
  | fence (rd rs1 : BitVec 5) (ops : BitVec 12)
  | fenceI (rd rs1 : BitVec 5) (imm : BitVec 12)
  | csr (f : CsrFn) (rd rs1 : BitVec 5) (addr : BitVec 12)
  | csrImm (f : CsrFn) (rd zimm : BitVec 5) (addr : BitVec 12)
  | ecall
  | ebreak
  | mret
  | wfi

namespace Instr

/-! ### The formats -/

section Formats

variable (op : BitVec 7) (rd rs1 rs2 : BitVec 5) (f3 : BitVec 3) (f7 : BitVec 7)

def rType : Word := f7 ++ rs2 ++ rs1 ++ f3 ++ rd ++ op

def iType (imm : BitVec 12) : Word := imm ++ rs1 ++ f3 ++ rd ++ op

def sType (imm : BitVec 12) : Word := imm.extractLsb 11 5 ++ rs2 ++ rs1 ++ f3 ++ imm.extractLsb 4 0 ++ op

/-- `off` is `offset[12:1]`: `offset[12|10:5]` on top, `offset[4:1|11]` where `rd` was. -/
def bType (off : BitVec 12) : Word :=
  off.extractLsb 11 11 ++ off.extractLsb 9 4 ++ rs2 ++ rs1 ++ f3 ++ off.extractLsb 3 0 ++ off.extractLsb 10 10 ++ op

def uType (imm : BitVec 20) : Word := imm ++ rd ++ op

/-- `off` is `offset[20:1]`: `offset[20|10:1|11|19:12]`. -/
def jType (off : BitVec 20) : Word :=
  off.extractLsb 19 19 ++ off.extractLsb 9 0 ++ off.extractLsb 10 10 ++ off.extractLsb 18 11 ++ rd ++ op

end Formats

def encode : Instr → Word
  | lui rd imm => uType OPC_LUI rd imm
  | auipc rd imm => uType OPC_AUIPC rd imm
  | jal rd off => jType OPC_JAL rd off
  | jalr rd rs1 imm => iType OPC_JALR rd rs1 0b000#3 imm
  | branch c rs1 rs2 off => bType OPC_BRANCH rs1 rs2 c.funct3 off
  | load z rd rs1 imm => iType OPC_LOAD rd rs1 z.funct3 imm
  | store z rs1 rs2 imm => sType OPC_STORE rs1 rs2 z.funct3 imm
  | immediate f rd rs1 imm => iType OPC_OP_IMM rd rs1 f.funct3 imm
  | shift f rd rs1 shamt => rType OPC_OP_IMM rd rs1 shamt f.codes.2 f.codes.1
  | register f rd rs1 rs2 => rType OPC_OP rd rs1 rs2 f.codes.2 f.codes.1
  | indexed x rd rs1 rs2 => rType OPC_AMO rd rs1 rs2 x.codes.2 x.codes.1
  | fence rd rs1 ops => iType OPC_MISC_MEM rd rs1 0b000#3 ops
  | fenceI rd rs1 imm => iType OPC_MISC_MEM rd rs1 0b001#3 imm
  | csr f rd rs1 addr => iType OPC_SYSTEM rd rs1 f.funct3 addr
  | csrImm f rd zimm addr => iType OPC_SYSTEM rd zimm (0b100#3 ||| f.funct3) addr
  | ecall => 0x00000073
  | ebreak => 0x00100073
  | mret => 0x30200073
  | wfi => 0x10500073

/-! ### Reading -/

def bOff (w : Word) : BitVec 12 := w.extractLsb 31 31 ++ w.extractLsb 7 7 ++ w.extractLsb 30 25 ++ w.extractLsb 11 8
def jOff (w : Word) : BitVec 20 := w.extractLsb 31 31 ++ w.extractLsb 19 12 ++ w.extractLsb 20 20 ++ w.extractLsb 30 21

def ofOpImm (w : Word) : Option Instr :=
  match ImmFn.of (funct3Of w) with
  | some f => some (immediate f (rdField w) (rs1Field w) (funct12Of w))
  | none => (ShiftFn.of (funct7Of w, funct3Of w)).map fun f => shift f (rdField w) (rs1Field w) (rs2Field w)

def ofMiscMem (w : Word) : Option Instr :=
  if funct3Of w = 0b000#3 then some (fence (rdField w) (rs1Field w) (funct12Of w))
  else if funct3Of w = 0b001#3 then some (fenceI (rdField w) (rs1Field w) (funct12Of w))
  else none

def ofSystem (w : Word) : Option Instr :=
  if funct3Of w = 0b000#3 then [ecall, ebreak, mret, wfi].find? (·.encode == w)
  else if (funct3Of w).getLsbD 2 then
    (CsrFn.of (0b011#3 &&& funct3Of w)).map fun f => csrImm f (rdField w) (rs1Field w) (funct12Of w)
  else (CsrFn.of (funct3Of w)).map fun f => csr f (rdField w) (rs1Field w) (funct12Of w)

/-- The instruction a word encodes, if any. -/
def ofWord (w : Word) : Option Instr :=
  if opcodeOf w = OPC_LUI then some (lui (rdField w) (w.extractLsb 31 12))
  else if opcodeOf w = OPC_AUIPC then some (auipc (rdField w) (w.extractLsb 31 12))
  else if opcodeOf w = OPC_JAL then some (jal (rdField w) (jOff w))
  else if opcodeOf w = OPC_JALR then
    if funct3Of w = 0b000#3 then some (jalr (rdField w) (rs1Field w) (funct12Of w)) else none
  else if opcodeOf w = OPC_BRANCH then
    (Cond.of (funct3Of w)).map fun c => branch c (rs1Field w) (rs2Field w) (bOff w)
  else if opcodeOf w = OPC_LOAD then
    (Width.of (funct3Of w)).map fun z => load z (rdField w) (rs1Field w) (funct12Of w)
  else if opcodeOf w = OPC_STORE then
    (MemSize.of (funct3Of w)).map fun z => store z (rs1Field w) (rs2Field w) (funct7Of w ++ rdField w)
  else if opcodeOf w = OPC_OP_IMM then ofOpImm w
  else if opcodeOf w = OPC_OP then
    (RegFn.of (funct7Of w, funct3Of w)).map fun f => register f (rdField w) (rs1Field w) (rs2Field w)
  else if opcodeOf w = OPC_AMO then
    (Indexed.of (funct7Of w, funct3Of w)).map fun x => indexed x (rdField w) (rs1Field w) (rs2Field w)
  else if opcodeOf w = OPC_MISC_MEM then ofMiscMem w
  else if opcodeOf w = OPC_SYSTEM then ofSystem w
  else none

/-! ### The round trip -/

section Fields

variable (op : BitVec 7) (rd rs1 rs2 : BitVec 5) (f3 : BitVec 3) (f7 : BitVec 7) (w : Word)

/-- The operand registers and the codes of a format, as they are read. -/
theorem fields_rType : opcodeOf (rType op rd rs1 rs2 f3 f7) = op ∧ rdField (rType op rd rs1 rs2 f3 f7) = rd ∧
    funct3Of (rType op rd rs1 rs2 f3 f7) = f3 ∧ rs1Field (rType op rd rs1 rs2 f3 f7) = rs1 ∧
      rs2Field (rType op rd rs1 rs2 f3 f7) = rs2 ∧ funct7Of (rType op rd rs1 rs2 f3 f7) = f7 := by
  simp only [← BitVec.toNat_inj, rType, BitVec.extractLsb_toNat, BitVec.toNat_append_eq, Nat.shiftRight_eq_div_pow]
  omega

theorem fields_iType (imm : BitVec 12) : opcodeOf (iType op rd rs1 f3 imm) = op ∧ rdField (iType op rd rs1 f3 imm) = rd ∧
    funct3Of (iType op rd rs1 f3 imm) = f3 ∧ rs1Field (iType op rd rs1 f3 imm) = rs1 ∧
      funct12Of (iType op rd rs1 f3 imm) = imm := by
  simp only [← BitVec.toNat_inj, iType, BitVec.extractLsb_toNat, BitVec.toNat_append_eq, Nat.shiftRight_eq_div_pow]
  omega

theorem fields_sType (imm : BitVec 12) : opcodeOf (sType op rs1 rs2 f3 imm) = op ∧
    funct3Of (sType op rs1 rs2 f3 imm) = f3 ∧ rs1Field (sType op rs1 rs2 f3 imm) = rs1 ∧
      rs2Field (sType op rs1 rs2 f3 imm) = rs2 ∧
      funct7Of (sType op rs1 rs2 f3 imm) ++ rdField (sType op rs1 rs2 f3 imm) = imm := by
  have eq : sType op rs1 rs2 f3 imm = rType op (imm.extractLsb 4 0) rs1 rs2 f3 (imm.extractLsb 11 5) := rfl
  obtain ⟨hop, hrd, hf3, hrs1, hrs2, hf7⟩ := fields_rType op (imm.extractLsb 4 0) rs1 rs2 f3 (imm.extractLsb 11 5)
  rw [eq, hop, hrd, hf3, hrs1, hrs2, hf7]
  refine ⟨rfl, rfl, rfl, rfl, ?_⟩
  simp only [← BitVec.toNat_inj, BitVec.extractLsb_toNat, BitVec.toNat_append_eq, Nat.shiftRight_eq_div_pow]
  omega

theorem fields_bType (off : BitVec 12) : opcodeOf (bType op rs1 rs2 f3 off) = op ∧
    funct3Of (bType op rs1 rs2 f3 off) = f3 ∧ rs1Field (bType op rs1 rs2 f3 off) = rs1 ∧
      rs2Field (bType op rs1 rs2 f3 off) = rs2 ∧ bOff (bType op rs1 rs2 f3 off) = off := by
  have eq : bType op rs1 rs2 f3 off = rType op (off.extractLsb 3 0 ++ off.extractLsb 10 10) rs1 rs2 f3
      (off.extractLsb 11 11 ++ off.extractLsb 9 4) := by
    simp only [bType, rType, ← BitVec.toNat_inj, BitVec.toNat_append_eq]
    omega
  obtain ⟨hop, -, hf3, hrs1, hrs2, -⟩ := fields_rType op (off.extractLsb 3 0 ++ off.extractLsb 10 10) rs1 rs2 f3
    (off.extractLsb 11 11 ++ off.extractLsb 9 4)
  rw [eq, hop, hf3, hrs1, hrs2, ← eq]
  refine ⟨rfl, rfl, rfl, rfl, ?_⟩
  apply BitVec.eq_of_getLsbD_eq
  intro i hi
  simp only [bOff, bType, BitVec.getLsbD_append, BitVec.getLsbD_extractLsb]
  interval_cases i <;> simp

theorem fields_uType (imm : BitVec 20) : opcodeOf (uType op rd imm) = op ∧ rdField (uType op rd imm) = rd ∧
    (uType op rd imm).extractLsb 31 12 = imm := by
  simp only [← BitVec.toNat_inj, uType, BitVec.extractLsb_toNat, BitVec.toNat_append_eq, Nat.shiftRight_eq_div_pow]
  omega

theorem fields_jType (off : BitVec 20) : opcodeOf (jType op rd off) = op ∧ rdField (jType op rd off) = rd ∧
    jOff (jType op rd off) = off := by
  have eq : jType op rd off =
      uType op rd (off.extractLsb 19 19 ++ off.extractLsb 9 0 ++ off.extractLsb 10 10 ++ off.extractLsb 18 11) := rfl
  obtain ⟨hop, hrd, -⟩ := fields_uType op rd
    (off.extractLsb 19 19 ++ off.extractLsb 9 0 ++ off.extractLsb 10 10 ++ off.extractLsb 18 11)
  rw [eq, hop, hrd, ← eq]
  refine ⟨rfl, rfl, ?_⟩
  apply BitVec.eq_of_getLsbD_eq
  intro i hi
  simp only [jOff, jType, BitVec.getLsbD_append, BitVec.getLsbD_extractLsb]
  interval_cases i <;> simp

/-- A word put together from its fields. -/
theorem rType_fields : rType (opcodeOf w) (rdField w) (rs1Field w) (rs2Field w) (funct3Of w) (funct7Of w) = w := by
  simp only [← BitVec.toNat_inj, rType, BitVec.extractLsb_toNat, BitVec.toNat_append_eq, Nat.shiftRight_eq_div_pow]
  omega

theorem iType_fields : iType (opcodeOf w) (rdField w) (rs1Field w) (funct3Of w) (funct12Of w) = w := by
  simp only [← BitVec.toNat_inj, iType, BitVec.extractLsb_toNat, BitVec.toNat_append_eq, Nat.shiftRight_eq_div_pow]
  omega

theorem sType_fields :
    sType (opcodeOf w) (rs1Field w) (rs2Field w) (funct3Of w) (funct7Of w ++ rdField w) = w := by
  simp only [← BitVec.toNat_inj, sType, BitVec.extractLsb_toNat, BitVec.toNat_append_eq, Nat.shiftRight_eq_div_pow]
  omega

theorem bType_fields : bType (opcodeOf w) (rs1Field w) (rs2Field w) (funct3Of w) (bOff w) = w := by
  apply BitVec.eq_of_getLsbD_eq
  intro i hi
  simp only [bOff, bType, BitVec.getLsbD_append, BitVec.getLsbD_extractLsb]
  interval_cases i <;> simp

theorem uType_fields : uType (opcodeOf w) (rdField w) (w.extractLsb 31 12) = w := by
  simp only [← BitVec.toNat_inj, uType, BitVec.extractLsb_toNat, BitVec.toNat_append_eq, Nat.shiftRight_eq_div_pow]
  omega

theorem jType_fields : jType (opcodeOf w) (rdField w) (jOff w) = w := by
  apply BitVec.eq_of_getLsbD_eq
  intro i hi
  simp only [jOff, jType, BitVec.getLsbD_append, BitVec.getLsbD_extractLsb]
  interval_cases i <;> simp

end Fields

/-- Reading what is written. -/
theorem ofWord_encode (i : Instr) : ofWord i.encode = some i := by
  cases i with
  | lui rd imm =>
    obtain ⟨op, hrd, himm⟩ := fields_uType OPC_LUI rd imm
    rw [encode, ofWord, op, hrd, himm]
    rfl
  | auipc rd imm =>
    obtain ⟨op, hrd, himm⟩ := fields_uType OPC_AUIPC rd imm
    rw [encode, ofWord, op, hrd, himm]
    rfl
  | jal rd off =>
    obtain ⟨op, hrd, hoff⟩ := fields_jType OPC_JAL rd off
    rw [encode, ofWord, op, hrd, hoff]
    rfl
  | jalr rd rs1 imm =>
    obtain ⟨op, hrd, f3, hrs1, himm⟩ := fields_iType OPC_JALR rd rs1 0b000#3 imm
    rw [encode, ofWord, op, hrd, f3, hrs1, himm]
    rfl
  | branch c rs1 rs2 off =>
    obtain ⟨op, f3, hrs1, hrs2, hoff⟩ := fields_bType OPC_BRANCH rs1 rs2 c.funct3 off
    rw [encode, ofWord, op, f3, hrs1, hrs2, hoff, Cond.of_funct3]
    rfl
  | load z rd rs1 imm =>
    obtain ⟨op, hrd, f3, hrs1, himm⟩ := fields_iType OPC_LOAD rd rs1 z.funct3 imm
    rw [encode, ofWord, op, hrd, f3, hrs1, himm, Width.of_funct3]
    rfl
  | store z rs1 rs2 imm =>
    obtain ⟨op, f3, hrs1, hrs2, himm⟩ := fields_sType OPC_STORE rs1 rs2 z.funct3 imm
    rw [encode, ofWord, op, f3, hrs1, hrs2, himm, MemSize.of_funct3]
    rfl
  | immediate f rd rs1 imm =>
    obtain ⟨op, hrd, f3, hrs1, himm⟩ := fields_iType OPC_OP_IMM rd rs1 f.funct3 imm
    rw [encode, ofWord, op, ofOpImm, hrd, f3, hrs1, himm, ImmFn.of_funct3]
    rfl
  | shift f rd rs1 shamt =>
    obtain ⟨op, hrd, f3, hrs1, hrs2, f7⟩ := fields_rType OPC_OP_IMM rd rs1 shamt f.codes.2 f.codes.1
    rw [encode, ofWord, op, ofOpImm, hrd, f3, hrs1, hrs2, f7, f.not_imm, ShiftFn.of_codes]
    rfl
  | register f rd rs1 rs2 =>
    obtain ⟨op, hrd, f3, hrs1, hrs2, f7⟩ := fields_rType OPC_OP rd rs1 rs2 f.codes.2 f.codes.1
    rw [encode, ofWord, op, hrd, f3, hrs1, hrs2, f7, RegFn.of_codes]
    rfl
  | indexed x rd rs1 rs2 =>
    obtain ⟨op, hrd, f3, hrs1, hrs2, f7⟩ := fields_rType OPC_AMO rd rs1 rs2 x.codes.2 x.codes.1
    rw [encode, ofWord, op, hrd, f3, hrs1, hrs2, f7, Indexed.of_codes]
    rfl
  | fence rd rs1 ops =>
    obtain ⟨op, hrd, f3, hrs1, himm⟩ := fields_iType OPC_MISC_MEM rd rs1 0b000#3 ops
    rw [encode, ofWord, op, ofMiscMem, hrd, f3, hrs1, himm]
    rfl
  | fenceI rd rs1 imm =>
    obtain ⟨op, hrd, f3, hrs1, himm⟩ := fields_iType OPC_MISC_MEM rd rs1 0b001#3 imm
    rw [encode, ofWord, op, ofMiscMem, hrd, f3, hrs1, himm]
    rfl
  | csr f rd rs1 addr =>
    obtain ⟨op, hrd, f3, hrs1, himm⟩ := fields_iType OPC_SYSTEM rd rs1 f.funct3 addr
    rw [encode, ofWord, op, ofSystem, hrd, f3, hrs1, himm]
    cases f <;> rfl
  | csrImm f rd zimm addr =>
    obtain ⟨op, hrd, f3, hrs1, himm⟩ := fields_iType OPC_SYSTEM rd zimm (0b100#3 ||| f.funct3) addr
    rw [encode, ofWord, op, ofSystem, hrd, f3, hrs1, himm]
    cases f <;> rfl
  | ecall | ebreak | mret | wfi => rfl

variable {w : Word} {i : Instr}

theorem encode_ofOpImm (op : opcodeOf w = OPC_OP_IMM) (h : ofOpImm w = some i) : i.encode = w := by
  rw [ofOpImm] at h
  cases f3 : ImmFn.of (funct3Of w) with
  | some f =>
    rw [f3] at h
    obtain rfl := Option.some.inj h
    rw [encode, ← op, ImmFn.funct3_of f3]
    exact iType_fields w
  | none =>
    rw [f3] at h
    obtain ⟨f, codes, rfl⟩ := Option.map_eq_some_iff.mp h
    rw [encode, ← op, ShiftFn.codes_of codes]
    exact rType_fields w

theorem encode_ofMiscMem (op : opcodeOf w = OPC_MISC_MEM) (h : ofMiscMem w = some i) : i.encode = w := by
  rw [ofMiscMem] at h
  rcases ite_eq_iff.mp h with ⟨f3, h⟩ | ⟨-, h⟩
  · obtain rfl := Option.some.inj h
    rw [encode, ← op, ← f3]
    exact iType_fields w
  rcases ite_eq_iff.mp h with ⟨f3, h⟩ | ⟨-, h⟩
  · obtain rfl := Option.some.inj h
    rw [encode, ← op, ← f3]
    exact iType_fields w
  · cases h

theorem encode_ofSystem (op : opcodeOf w = OPC_SYSTEM) (h : ofSystem w = some i) : i.encode = w := by
  rw [ofSystem] at h
  rcases ite_eq_iff.mp h with ⟨-, h⟩ | ⟨-, h⟩
  · simpa using List.find?_some h
  rcases ite_eq_iff.mp h with ⟨imm, h⟩ | ⟨-, h⟩
  · obtain ⟨f, f3, rfl⟩ := Option.map_eq_some_iff.mp h
    have whole : ∀ x : BitVec 3, x.getLsbD 2 = true → 0b100#3 ||| (0b011#3 &&& x) = x := by decide
    rw [encode, ← op, CsrFn.funct3_of f3]
    change iType _ _ _ (0b100#3 ||| (0b011#3 &&& funct3Of w)) _ = w
    rw [whole _ imm]
    exact iType_fields w
  · obtain ⟨f, f3, rfl⟩ := Option.map_eq_some_iff.mp h
    rw [encode, ← op, CsrFn.funct3_of f3]
    exact iType_fields w

/-- Writing what is read. -/
theorem encode_ofWord (h : ofWord w = some i) : i.encode = w := by
  rw [ofWord] at h
  rcases ite_eq_iff.mp h with ⟨op, h⟩ | ⟨-, h⟩
  · obtain rfl := Option.some.inj h
    rw [encode, ← op]
    exact uType_fields w
  rcases ite_eq_iff.mp h with ⟨op, h⟩ | ⟨-, h⟩
  · obtain rfl := Option.some.inj h
    rw [encode, ← op]
    exact uType_fields w
  rcases ite_eq_iff.mp h with ⟨op, h⟩ | ⟨-, h⟩
  · obtain rfl := Option.some.inj h
    rw [encode, ← op]
    exact jType_fields w
  rcases ite_eq_iff.mp h with ⟨op, h⟩ | ⟨-, h⟩
  · rcases ite_eq_iff.mp h with ⟨f3, h⟩ | ⟨-, h⟩
    · obtain rfl := Option.some.inj h
      rw [encode, ← op, ← f3]
      exact iType_fields w
    · cases h
  rcases ite_eq_iff.mp h with ⟨op, h⟩ | ⟨-, h⟩
  · obtain ⟨c, f3, rfl⟩ := Option.map_eq_some_iff.mp h
    rw [encode, ← op, Cond.funct3_of f3]
    exact bType_fields w
  rcases ite_eq_iff.mp h with ⟨op, h⟩ | ⟨-, h⟩
  · obtain ⟨z, f3, rfl⟩ := Option.map_eq_some_iff.mp h
    rw [encode, ← op, Width.funct3_of f3]
    exact iType_fields w
  rcases ite_eq_iff.mp h with ⟨op, h⟩ | ⟨-, h⟩
  · obtain ⟨z, f3, rfl⟩ := Option.map_eq_some_iff.mp h
    rw [encode, ← op, MemSize.funct3_of f3]
    exact sType_fields w
  rcases ite_eq_iff.mp h with ⟨op, h⟩ | ⟨-, h⟩
  · exact encode_ofOpImm op h
  rcases ite_eq_iff.mp h with ⟨op, h⟩ | ⟨-, h⟩
  · obtain ⟨f, codes, rfl⟩ := Option.map_eq_some_iff.mp h
    rw [encode, ← op, RegFn.codes_of codes]
    exact rType_fields w
  rcases ite_eq_iff.mp h with ⟨op, h⟩ | ⟨-, h⟩
  · obtain ⟨x, codes, rfl⟩ := Option.map_eq_some_iff.mp h
    rw [encode, ← op, Indexed.codes_of codes]
    exact rType_fields w
  rcases ite_eq_iff.mp h with ⟨op, h⟩ | ⟨-, h⟩
  · exact encode_ofMiscMem op h
  rcases ite_eq_iff.mp h with ⟨op, h⟩ | ⟨-, h⟩
  · exact encode_ofSystem op h
  · cases h

/-! ### The words of the table -/

/-- A word a row covers can be read. -/
theorem ofWord_row : ∀ pat ∈ rv32, pat.covers w = true → (ofWord w).isSome = true := by
  intro pat row covers
  cases pat with
  | opcode op =>
    simp only [Pattern.covers, beq_iff_eq] at covers
    rw [ofWord, covers]
    simp only [rv32, List.mem_cons, List.not_mem_nil, Pattern.opcode.injEq, reduceCtorEq, or_false] at row
    rcases row with rfl | rfl | rfl <;> rfl
  | funct3 op f3 =>
    simp only [Pattern.covers, Bool.and_eq_true, beq_iff_eq] at covers
    rw [ofWord, ofOpImm, ofMiscMem, ofSystem, covers.1, covers.2]
    simp only [rv32, List.mem_cons, List.not_mem_nil, Pattern.funct3.injEq, reduceCtorEq, or_false, false_or] at row
    repeat
      rcases row with ⟨rfl, rfl⟩ | row
      · rfl
    obtain ⟨rfl, rfl⟩ := row
    rfl
  | funct7 op f3 f7 =>
    simp only [Pattern.covers, Bool.and_eq_true, beq_iff_eq] at covers
    rw [ofWord, ofOpImm, covers.1.1, covers.1.2, covers.2]
    simp only [rv32, List.mem_cons, List.not_mem_nil, Pattern.funct7.injEq, reduceCtorEq, or_false, false_or] at row
    repeat
      rcases row with ⟨rfl, rfl, rfl⟩ | row
      · rfl
    obtain ⟨rfl, rfl, rfl⟩ := row
    rfl
  | word x =>
    simp only [Pattern.covers, beq_iff_eq] at covers
    subst covers
    simp only [rv32, List.mem_cons, List.not_mem_nil, Pattern.word.injEq, reduceCtorEq, or_false, false_or] at row
    rcases row with rfl | rfl | rfl | rfl <;> rfl

/-- A row that covers what an instruction is written as. -/
theorem row_encode (i : Instr) : ∃ pat ∈ rv32, pat.covers i.encode = true := by
  cases i with
  | lui rd imm =>
    obtain ⟨op, -⟩ := fields_uType OPC_LUI rd imm
    exact ⟨.opcode OPC_LUI, by simp [rv32], by simp [Pattern.covers, encode, op]⟩
  | auipc rd imm =>
    obtain ⟨op, -⟩ := fields_uType OPC_AUIPC rd imm
    exact ⟨.opcode OPC_AUIPC, by simp [rv32], by simp [Pattern.covers, encode, op]⟩
  | jal rd off =>
    obtain ⟨op, -⟩ := fields_jType OPC_JAL rd off
    exact ⟨.opcode OPC_JAL, by simp [rv32], by simp [Pattern.covers, encode, op]⟩
  | jalr rd rs1 imm =>
    obtain ⟨op, -, f3, -⟩ := fields_iType OPC_JALR rd rs1 0b000#3 imm
    exact ⟨.funct3 OPC_JALR 0b000#3, by simp [rv32], by simp [Pattern.covers, encode, op, f3]⟩
  | branch c rs1 rs2 off =>
    obtain ⟨op, f3, -⟩ := fields_bType OPC_BRANCH rs1 rs2 c.funct3 off
    exact ⟨.funct3 OPC_BRANCH c.funct3, by cases c <;> simp [rv32, Cond.funct3],
      by simp [Pattern.covers, encode, op, f3]⟩
  | load z rd rs1 imm =>
    obtain ⟨op, -, f3, -⟩ := fields_iType OPC_LOAD rd rs1 z.funct3 imm
    exact ⟨.funct3 OPC_LOAD z.funct3, by cases z <;> simp [rv32, Width.funct3],
      by simp [Pattern.covers, encode, op, f3]⟩
  | store z rs1 rs2 imm =>
    obtain ⟨op, f3, -⟩ := fields_sType OPC_STORE rs1 rs2 z.funct3 imm
    exact ⟨.funct3 OPC_STORE z.funct3, by cases z <;> simp [rv32, MemSize.funct3],
      by simp [Pattern.covers, encode, op, f3]⟩
  | immediate f rd rs1 imm =>
    obtain ⟨op, -, f3, -⟩ := fields_iType OPC_OP_IMM rd rs1 f.funct3 imm
    exact ⟨.funct3 OPC_OP_IMM f.funct3, by cases f <;> simp [rv32, ImmFn.funct3],
      by simp [Pattern.covers, encode, op, f3]⟩
  | shift f rd rs1 shamt =>
    obtain ⟨op, -, f3, -, -, f7⟩ := fields_rType OPC_OP_IMM rd rs1 shamt f.codes.2 f.codes.1
    exact ⟨.funct7 OPC_OP_IMM f.codes.2 f.codes.1, by cases f <;> simp [rv32, ShiftFn.codes],
      by simp [Pattern.covers, encode, op, f3, f7]⟩
  | register f rd rs1 rs2 =>
    obtain ⟨op, -, f3, -, -, f7⟩ := fields_rType OPC_OP rd rs1 rs2 f.codes.2 f.codes.1
    exact ⟨.funct7 OPC_OP f.codes.2 f.codes.1, by cases f <;> simp [rv32, RegFn.codes],
      by simp [Pattern.covers, encode, op, f3, f7]⟩
  | indexed x rd rs1 rs2 =>
    obtain ⟨op, -, f3, -, -, f7⟩ := fields_rType OPC_AMO rd rs1 rs2 x.codes.2 x.codes.1
    exact ⟨.funct7 OPC_AMO x.codes.2 x.codes.1,
      by cases x <;> simp [rv32, Indexed.codes, Indexed.scaled, Indexed.width, Width.funct3],
      by simp [Pattern.covers, encode, op, f3, f7]⟩
  | fence rd rs1 ops =>
    obtain ⟨op, -, f3, -⟩ := fields_iType OPC_MISC_MEM rd rs1 0b000#3 ops
    exact ⟨.funct3 OPC_MISC_MEM 0b000#3, by simp [rv32], by simp [Pattern.covers, encode, op, f3]⟩
  | fenceI rd rs1 imm =>
    obtain ⟨op, -, f3, -⟩ := fields_iType OPC_MISC_MEM rd rs1 0b001#3 imm
    exact ⟨.funct3 OPC_MISC_MEM 0b001#3, by simp [rv32], by simp [Pattern.covers, encode, op, f3]⟩
  | csr f rd rs1 addr =>
    obtain ⟨op, -, f3, -⟩ := fields_iType OPC_SYSTEM rd rs1 f.funct3 addr
    exact ⟨.funct3 OPC_SYSTEM f.funct3, by cases f <;> simp [rv32, CsrFn.funct3],
      by simp [Pattern.covers, encode, op, f3]⟩
  | csrImm f rd zimm addr =>
    obtain ⟨op, -, f3, -⟩ := fields_iType OPC_SYSTEM rd zimm (0b100#3 ||| f.funct3) addr
    exact ⟨.funct3 OPC_SYSTEM (0b100#3 ||| f.funct3), by cases f <;> simp [rv32, CsrFn.funct3],
      by simp [Pattern.covers, encode, op, f3]⟩
  | ecall => exact ⟨.word 0x00000073, by simp [rv32], rfl⟩
  | ebreak => exact ⟨.word 0x00100073, by simp [rv32], rfl⟩
  | mret => exact ⟨.word 0x30200073, by simp [rv32], rfl⟩
  | wfi => exact ⟨.word 0x10500073, by simp [rv32], rfl⟩

/-- The words of the table are the ones that can be read. -/
theorem legal32_iff : legal32 w = true ↔ (ofWord w).isSome = true := by
  rw [legal32, List.any_eq_true]
  constructor
  · rintro ⟨pat, row, covers⟩
    exact ofWord_row pat row covers
  · intro read
    obtain ⟨i, hi⟩ := Option.isSome_iff_exists.mp read
    rw [← encode_ofWord hi]
    exact row_encode i

end Instr

end YarvUc
