import YarvUc.Sequential.Machine

/-!
# The C extension

The integer instructions of the extension in its own terms: `rvcOf` reads a halfword by the
extension's tables, each immediate by the places its bits have in the halfword, and
`Rvc.effect` says what the instruction does to the state a program sees. Nothing here is
taken from `c_expand` or the decoder.
-/

namespace YarvUc

/-! ## The instructions -/

/-- An RV32C integer instruction, its immediate extended to a word. -/
inductive Rvc where
  | addi4spn (rd : BitVec 5) (imm : Word)
  | lw (rd rs1 : BitVec 5) (imm : Word)
  | sw (rs1 rs2 : BitVec 5) (imm : Word)
  | nop
  | addi (rd : BitVec 5) (imm : Word)
  | jal (imm : Word)
  | li (rd : BitVec 5) (imm : Word)
  | addi16sp (imm : Word)
  | lui (rd : BitVec 5) (imm : Word)
  | srli (rd : BitVec 5) (shamt : ℕ)
  | srai (rd : BitVec 5) (shamt : ℕ)
  | andi (rd : BitVec 5) (imm : Word)
  | sub (rd rs2 : BitVec 5)
  | xor (rd rs2 : BitVec 5)
  | or (rd rs2 : BitVec 5)
  | and (rd rs2 : BitVec 5)
  | j (imm : Word)
  | beqz (rs1 : BitVec 5) (imm : Word)
  | bnez (rs1 : BitVec 5) (imm : Word)
  | slli (rd : BitVec 5) (shamt : ℕ)
  | lwsp (rd : BitVec 5) (imm : Word)
  | jr (rs1 : BitVec 5)
  | mv (rd rs2 : BitVec 5)
  | ebreak
  | jalr (rs1 : BitVec 5)
  | add (rd rs2 : BitVec 5)
  | swsp (rs2 : BitVec 5) (imm : Word)

/-- The bits of an immediate: from `top` down, the halfword's bits stand for the places listed. -/
def placed (n : ℕ) (c : BitVec 16) (top : ℕ) : List ℕ → BitVec n
  | [] => 0
  | place :: places =>
    (if c.getLsbD top then BitVec.twoPow n place else 0) ||| placed n c (top - 1) places

namespace Rvc

variable (c : BitVec 16)

/-- `rd'` / `rs1'` / `rs2'`: one of the registers x8 to x15. -/
def popular (bits : BitVec 3) : BitVec 5 := 8 + bits.setWidth 5

/-- CIW: `nzuimm[5:4|9:6|2|3]` in `c[12:5]`. -/
def immCIW : Word := (placed 10 c 12 [5, 4, 9, 8, 7, 6, 2, 3]).setWidth 32
/-- CL and CS: `uimm[5:3]` in `c[12:10]`, `uimm[2|6]` in `c[6:5]`. -/
def immCL : Word := (placed 7 c 12 [5, 4, 3] ||| placed 7 c 6 [2, 6]).setWidth 32
/-- CI: `imm[5]` in `c[12]`, `imm[4:0]` in `c[6:2]`. -/
def immCI : Word := (placed 6 c 12 [5] ||| placed 6 c 6 [4, 3, 2, 1, 0]).signExtend 32
/-- CI of `c.lui`: `nzimm[17]` in `c[12]`, `nzimm[16:12]` in `c[6:2]`. -/
def immLui : Word := (placed 18 c 12 [17] ||| placed 18 c 6 [16, 15, 14, 13, 12]).signExtend 32
/-- CI of `c.addi16sp`: `nzimm[9]` in `c[12]`, `nzimm[4|6|8:7|5]` in `c[6:2]`. -/
def imm16sp : Word := (placed 10 c 12 [9] ||| placed 10 c 6 [4, 6, 8, 7, 5]).signExtend 32
/-- CI of `c.lwsp`: `uimm[5]` in `c[12]`, `uimm[4:2|7:6]` in `c[6:2]`. -/
def immLwsp : Word := (placed 8 c 12 [5] ||| placed 8 c 6 [4, 3, 2, 7, 6]).setWidth 32
/-- CSS: `uimm[5:2|7:6]` in `c[12:7]`. -/
def immCSS : Word := (placed 8 c 12 [5, 4, 3, 2, 7, 6]).setWidth 32
/-- CB: `imm[8|4:3]` in `c[12:10]`, `imm[7:6|2:1|5]` in `c[6:2]`. -/
def immCB : Word := (placed 9 c 12 [8, 4, 3] ||| placed 9 c 6 [7, 6, 2, 1, 5]).signExtend 32
/-- CJ: `imm[11|4|9:8|10|6|7|3:1|5]` in `c[12:2]`. -/
def immCJ : Word := (placed 12 c 12 [11, 4, 9, 8, 10, 6, 7, 3, 2, 1, 5]).signExtend 32
/-- `shamt[4:0]` in `c[6:2]`. -/
def shamt : ℕ := (placed 5 c 6 [4, 3, 2, 1, 0]).toNat

end Rvc

open Rvc in
/-- The instruction a legal halfword encodes. -/
def rvcOf (c : BitVec 16) : Rvc :=
  let f3 := c.extractLsb 15 13
  let rd := c.extractLsb 11 7
  let rs2 := c.extractLsb 6 2
  let rs1' := popular (c.extractLsb 9 7)
  let rs2' := popular (c.extractLsb 4 2)
  if c.extractLsb 1 0 = 0b00#2 then
    if f3 = 0b000#3 then .addi4spn rs2' (immCIW c)
    else if f3 = 0b010#3 then .lw rs2' rs1' (immCL c)
    else .sw rs1' rs2' (immCL c)
  else if c.extractLsb 1 0 = 0b01#2 then
    if f3 = 0b000#3 then (if rd = 0 then .nop else .addi rd (immCI c))
    else if f3 = 0b001#3 then .jal (immCJ c)
    else if f3 = 0b010#3 then .li rd (immCI c)
    else if f3 = 0b011#3 then (if rd = 2 then .addi16sp (imm16sp c) else .lui rd (immLui c))
    else if f3 = 0b100#3 then
      if c.extractLsb 11 10 = 0b00#2 then .srli rs1' (shamt c)
      else if c.extractLsb 11 10 = 0b01#2 then .srai rs1' (shamt c)
      else if c.extractLsb 11 10 = 0b10#2 then .andi rs1' (immCI c)
      else if c.extractLsb 6 5 = 0b00#2 then .sub rs1' rs2'
      else if c.extractLsb 6 5 = 0b01#2 then .xor rs1' rs2'
      else if c.extractLsb 6 5 = 0b10#2 then .or rs1' rs2'
      else .and rs1' rs2'
    else if f3 = 0b101#3 then .j (immCJ c)
    else if f3 = 0b110#3 then .beqz rs1' (immCB c)
    else .bnez rs1' (immCB c)
  else
    if f3 = 0b000#3 then .slli rd (shamt c)
    else if f3 = 0b010#3 then .lwsp rd (immLwsp c)
    else if f3 = 0b100#3 then
      if c.getLsbD 12 = false then (if rs2 = 0 then .jr rd else .mv rd rs2)
      else if rd = 0 then .ebreak
      else if rs2 = 0 then .jalr rd
      else .add rd rs2
    else .swsp rs2 (immCSS c)

/-! ## Their effects -/

/-- `x[r]`. -/
abbrev Arch.x (s : Arch) (r : BitVec 5) : Word := s.rf.read r

namespace Rvc

section Effects

variable (m : DmemParams) (peri : PeriMem) (s : Arch)

/-- `rd` gets `v`, unless it is x0, and the next halfword is next. -/
def writes (rd : BitVec 5) (v : Word) : Effect :=
  .retire (s.pc + 2) (if rd = 0 then none else some (rd, v)) none none

/-- The word at an aligned address. -/
def wordAt (a : Word) : Word :=
  if a.getLsbD PERI_ADDR_BIT then peri a
  else s.mem.load m.addrW a 3 ++ s.mem.load m.addrW a 2 ++ s.mem.load m.addrW a 1 ++ s.mem.load m.addrW a 0

def loadsWord (rd : BitVec 5) (a : Word) : Effect :=
  if a.toNat % 4 = 0 then writes s rd (wordAt m peri s a) else .trap MCAUSE_LAD_MIS a

def storesWord (a v : Word) : Effect :=
  if a.toNat % 4 = 0 then .retire (s.pc + 2) none none (some ⟨a, .W, v⟩) else .trap MCAUSE_SAD_MIS a

/-- A transfer to `target`, with the link in `rd`, unless it is x0. -/
def goes (target : Word) (rd : BitVec 5) : Effect :=
  .retire target (if rd = 0 then none else some (rd, s.pc + 2)) none none

def effect : Rvc → Effect
  | addi4spn rd imm => writes s rd (s.x 2 + imm)
  | lw rd rs1 imm => loadsWord m peri s rd (s.x rs1 + imm)
  | sw rs1 rs2 imm => storesWord s (s.x rs1 + imm) (s.x rs2)
  | nop => .retire (s.pc + 2) none none none
  | addi rd imm => writes s rd (s.x rd + imm)
  | jal imm => goes s (s.pc + imm) 1
  | li rd imm => writes s rd imm
  | addi16sp imm => writes s 2 (s.x 2 + imm)
  | lui rd imm => writes s rd imm
  | srli rd n => writes s rd (s.x rd >>> n)
  | srai rd n => writes s rd ((s.x rd).sshiftRight n)
  | andi rd imm => writes s rd (s.x rd &&& imm)
  | sub rd rs2 => writes s rd (s.x rd - s.x rs2)
  | xor rd rs2 => writes s rd (s.x rd ^^^ s.x rs2)
  | or rd rs2 => writes s rd (s.x rd ||| s.x rs2)
  | and rd rs2 => writes s rd (s.x rd &&& s.x rs2)
  | j imm => goes s (s.pc + imm) 0
  | beqz rs1 imm => goes s (if s.x rs1 = 0 then s.pc + imm else s.pc + 2) 0
  | bnez rs1 imm => goes s (if s.x rs1 = 0 then s.pc + 2 else s.pc + imm) 0
  | slli rd n => writes s rd (s.x rd <<< n)
  | lwsp rd imm => loadsWord m peri s rd (s.x 2 + imm)
  | jr rs1 => goes s (s.x rs1 &&& ~~~1) 0
  | mv rd rs2 => writes s rd (s.x rs2)
  | ebreak => .trap MCAUSE_BREAKPOINT 0
  | jalr rs1 => goes s (s.x rs1 &&& ~~~1) 1
  | add rd rs2 => writes s rd (s.x rd + s.x rs2)
  | swsp rs2 imm => storesWord s (s.x 2 + imm) (s.x rs2)

end Effects

end Rvc

end YarvUc
