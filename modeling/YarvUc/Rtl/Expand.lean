import YarvUc.Rtl.Pkg

/-!
# `c_expand`: 16-bit RVC to its 32-bit RV32I equivalent

The instruction builders `mk_*` and `decode_stage`'s `c_expand`, one definition per
quadrant. The zero word is the convention for an illegal compressed encoding: its
opcode `0000000` matches no major opcode of the uniform decoder.
-/

namespace YarvUc

/-! ## 32-bit instruction builders -/

def mkR (op : BitVec 7) (rd rs1 rs2 : BitVec 5) (f3 : BitVec 3) (f7 : BitVec 7) : Word :=
  f7 ++ rs2 ++ rs1 ++ f3 ++ rd ++ op

def mkI (op : BitVec 7) (rd rs1 : BitVec 5) (f3 : BitVec 3) (off : Word) : Word :=
  off.extractLsb 11 0 ++ rs1 ++ f3 ++ rd ++ op

def mkS (op : BitVec 7) (rs1 rs2 : BitVec 5) (f3 : BitVec 3) (off : Word) : Word :=
  off.extractLsb 11 5 ++ rs2 ++ rs1 ++ f3 ++ off.extractLsb 4 0 ++ op

/-- `off[0]` must be 0. -/
def mkB (op : BitVec 7) (rs1 rs2 : BitVec 5) (f3 : BitVec 3) (off : Word) : Word :=
  off.extractLsb 12 12 ++ off.extractLsb 10 5 ++ rs2 ++ rs1 ++ f3 ++ off.extractLsb 4 1 ++
    off.extractLsb 11 11 ++ op

def mkU (op : BitVec 7) (rd : BitVec 5) (off : Word) : Word :=
  off.extractLsb 31 12 ++ rd ++ op

/-- `off[0]` must be 0. -/
def mkJ (op : BitVec 7) (rd : BitVec 5) (off : Word) : Word :=
  off.extractLsb 20 20 ++ off.extractLsb 10 1 ++ off.extractLsb 11 11 ++ off.extractLsb 19 12 ++ rd ++ op

/-! ## Fields of a compressed halfword -/

abbrev cF3 (c : BitVec 16) : BitVec 3 := c.extractLsb 15 13
abbrev cRd5 (c : BitVec 16) : BitVec 5 := c.extractLsb 11 7
abbrev cRs2 (c : BitVec 16) : BitVec 5 := c.extractLsb 6 2
/-- `crd` and `crs2`: `{2'b01, c[4:2]}`. -/
abbrev cRdP (c : BitVec 16) : BitVec 5 := 0b01#2 ++ c.extractLsb 4 2
/-- `crs1`: `{2'b01, c[9:7]}`. -/
abbrev cRs1P (c : BitVec 16) : BitVec 5 := 0b01#2 ++ c.extractLsb 9 7
/-- `imm6`: `{c[12], c[6:2]}`. -/
abbrev cImm6 (c : BitVec 16) : BitVec 6 := c.extractLsb 12 12 ++ c.extractLsb 6 2
/-- `nz` of `c.addi4spn`. -/
abbrev cNzSpn (c : BitVec 16) : BitVec 10 :=
  c.extractLsb 10 7 ++ c.extractLsb 12 11 ++ c.extractLsb 5 5 ++ c.extractLsb 6 6 ++ 0b00#2
/-- `nz` of `c.addi16sp`. -/
abbrev cNz16 (c : BitVec 16) : BitVec 10 :=
  c.extractLsb 12 12 ++ c.extractLsb 4 3 ++ c.extractLsb 5 5 ++ c.extractLsb 2 2 ++ c.extractLsb 6 6 ++ 0b0000#4
/-- `lwoff` / `swoff`. -/
abbrev cLwOff (c : BitVec 16) : BitVec 7 :=
  c.extractLsb 5 5 ++ c.extractLsb 12 10 ++ c.extractLsb 6 6 ++ 0b00#2
/-- `joff` of `c.j` / `c.jal`. -/
abbrev cJOff (c : BitVec 16) : BitVec 12 :=
  c.extractLsb 12 12 ++ c.extractLsb 8 8 ++ c.extractLsb 10 10 ++ c.extractLsb 9 9 ++ c.extractLsb 6 6 ++
    c.extractLsb 7 7 ++ c.extractLsb 2 2 ++ c.extractLsb 11 11 ++ c.extractLsb 5 5 ++ c.extractLsb 4 4 ++
    c.extractLsb 3 3 ++ 0b0#1
/-- `boff` of `c.beqz` / `c.bnez`. -/
abbrev cBOff (c : BitVec 16) : BitVec 9 :=
  c.extractLsb 12 12 ++ c.extractLsb 6 5 ++ c.extractLsb 2 2 ++ c.extractLsb 11 10 ++ c.extractLsb 4 3 ++ 0b0#1
/-- `uimm` of `c.lwsp`. -/
abbrev cLwspOff (c : BitVec 16) : BitVec 8 :=
  c.extractLsb 3 2 ++ c.extractLsb 12 12 ++ c.extractLsb 6 4 ++ 0b00#2
/-- `uimm` of `c.swsp`. -/
abbrev cSwspOff (c : BitVec 16) : BitVec 8 :=
  c.extractLsb 8 7 ++ c.extractLsb 12 9 ++ 0b00#2

/-! ## The three quadrants -/

/-- Quadrant 0 (`c[1:0] = 00`). -/
def cQuad0 (c : BitVec 16) : Word :=
  if cF3 c = 0b000#3 then
    -- c.addi4spn
    if cNzSpn c ≠ 0 then mkI OPC_OP_IMM (cRdP c) 2 0b000#3 ((cNzSpn c).setWidth 32) else 0
  else if cF3 c = 0b010#3 then
    mkI OPC_LOAD (cRdP c) (cRs1P c) 0b010#3 ((cLwOff c).setWidth 32)
  else if cF3 c = 0b110#3 then
    mkS OPC_STORE (cRs1P c) (cRdP c) 0b010#3 ((cLwOff c).setWidth 32)
  else 0

/-- `funct3 = 100` of quadrant 1: `c.srli` / `c.srai` / `c.andi` and the CA group. -/
def cQuad1Misc (c : BitVec 16) : Word :=
  if c.extractLsb 11 10 = 0b00#2 then
    mkI OPC_OP_IMM (cRs1P c) (cRs1P c) 0b101#3 ((c.extractLsb 6 2).setWidth 32)
  else if c.extractLsb 11 10 = 0b01#2 then
    mkI OPC_OP_IMM (cRs1P c) (cRs1P c) 0b101#3 (0#20 ++ 0b0100000#7 ++ c.extractLsb 6 2)
  else if c.extractLsb 11 10 = 0b10#2 then
    mkI OPC_OP_IMM (cRs1P c) (cRs1P c) 0b111#3 ((cImm6 c).signExtend 32)
  else if c.extractLsb 6 5 = 0b00#2 then mkR OPC_OP (cRs1P c) (cRs1P c) (cRdP c) 0b000#3 0b0100000#7
  else if c.extractLsb 6 5 = 0b01#2 then mkR OPC_OP (cRs1P c) (cRs1P c) (cRdP c) 0b100#3 0b0000000#7
  else if c.extractLsb 6 5 = 0b10#2 then mkR OPC_OP (cRs1P c) (cRs1P c) (cRdP c) 0b110#3 0b0000000#7
  else mkR OPC_OP (cRs1P c) (cRs1P c) (cRdP c) 0b111#3 0b0000000#7

/-- Quadrant 1 (`c[1:0] = 01`). -/
def cQuad1 (c : BitVec 16) : Word :=
  if cF3 c = 0b000#3 then
    -- c.nop / c.addi; `rd = 0` with a non-zero immediate is refused
    if cRd5 c = 0 ∧ cImm6 c = 0 then mkI OPC_OP_IMM 0 0 0b000#3 0
    else if cRd5 c ≠ 0 then mkI OPC_OP_IMM (cRd5 c) (cRd5 c) 0b000#3 ((cImm6 c).signExtend 32)
    else 0
  else if cF3 c = 0b001#3 then mkJ OPC_JAL 1 ((cJOff c).signExtend 32)
  else if cF3 c = 0b010#3 then
    if cRd5 c ≠ 0 then mkI OPC_OP_IMM (cRd5 c) 0 0b000#3 ((cImm6 c).signExtend 32) else 0
  else if cF3 c = 0b011#3 then
    if cRd5 c = 2 then
      -- c.addi16sp
      if cNz16 c ≠ 0 then mkI OPC_OP_IMM 2 2 0b000#3 ((cNz16 c).signExtend 32) else 0
    else if cRd5 c ≠ 0 ∧ cImm6 c ≠ 0 then mkU OPC_LUI (cRd5 c) ((cImm6 c ++ 0#12).signExtend 32)
    else 0
  else if cF3 c = 0b100#3 then cQuad1Misc c
  else if cF3 c = 0b101#3 then mkJ OPC_JAL 0 ((cJOff c).signExtend 32)
  else if cF3 c = 0b110#3 then mkB OPC_BRANCH (cRs1P c) 0 0b000#3 ((cBOff c).signExtend 32)
  else mkB OPC_BRANCH (cRs1P c) 0 0b001#3 ((cBOff c).signExtend 32)

/-- Quadrant 2 (`c[1:0] = 10`). -/
def cQuad2 (c : BitVec 16) : Word :=
  if cF3 c = 0b000#3 then
    -- c.slli: `c[12]` is not looked at
    if cRd5 c ≠ 0 then mkI OPC_OP_IMM (cRd5 c) (cRd5 c) 0b001#3 ((c.extractLsb 6 2).setWidth 32) else 0
  else if cF3 c = 0b010#3 then
    if cRd5 c ≠ 0 then mkI OPC_LOAD (cRd5 c) 2 0b010#3 ((cLwspOff c).setWidth 32) else 0
  else if cF3 c = 0b100#3 then
    if cRd5 c = 0 ∧ cRs2 c = 0 then
      -- c.ebreak, whatever `c[12]` is
      mkI OPC_SYSTEM 0 0 0b000#3 1
    else if cRs2 c = 0 then
      mkI OPC_JALR (if c.getLsbD 12 then 1 else 0) (cRd5 c) 0b000#3 0
    else if cRd5 c ≠ 0 then
      if c.getLsbD 12 then mkR OPC_OP (cRd5 c) (cRd5 c) (cRs2 c) 0b000#3 0b0000000#7
      else mkR OPC_OP (cRd5 c) 0 (cRs2 c) 0b000#3 0b0000000#7
    else 0
  else if cF3 c = 0b110#3 then mkS OPC_STORE 2 (cRs2 c) 0b010#3 ((cSwspOff c).setWidth 32)
  else 0

/-- `c_expand`. -/
def cExpand (c : BitVec 16) : Word :=
  if c.extractLsb 1 0 = 0b00#2 then cQuad0 c
  else if c.extractLsb 1 0 = 0b01#2 then cQuad1 c
  else if c.extractLsb 1 0 = 0b10#2 then cQuad2 c
  else 0

end YarvUc
