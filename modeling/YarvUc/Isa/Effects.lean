import YarvUc.Isa.Csr
import YarvUc.Isa.Instr
import YarvUc.Sequential.Machine
import YarvUc.Sequential.Rvc

/-!
# What the 32-bit instructions do

`Instr.effect` says what an instruction does to the state a program sees, in terms of integers,
bytes and bits, and `Isa.step` takes the instruction at the PC out of the image and does it.
Nothing here is taken from the decoder, the ALU, the LSU, the CSR file or the trap unit.
-/

namespace YarvUc

/-- `x / 2 ^ 32` of an exact product. -/
def high (x : ℤ) : Word := BitVec.ofInt 32 (x / 2 ^ 32)

/-- Quotients are rounded to zero and a remainder has the dividend's sign; a zero divisor gives
ones and the dividend, and the one overflow wraps. -/
def RegFn.eval (f : RegFn) (a b : Word) : Word :=
  match f with
  | add => a + b
  | sub => a - b
  | sll => a <<< (b.toNat % 32)
  | slt => if a.toInt < b.toInt then 1 else 0
  | sltu => if a.toNat < b.toNat then 1 else 0
  | xor => a ^^^ b
  | srl => a >>> (b.toNat % 32)
  | sra => a.sshiftRight (b.toNat % 32)
  | or => a ||| b
  | and => a &&& b
  | mul => BitVec.ofInt 32 (a.toInt * b.toInt)
  | mulh => high (a.toInt * b.toInt)
  | mulhsu => high (a.toInt * b.toNat)
  | mulhu => high (a.toNat * b.toNat)
  | div => if b = 0 then -1 else BitVec.ofInt 32 (a.toInt.tdiv b.toInt)
  | divu => if b = 0 then -1 else BitVec.ofNat 32 (a.toNat / b.toNat)
  | rem => if b = 0 then a else BitVec.ofInt 32 (a.toInt.tmod b.toInt)
  | remu => if b = 0 then a else BitVec.ofNat 32 (a.toNat % b.toNat)

def ImmFn.fn : ImmFn → RegFn
  | add => .add
  | slt => .slt
  | sltu => .sltu
  | xor => .xor
  | or => .or
  | and => .and

def ShiftFn.fn : ShiftFn → RegFn
  | sll => .sll
  | srl => .srl
  | sra => .sra

def Cond.holds (c : Cond) (a b : Word) : Bool :=
  match c with
  | eq => a = b
  | ne => a ≠ b
  | lt => a.toInt < b.toInt
  | ge => b.toInt ≤ a.toInt
  | ltu => a.toNat < b.toNat
  | geu => b.toNat ≤ a.toNat

namespace Width

def bytes : Width → ℕ
  | byte | byteU => 1
  | half | halfU => 2
  | word => 4

/-- The bytes in little-endian order, extended. -/
def value (z : Width) (f : ℕ → BitVec 8) : Word :=
  match z with
  | byte => (f 0).signExtend 32
  | half => (f 1 ++ f 0).signExtend 32
  | word => f 3 ++ f 2 ++ f 1 ++ f 0
  | byteU => (f 0).setWidth 32
  | halfU => (f 1 ++ f 0).setWidth 32

end Width

/-- How far `lx` and `lxs` shift their index. -/
def Indexed.scale (x : Indexed) : ℕ := if x.scaled then x.width.bytes.log2 else 0

def CsrFn.new (f : CsrFn) (old src : Word) : Word :=
  match f with
  | rw => src
  | rs => old ||| src
  | rc => old &&& ~~~src

/-- A set or clear of no bits does not write. -/
def CsrFn.touches (f : CsrFn) (src : Word) : Bool :=
  match f with
  | rw => true
  | rs | rc => src ≠ 0

namespace Instr

section Effects

variable (m : DmemParams) (peri : PeriMem) (s : Arch)

/-- The next instruction, of whatever effect. -/
def link : Word := s.pc + 4

/-- `rd` gets `v`, unless it is x0. -/
def writes (rd : BitVec 5) (v : Word) : Effect := .retire (link s) (if rd = 0 then none else some (rd, v)) none none

/-- A transfer to `target`, with the link in `rd`, unless it is x0. -/
def goes (target : Word) (rd : BitVec 5) : Effect :=
  .retire target (if rd = 0 then none else some (rd, link s)) none none

/-- Byte `k` behind an address: the D-mem's, or of the word the peripheral port answers. -/
def byteAt (a : Word) (k : ℕ) : BitVec 8 :=
  if a.getLsbD PERI_ADDR_BIT then byteOf (peri a) ((a.toNat + k) % 4) else s.mem.load m.addrW a k

def loads (z : Width) (rd : BitVec 5) (a : Word) : Effect :=
  if a.toNat % z.bytes = 0 then writes s rd (z.value (byteAt m peri s a)) else .trap MCAUSE_LAD_MIS a

def stores (z : MemSize) (a v : Word) : Effect :=
  if a.toNat % z.bytes = 0 then .retire (link s) none none (some ⟨a, z, v⟩) else .trap MCAUSE_SAD_MIS a

/-- `rd` gets the CSR's old value, and the CSR the new one. -/
def accesses (f : CsrFn) (rd : BitVec 5) (addr : BitVec 12) (src : Word) : Effect :=
  .retire (link s) (if rd = 0 then none else some (rd, s.csr.contents addr))
    (if f.touches src then some (addr, f.new (s.csr.contents addr) src) else none) none

/-- Nothing but to go on. -/
def passes : Effect := .retire (link s) none none none

def effect : Instr → Effect
  | lui rd imm => writes s rd (imm ++ 0#12)
  | auipc rd imm => writes s rd (s.pc + (imm ++ 0#12))
  | jal rd off => goes s (s.pc + (off ++ 0#1).signExtend 32) rd
  | jalr rd rs1 imm => goes s ((s.x rs1 + imm.signExtend 32) &&& ~~~1) rd
  | branch c rs1 rs2 off =>
    goes s (if c.holds (s.x rs1) (s.x rs2) then s.pc + (off ++ 0#1).signExtend 32 else link s) 0
  | load z rd rs1 imm => loads m peri s z rd (s.x rs1 + imm.signExtend 32)
  | store z rs1 rs2 imm => stores s z (s.x rs1 + imm.signExtend 32) (s.x rs2)
  | immediate f rd rs1 imm => writes s rd (f.fn.eval (s.x rs1) (imm.signExtend 32))
  | shift f rd rs1 shamt => writes s rd (f.fn.eval (s.x rs1) (shamt.setWidth 32))
  | register f rd rs1 rs2 => writes s rd (f.eval (s.x rs1) (s.x rs2))
  | indexed x rd rs1 rs2 => loads m peri s x.width rd (s.x rs2 + s.x rs1 <<< x.scale)
  | fence .. | fenceI .. | wfi => passes s
  | csr f rd rs1 addr => accesses s f rd addr (s.x rs1)
  | csrImm f rd zimm addr => accesses s f rd addr (zimm.setWidth 32)
  | ecall => .trap MCAUSE_ECALL_M 0
  | ebreak => .trap MCAUSE_BREAKPOINT 0
  | mret => .mret

/-! ### Who else is needed -/

/-- No counter, and no odd `mepc`. -/
def csrAlone (f : CsrFn) (addr : BitVec 12) (src : Word) : Bool :=
  addr != CSR_ADDR_MCYCLE && addr != CSR_ADDR_MINSTRET &&
    !(addr == CSR_ADDR_MEPC && f.touches src && (f.new (s.csr.contents addr) src).getLsbD 0)

/-- The instruction needs no device and no clock. -/
def alone : Instr → Bool
  | load _ _ rs1 imm | store _ rs1 _ imm => !(s.x rs1 + imm.signExtend 32).getLsbD PERI_ADDR_BIT
  | indexed x _ rs1 rs2 => !(s.x rs2 + s.x rs1 <<< x.scale).getLsbD PERI_ADDR_BIT
  | csr f _ rs1 addr => csrAlone s f addr (s.x rs1)
  | csrImm f _ zimm addr => csrAlone s f addr (zimm.setWidth 32)
  | wfi => false
  | _ => true

end Effects

end Instr

/-! ## The machine -/

/-- A store on the port: the bytes in their lanes, with a strobe for each. -/
def StoreOp.access (st : StoreOp) : Access where
  peri := st.addr.getLsbD PERI_ADDR_BIT
  we := true
  addr := st.addr
  wdata := st.data <<< (8 * (st.addr.toNat % 4))
  wstrb := BitVec.ofNat 4 ((2 ^ st.size.bytes - 1) * 2 ^ (st.addr.toNat % 4))

namespace Isa

variable (w : ℕ) (m : DmemParams) (image : ℕ → BitVec 64) (peri : PeriMem) (s : Arch)

/-- The halfword at the PC. -/
def low : BitVec 16 := (halfAt w image s.pc).bits

/-- The word at the PC. -/
def wide : Word := (halfAt w image (s.pc + 2)).bits ++ low w image s

/-- The instruction at the PC is a word. -/
def isWide : Bool := (low w image s).extractLsb 1 0 = 0b11#2

/-- What the instruction at the PC does. What the I-mem does not have is an access fault, and
what encodes nothing is illegal, with its word if it has one. -/
def effect : Effect :=
  if outsideImem w s.pc then .trap MCAUSE_INSTR_ACC s.pc
  else if isWide w image s then
    if outsideImem w (s.pc + 2) then .trap MCAUSE_INSTR_ACC (s.pc + 2)
    else (Instr.ofWord (wide w image s)).elim (.trap MCAUSE_ILLEGAL (wide w image s)) (·.effect m peri s)
  else if legal16 (low w image s) then (rvcOf (low w image s)).effect m peri s
  else .trap MCAUSE_ILLEGAL 0

/-- The CSRs behind an effect of the instruction at `pc`, with the interrupt lines low. -/
def csrs (r : CsrRegs) (pc : Word) : Effect → CsrRegs
  | .retire _ _ write _ =>
    match write with
    | some (a, v) => (r.passed .low true).assign a v
    | none => r.passed .low true
  | .mret => (r.passed .low true).leave
  | .trap cause tval => (r.passed .low false).enter pc cause tval

/-- The state behind an effect: an `mret` goes on at `mepc`, a trap in the handler. -/
def after (e : Effect) : Arch where
  pc :=
    match e with
    | .retire next .. => next
    | .mret => s.csr.mepc
    | .trap .. => s.csr.handler
  rf :=
    match e.gpr with
    | some (rd, v) => Function.update s.rf rd v
    | none => s.rf
  csr := csrs s.csr s.pc e
  mem := s.mem.after m e.store

def step : Arch := after m s (effect w m image peri s)

/-- The word, or the expansion of the halfword. -/
def shown : Word := if isWide w image s then wide w image s else cExpand (low w image s)

def event : Event :=
  match effect w m image peri s with
  | .retire _ gpr csr store => .commit s.pc (shown w image s) gpr csr (store.map StoreOp.access)
  | .mret => .commit s.pc (shown w image s) none none none
  | .trap cause tval => .trap s.pc cause tval

/-- What the I-mem has at the PC is no slip and no hint. -/
structure Plain : Prop where
  word : outsideImem w s.pc = false → isWide w image s = true → ¬ Slip32 (wide w image s)
  half : outsideImem w s.pc = false → isWide w image s = false →
    hint16 (low w image s) = false ∧ ¬ Slip16 (low w image s)

/-- What stands at the PC lies in the I-mem, is no slip and no hint, and needs the CPU alone. -/
structure Tame : Prop where
  inside : outsideImem w s.pc = false
  past : isWide w image s = true → outsideImem w (s.pc + 2) = false
  word : isWide w image s = true → ¬ Slip32 (wide w image s)
  half : isWide w image s = false → hint16 (low w image s) = false ∧ ¬ Slip16 (low w image s)
  alone : (Instr.ofWord (shown w image s)).all (·.alone s) = true

theorem Tame.plain {w : ℕ} {image : ℕ → BitVec 64} {s : Arch} (tame : Tame w image s) : Plain w image s :=
  ⟨fun _ => tame.word, fun _ => tame.half⟩

end Isa

instance (w : Word) : Decidable (Slip32 w) := decidable_of_iff _ ⟨Slip32.mk, Slip32.slip⟩

instance (c : BitVec 16) : Decidable (Slip16 c) := decidable_of_iff _ ⟨Slip16.mk, Slip16.slip⟩

instance (w : ℕ) (image : ℕ → BitVec 64) (s : Arch) : Decidable (Isa.Tame w image s) :=
  decidable_of_iff
    (outsideImem w s.pc = false ∧ (Isa.isWide w image s = true → outsideImem w (s.pc + 2) = false) ∧
      (Isa.isWide w image s = true → ¬ Slip32 (Isa.wide w image s)) ∧
      (Isa.isWide w image s = false → hint16 (Isa.low w image s) = false ∧ ¬ Slip16 (Isa.low w image s)) ∧
      (Instr.ofWord (Isa.shown w image s)).all (·.alone s) = true)
    ⟨fun ⟨inside, past, word, half, alone⟩ => ⟨inside, past, word, half, alone⟩,
      fun h => ⟨h.inside, h.past, h.word, h.half, h.alone⟩⟩

end YarvUc
