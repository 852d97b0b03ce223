import YarvUc.Clocked.Leads
import YarvUc.Isa.Pipeline

/-!
# Programs in the I-mem

`Text` says that a list of instructions stands in the I-mem, a word each, and `Text.does` what
the machine does at one of them. `Arch.Is` is the part of the state such a program speaks of, and
the rules take it from one instruction to the next.
-/

namespace YarvUc

/-- Word `k` behind an address. -/
def slot (a : Word) (k : ℕ) : Word := a + BitVec.ofNat 32 (4 * k)

theorem slot_zero (a : Word) : slot a 0 = a := BitVec.add_zero a

theorem slot_next (a : Word) (k : ℕ) : slot a k + 4 = slot a (k + 1) := by
  rw [slot, slot, BitVec.add_assoc, Nat.mul_succ]
  congr 1
  apply BitVec.eq_of_toNat_eq
  simp

theorem slot_jump {off : Word} {j k : ℕ} (jumps : BitVec.ofNat 32 (4 * j) + off = BitVec.ofNat 32 (4 * k)) (a : Word) :
    slot a j + off = slot a k := by
  rw [slot, slot, BitVec.add_assoc, jumps]

/-- The word of the I-mem at an even address. -/
def wordAt (w : ℕ) (image : ℕ → BitVec 64) (a : Word) : Word := (halfAt w image (a + 2)).bits ++ (halfAt w image a).bits

/-- The instructions stand in the I-mem from `a`. -/
structure Text (w : ℕ) (image : ℕ → BitVec 64) (a : Word) (code : List Instr) : Prop where
  word : ∀ (k : ℕ) (h : k < code.length), wordAt w image (slot a k) = code[k].encode
  inside : ∀ k < code.length, outsideImem w (slot a k) = false ∧ outsideImem w (slot a k + 2) = false

/-- Every row of the table ends as a word does. -/
theorem rows_wide : ∀ pat ∈ rv32, pat.major.extractLsb 1 0 = 0b11#2 := by decide

theorem Instr.wide_encode (i : Instr) : i.encode.extractLsb 1 0 = 0b11#2 := by
  obtain ⟨pat, row, covers⟩ := i.row_encode
  have wide := rows_wide pat row
  rw [Pattern.major_eq covers] at wide
  rw [← wide]
  simp only [← BitVec.toNat_inj, BitVec.extractLsb_toNat, Nat.shiftRight_eq_div_pow]
  omega

theorem Instr.unslipped (i : Instr) : ¬ Slip32 i.encode := by
  intro slip
  have reserved := (agrees i.encode).reserved slip
  rw [← Bool.not_eq_true, Instr.legal32_iff, Instr.ofWord_encode] at reserved
  exact reserved rfl

section Takes

variable {w : ℕ} {m : DmemParams} {image : ℕ → BitVec 64} {peri : PeriMem} {a : Word} {code : List Instr} {s : Arch}
  {k : ℕ} {i : Instr}

theorem Text.isWide (text : Text w image a code) (get : code[k]? = some i) (pc : s.pc = slot a k) :
    Isa.isWide w image s = true ∧ Isa.wide w image s = i.encode := by
  obtain ⟨h, rfl⟩ := List.getElem?_eq_some_iff.mp get
  have word := text.word k h
  rw [← pc] at word
  refine ⟨?_, word⟩
  have low : (Isa.low w image s).extractLsb 1 0 = 0b11#2 := by
    rw [← code[k].wide_encode, ← word, Isa.low, wordAt]
    simp only [← BitVec.toNat_inj, BitVec.extractLsb_toNat, BitVec.toNat_append_eq, Nat.shiftRight_eq_div_pow]
    omega
  exact decide_eq_true low

theorem Text.shown (text : Text w image a code) (get : code[k]? = some i) (pc : s.pc = slot a k) :
    Isa.shown w image s = i.encode := by
  obtain ⟨wide, word⟩ := text.isWide get pc
  rw [Isa.shown, wide, if_pos rfl, word]

theorem Text.at_pc (text : Text w image a code) (get : code[k]? = some i) (pc : s.pc = slot a k) :
    outsideImem w s.pc = false ∧ outsideImem w (s.pc + 2) = false := by
  rw [pc]
  exact text.inside k (List.getElem?_eq_some_iff.mp get).1

theorem Text.tame (text : Text w image a code) (get : code[k]? = some i) (pc : s.pc = slot a k)
    (alone : i.alone s = true) : Isa.Tame w image s := by
  obtain ⟨wide, word⟩ := text.isWide get pc
  obtain ⟨inside, past⟩ := text.at_pc get pc
  refine ⟨inside, fun _ => past, fun _ => ?_, fun short => ?_, ?_⟩
  · rw [word]
    exact i.unslipped
  · rw [wide] at short
    cases short
  · rw [text.shown get pc, Instr.ofWord_encode]
    exact alone

/-- At an instruction of the text the machine does what it says. -/
theorem Text.does (text : Text w image a code) (get : code[k]? = some i) (pc : s.pc = slot a k) :
    Isa.effect w m image peri s = i.effect m peri s := by
  obtain ⟨wide, word⟩ := text.isWide get pc
  obtain ⟨inside, past⟩ := text.at_pc get pc
  rw [Isa.effect, inside, wide, past, word, Instr.ofWord_encode]
  rfl

theorem Text.leads {n : ℕ} {Q : Arch → Prop} (text : Text w image a code) (get : code[k]? = some i)
    (pc : s.pc = slot a k) (alone : i.alone s = true)
    (rest : Clocked.Leads (Isa.step w m image peri) (Isa.Tame w image) n (Isa.after m s (i.effect m peri s)) Q) :
    Clocked.Leads (Isa.step w m image peri) (Isa.Tame w image) (n + 1) s Q := by
  have does : Isa.effect w m image peri s = i.effect m peri s := text.does get pc
  refine .cons (text.tame get pc alone) ?_
  rwa [Isa.step, does]

end Takes

/-! ## The state a program speaks of -/

structure Arch.Is (s : Arch) (pc : Word) (rf : RegFile) (mem : ByteMem) : Prop where
  pc : s.pc = pc
  rf : s.rf = rf
  mem : s.mem = mem

namespace Arch.Is

variable {m : DmemParams} {s : Arch} {pc v : Word} {rf : RegFile} {mem : ByteMem} {rd : BitVec 5}

theorem writes (is : s.Is pc rf mem) (nonzero : rd ≠ 0) :
    (Isa.after m s (Instr.writes s rd v)).Is (pc + 4) (Function.update rf rd v) mem := by
  rw [Instr.writes, if_neg nonzero, Instr.link, is.pc]
  exact ⟨rfl, by rw [← is.rf]; rfl, is.mem⟩

theorem goes (is : s.Is pc rf mem) (target : Word) : (Isa.after m s (Instr.goes s target 0)).Is target rf mem :=
  ⟨rfl, is.rf, is.mem⟩

theorem calls (is : s.Is pc rf mem) (nonzero : rd ≠ 0) (target : Word) :
    (Isa.after m s (Instr.goes s target rd)).Is target (Function.update rf rd (pc + 4)) mem := by
  rw [Instr.goes, if_neg nonzero, Instr.link, is.pc]
  exact ⟨rfl, by rw [← is.rf]; rfl, is.mem⟩

theorem stores (is : s.Is pc rf mem) {z : MemSize} {ea : Word} (aligned : ea.toNat % z.bytes = 0)
    (dmem : ea.getLsbD PERI_ADDR_BIT = false) :
    (Isa.after m s (Instr.stores s z ea v)).Is (pc + 4) rf (mem.store m.addrW ea v z.bytes) := by
  rw [Instr.stores, if_pos aligned, Instr.link, is.pc]
  refine ⟨rfl, is.rf, ?_⟩
  rw [← is.mem]
  change s.mem.after m (some ⟨ea, z, v⟩) = _
  rw [ByteMem.after, dmem]
  rfl

/-! One rule for each kind of instruction. -/

variable {peri : PeriMem} {rs1 rs2 : BitVec 5}

theorem x (is : s.Is pc rf mem) (r : BitVec 5) : s.x r = rf.read r := by
  rw [← is.rf]

theorem lui (is : s.Is pc rf mem) (nonzero : rd ≠ 0) (imm : BitVec 20) :
    (Isa.after m s ((Instr.lui rd imm).effect m peri s)).Is (pc + 4) (Function.update rf rd (imm ++ 0#12)) mem :=
  is.writes nonzero

theorem immediate (is : s.Is pc rf mem) (nonzero : rd ≠ 0) (f : ImmFn) (imm : BitVec 12) :
    (Isa.after m s ((Instr.immediate f rd rs1 imm).effect m peri s)).Is (pc + 4)
      (Function.update rf rd (f.fn.eval (rf.read rs1) (imm.signExtend 32))) mem := by
  rw [← is.x rs1]
  exact is.writes nonzero

theorem falls (is : s.Is pc rf mem) {c : Cond} (off : BitVec 12) (fails : c.holds (rf.read rs1) (rf.read rs2) = false) :
    (Isa.after m s ((Instr.branch c rs1 rs2 off).effect m peri s)).Is (pc + 4) rf mem := by
  rw [← is.x rs1, ← is.x rs2] at fails
  rw [Instr.effect, fails, if_neg Bool.false_ne_true, Instr.link, is.pc]
  exact is.goes _

theorem taken (is : s.Is pc rf mem) {c : Cond} (off : BitVec 12) (holds : c.holds (rf.read rs1) (rf.read rs2) = true) :
    (Isa.after m s ((Instr.branch c rs1 rs2 off).effect m peri s)).Is (pc + (off ++ 0#1).signExtend 32) rf mem := by
  rw [← is.x rs1, ← is.x rs2] at holds
  rw [Instr.effect, holds, if_pos rfl, is.pc]
  exact is.goes _

theorem store (is : s.Is pc rf mem) (z : MemSize) (imm : BitVec 12) {ea : Word}
    (address : rf.read rs1 + imm.signExtend 32 = ea) (aligned : ea.toNat % z.bytes = 0)
    (dmem : ea.getLsbD PERI_ADDR_BIT = false) :
    (Isa.after m s ((Instr.store z rs1 rs2 imm).effect m peri s)).Is (pc + 4) rf
      (mem.store m.addrW ea (rf.read rs2) z.bytes) := by
  rw [← is.x rs1] at address
  rw [← is.x rs2, Instr.effect, address]
  exact is.stores aligned dmem

theorem jump (is : s.Is pc rf mem) (off : BitVec 20) :
    (Isa.after m s ((Instr.jal 0 off).effect m peri s)).Is (pc + (off ++ 0#1).signExtend 32) rf mem := by
  rw [← is.pc]
  exact is.goes _

theorem jal (is : s.Is pc rf mem) (nonzero : rd ≠ 0) (off : BitVec 20) :
    (Isa.after m s ((Instr.jal rd off).effect m peri s)).Is (pc + (off ++ 0#1).signExtend 32)
      (Function.update rf rd (pc + 4)) mem := by
  rw [Instr.effect, is.pc]
  exact is.calls nonzero _

end Arch.Is

/-! ## From one instruction to the next -/

section Rules

variable {w : ℕ} {m : DmemParams} {image : ℕ → BitVec 64} {peri : PeriMem} {a : Word} {code : List Instr} {s : Arch}
  {j k n : ℕ} {i : Instr} {Q : Arch → Prop} {rf rf' : RegFile} {mem mem' : ByteMem}

theorem Text.goes (text : Text w image a code) (get : code[k]? = some i) (is : s.Is (slot a k) rf mem)
    (alone : i.alone s = true) {target : Word} (after : (Isa.after m s (i.effect m peri s)).Is target rf' mem')
    (slots : target = slot a j)
    (rest : ∀ t : Arch, t.Is (slot a j) rf' mem' → Clocked.Leads (Isa.step w m image peri) (Isa.Tame w image) n t Q) :
    Clocked.Leads (Isa.step w m image peri) (Isa.Tame w image) (n + 1) s Q :=
  text.leads get is.pc alone (rest _ (slots ▸ after))

theorem Text.next (text : Text w image a code) (get : code[k]? = some i) (is : s.Is (slot a k) rf mem)
    (alone : i.alone s = true) (after : (Isa.after m s (i.effect m peri s)).Is (slot a k + 4) rf' mem')
    (rest : ∀ t : Arch, t.Is (slot a (k + 1)) rf' mem' →
      Clocked.Leads (Isa.step w m image peri) (Isa.Tame w image) n t Q) :
    Clocked.Leads (Isa.step w m image peri) (Isa.Tame w image) (n + 1) s Q :=
  text.goes get is alone after (slot_next a k) rest

/-- A store, aligned and to the D-mem. -/
theorem Text.stores {z : MemSize} {rs1 rs2 : BitVec 5} {imm : BitVec 12} {ea : Word} (text : Text w image a code)
    (get : code[k]? = some (.store z rs1 rs2 imm)) (is : s.Is (slot a k) rf mem)
    (address : rf.read rs1 + imm.signExtend 32 = ea) (aligned : ea.toNat % z.bytes = 0)
    (dmem : ea.getLsbD PERI_ADDR_BIT = false)
    (rest : ∀ t : Arch, t.Is (slot a (k + 1)) rf (mem.store m.addrW ea (rf.read rs2) z.bytes) →
      Clocked.Leads (Isa.step w m image peri) (Isa.Tame w image) n t Q) :
    Clocked.Leads (Isa.step w m image peri) (Isa.Tame w image) (n + 1) s Q := by
  refine text.next get is ?_ (is.store z imm address aligned dmem) rest
  rw [Instr.alone, is.x, address, dmem]
  rfl

end Rules

end YarvUc
