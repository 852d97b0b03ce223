import YarvUc.Isa.Text

/-!
# The startup code

`start.S` sets the stack pointer, zeroes `.bss` word by word, zeroes the arguments and calls
`main`. It is the first code on every program's way, so what it does is shown for the pipeline:
whatever the register file and the D-mem power up with, `main` is entered with them in order.
-/

namespace YarvUc

/-- `_start` of `start.S`, a word an instruction: `la` is a `lui` and an `addi`, `call` a `jal`. -/
def startCode (bssStart bssEnd : BitVec 20 × BitVec 12) (main : BitVec 20) : List Instr :=
  [.lui 2 4,
   .lui 5 bssStart.1,
   .immediate .add 5 5 bssStart.2,
   .lui 6 bssEnd.1,
   .immediate .add 6 6 bssEnd.2,
   -- 1:
   .branch .geu 5 6 8,
   .store .W 5 0 0,
   .immediate .add 5 5 4,
   .jal 0 (-6),
   -- 2:
   .immediate .add 10 0 0,
   .immediate .add 11 0 0,
   .jal 1 main,
   -- 1:
   .jal 0 0]

/-- What a `lui` and an `addi` form. -/
def la (parts : BitVec 20 × BitVec 12) : Word := parts.1 ++ 0#12 + parts.2.signExtend 32

/-- The words of `.bss`. -/
def bssWords (bssStart bssEnd : Word) : ℕ := (bssEnd.toNat - bssStart.toNat) / 4

/-- The first `k` words from `a` are zero. -/
def cleared (mem : ByteMem) (a : Word) (k : ℕ) : ByteMem := fun b =>
  if a.toNat ≤ b ∧ b < a.toNat + 4 * k then 0 else mem b

theorem cleared_zero (mem : ByteMem) (a : Word) : cleared mem a 0 = mem := by
  funext b
  rw [cleared, if_neg (by omega)]

theorem cleared_succ {w k : ℕ} (mem : ByteMem) {a ea : Word} (hw : 2 ≤ w) (aligned : a.toNat % 4 = 0)
    (here : ea.toNat = a.toNat + 4 * k) (fits : ea.toNat + 4 ≤ 2 ^ w) :
    (cleared mem a k).store w ea 0 4 = cleared mem a (k + 1) := by
  have offset : DeT.offsetOf ea = 0 := by
    rw [DeT.offsetOf]
    omega
  have whole : ea.toNat % 2 ^ w = ea.toNat := Nat.mod_eq_of_lt (by omega)
  funext b
  rw [store_apply _ _ hw (by omega), whole, offset, cleared, cleared]
  by_cases inside : a.toNat ≤ b ∧ b < a.toNat + 4 * (k + 1)
  · rw [if_pos inside]
    by_cases last : b / 4 = ea.toNat / 4
    · rw [if_pos (by omega)]
      simp [byteOf]
    · rw [if_neg (by omega), if_pos (by omega)]
  · rw [if_neg inside, if_neg (by omega), if_neg (by omega)]

/-! ## The run -/

section Run

variable {w : ℕ} {m : DmemParams} {image : ℕ → BitVec 64} {peri : PeriMem} {boot : Word}
  {bssStart bssEnd : BitVec 20 × BitVec 12} {main : BitVec 20} {s t : Arch} {rf : RegFile} {mem : ByteMem}

/-- The registers in the loop. -/
def looping (rf : RegFile) (t0 t1 : Word) : RegFile := fun r =>
  if r = 5 then t0 else if r = 6 then t1 else if r = 2 then 0x4000 else rf r

/-- Before the loop's test, with `k` words zero. -/
def Clearing (boot bssStart bssEnd : Word) (rf : RegFile) (mem : ByteMem) (k : ℕ) (t : Arch) : Prop :=
  t.Is (slot boot 5) (looping rf (bssStart + BitVec.ofNat 32 (4 * k)) bssEnd) (cleared mem bssStart k)

theorem start_prologue (text : Text w image boot (startCode bssStart bssEnd main)) (is : s.Is boot rf mem) :
    Clocked.Leads (Isa.step w m image peri) (Isa.Tame w image) 5 s
      (Clearing boot (la bssStart) (la bssEnd) rf mem 0) := by
  rw [← slot_zero boot] at is
  refine text.next rfl is rfl (is.lui (by decide) 4) fun _ is => ?_
  refine text.next rfl is rfl (is.lui (by decide) bssStart.1) fun _ is => ?_
  refine text.next rfl is rfl (is.immediate (by decide) .add bssStart.2) fun _ is => ?_
  refine text.next rfl is rfl (is.lui (by decide) bssEnd.1) fun _ is => ?_
  refine text.next rfl is rfl (is.immediate (by decide) .add bssEnd.2) fun _ is => ?_
  refine .here ⟨is.pc, is.rf.trans ?_, is.mem.trans (cleared_zero mem _).symm⟩
  funext r
  simp only [looping, Function.update_apply, RegFile.read, ImmFn.fn, RegFn.eval, la]
  by_cases t1 : r = 6#5
  · subst t1
    simp
  by_cases t0 : r = 5#5
  · subst t0
    simp
  simp [t0, t1]

theorem looping_t0 (rf : RegFile) (t0 t1 v : Word) : Function.update (looping rf t0 t1) 5 v = looping rf v t1 := by
  funext r
  by_cases h : r = 5#5 <;> simp [looping, h]

/-- A word of the loop. -/
theorem start_body (text : Text w image boot (startCode bssStart bssEnd main)) {k : ℕ} (lower : 2 ≤ m.addrW)
    (aligned : (la bssStart).toNat % 4 = 0) (more : (la bssStart).toNat + 4 * (k + 1) ≤ (la bssEnd).toNat)
    (fits : (la bssEnd).toNat ≤ 2 ^ m.addrW) (dmem : (la bssEnd).toNat ≤ 2 ^ PERI_ADDR_BIT)
    (is : Clearing boot (la bssStart) (la bssEnd) rf mem k s) :
    Clocked.Leads (Isa.step w m image peri) (Isa.Tame w image) 4 s
      (Clearing boot (la bssStart) (la bssEnd) rf mem (k + 1)) := by
  have ea : (la bssStart + BitVec.ofNat 32 (4 * k)).toNat = (la bssStart).toNat + 4 * k := by
    rw [BitVec.toNat_add, BitVec.toNat_ofNat]
    omega
  have less : Cond.geu.holds (la bssStart + BitVec.ofNat 32 (4 * k)) (la bssEnd) = false := by
    simp only [Cond.holds, decide_eq_false_iff_not]
    omega
  have address : la bssStart + BitVec.ofNat 32 (4 * k) + (0#12).signExtend 32 = la bssStart + BitVec.ofNat 32 (4 * k) :=
    BitVec.add_zero _
  have on : (la bssStart + BitVec.ofNat 32 (4 * k)).toNat % 4 = 0 := by omega
  have low : (la bssStart + BitVec.ofNat 32 (4 * k)).getLsbD PERI_ADDR_BIT = false := by
    rw [BitVec.getLsbD, Nat.testBit_lt_two_pow]
    omega
  have counts : la bssStart + BitVec.ofNat 32 (4 * k) + (4#12).signExtend 32 =
      la bssStart + BitVec.ofNat 32 (4 * (k + 1)) := by
    rw [BitVec.add_assoc]
    congr 1
    apply BitVec.eq_of_toNat_eq
    simp
    omega
  have store : (startCode bssStart bssEnd main)[6]? = some (.store .W 5 0 0) := rfl
  refine text.next rfl is rfl (is.falls 8 less) fun _ is => ?_
  refine text.stores store is address on low fun _ is => ?_
  refine text.next rfl is rfl (is.immediate (by decide) .add 4) fun _ is => ?_
  refine text.goes (j := 5) rfl is rfl (is.jump (-6)) (slot_jump (by decide) boot) fun _ is => ?_
  refine .here ⟨is.pc, is.rf.trans ?_, is.mem.trans ?_⟩
  · exact (looping_t0 rf _ _ _).trans (congrArg (looping rf · _) counts)
  · exact cleared_succ mem lower aligned ea (by rw [ea]; omega)

/-- From the loop's end into `main`. -/
theorem start_epilogue (text : Text w image boot (startCode bssStart bssEnd main)) {k : ℕ}
    (done : (la bssEnd).toNat ≤ (la bssStart + BitVec.ofNat 32 (4 * k)).toNat)
    (is : Clearing boot (la bssStart) (la bssEnd) rf mem k s) :
    Clocked.Leads (Isa.step w m image peri) (Isa.Tame w image) 3 s fun t =>
      t.Is (slot boot 11) (Function.update (Function.update (looping rf (la bssStart + BitVec.ofNat 32 (4 * k)) (la bssEnd))
        10 0) 11 0) (cleared mem (la bssStart) k) := by
  have stop : Cond.geu.holds (la bssStart + BitVec.ofNat 32 (4 * k)) (la bssEnd) = true := decide_eq_true done
  refine text.goes (j := 9) rfl is rfl (is.taken 8 stop) (slot_jump (by decide) boot) fun _ is => ?_
  refine text.next rfl is rfl (is.immediate (by decide) .add 0) fun _ is => ?_
  refine text.next rfl is rfl (is.immediate (by decide) .add 0) fun _ is => ?_
  exact .here is

/-- To the call of `main`. -/
theorem start_leads (text : Text w image boot (startCode bssStart bssEnd main)) (lower : 2 ≤ m.addrW)
    (aligned : (la bssStart).toNat % 4 = 0) (aligned' : (la bssEnd).toNat % 4 = 0)
    (fits : (la bssEnd).toNat ≤ 2 ^ m.addrW) (dmem : (la bssEnd).toNat ≤ 2 ^ PERI_ADDR_BIT) (is : s.Is boot rf mem) :
    Clocked.Leads (Isa.step w m image peri) (Isa.Tame w image) (4 * bssWords (la bssStart) (la bssEnd) + 8) s fun t =>
      ∃ t0, t.Is (slot boot 11) (Function.update (Function.update (looping rf t0 (la bssEnd)) 10 0) 11 0)
        (cleared mem (la bssStart) (bssWords (la bssStart) (la bssEnd))) := by
  have bound := (la bssEnd).isLt
  have loop : ∀ t : Arch, Clearing boot (la bssStart) (la bssEnd) rf mem 0 t →
      Clocked.Leads (Isa.step w m image peri) (Isa.Tame w image) (bssWords (la bssStart) (la bssEnd) * 4) t
        (Clearing boot (la bssStart) (la bssEnd) rf mem (bssWords (la bssStart) (la bssEnd))) := by
    intro t init
    refine .loop (fun k hk u is => start_body text lower aligned ?_ fits dmem is) init
    rw [bssWords] at hk
    omega
  have done : (la bssEnd).toNat ≤
      (la bssStart + BitVec.ofNat 32 (4 * bssWords (la bssStart) (la bssEnd))).toNat := by
    rw [BitVec.toNat_add, BitVec.toNat_ofNat, bssWords]
    omega
  have whole := ((start_prologue text is).trans loop).trans fun t is => start_epilogue text done is
  rw [show 4 * bssWords (la bssStart) (la bssEnd) + 8 = 5 + bssWords (la bssStart) (la bssEnd) * 4 + 3 by omega]
  exact whole.mono fun t is => ⟨_, is⟩

end Run

/-- What is seen of a call. -/
theorem Text.event_jal {w : ℕ} {m : DmemParams} {image : ℕ → BitVec 64} {peri : PeriMem} {a : Word} {code : List Instr}
    {k : ℕ} {rd : BitVec 5} {off : BitVec 20} {s : Arch} {rf : RegFile} {mem : ByteMem} (text : Text w image a code)
    (get : code[k]? = some (.jal rd off)) (is : s.Is (slot a k) rf mem) (nonzero : rd ≠ 0) :
    Isa.event w m image peri s =
      .commit (slot a k) (Instr.jal rd off).encode (some (rd, slot a (k + 1))) none none := by
  have does : Isa.effect w m image peri s = (Instr.jal rd off).effect m peri s := text.does get is.pc
  rw [Isa.event, does, text.shown get is.pc, Instr.effect, Instr.goes, if_neg nonzero, Instr.link, is.pc, slot_next]
  rfl

/-- `main` is entered: the stack at the top of the D-mem, no arguments, a way back, `.bss` zero
and all else as it was. -/
structure Cpu.Entered (boot bssStart bssEnd : Word) (s c : Cpu) : Prop where
  ra : c.rf 1 = slot boot 12
  sp : c.rf 2 = 0x4000
  argc : c.rf 10 = 0
  argv : c.rf 11 = 0
  others : ∀ r, r ∉ [1, 2, 5, 6, 10, 11] → c.rf r = s.rf r
  bss : bytesOf c.lsu.dmem.mem = cleared (bytesOf s.lsu.dmem.mem) bssStart (bssWords bssStart bssEnd)

namespace Cpu

/-- The startup code on the pipeline. Whatever the parameters, the register file, the D-mem and
the predictor are, and wherever `.bss` lies in the D-mem, the reset CPU calls `main` as its
`4 * bssWords + 9`-th instruction, with 43 cycles at most for each, and enters it in order. -/
theorem start_enters_main (p : Params) (m : DmemParams) (boot : Word) (even : boot.getLsbD 0 = false) (s : Cpu)
    (ins : ℕ → CpuIn) (bssStart bssEnd : BitVec 20 × BitVec 12) (main : BitVec 20)
    (low : ∀ n < 43 * (4 * bssWords (la bssStart) (la bssEnd) + 9), (ins n).Low)
    (text : Text p.imemAddrW s.fetch.ram.mem boot (startCode bssStart bssEnd main))
    (aligned : (la bssStart).toNat % 4 = 0) (aligned' : (la bssEnd).toNat % 4 = 0)
    (fits : (la bssEnd).toNat ≤ 2 ^ m.addrW) (dmem : (la bssEnd).toNat ≤ 2 ^ PERI_ADDR_BIT) :
    ∃ n < 43 * (4 * bssWords (la bssStart) (la bssEnd) + 10),
      (Clocked.log (next p m) (shows p m) (s.start boot) ins n).length = 4 * bssWords (la bssStart) (la bssEnd) + 9 ∧
        (Clocked.log (next p m) (shows p m) (s.start boot) ins n).getLast? =
          some (.commit (slot boot 11) (Instr.jal 1 main).encode (some (1, slot boot 12)) none none) ∧
        Entered boot (la bssStart) (la bssEnd) s (Clocked.run (next p m) (s.start boot) ins n) := by
  have is : (Arch.start boot s).Is boot s.rf (bytesOf s.lsu.dmem.mem) := ⟨rfl, rfl, rfl⟩
  have call : (startCode bssStart bssEnd main)[11]? = some (.jal 1 main) := rfl
  have nonzero : (1 : BitVec 5) ≠ 0 := by decide
  have leads : Clocked.Leads (Isa.step p.imemAddrW m s.fetch.ram.mem fun _ => 0) (Isa.Tame p.imemAddrW s.fetch.ram.mem)
      _ (Arch.start boot s) _ :=
    start_leads text (Nat.le_of_lt m.lower) aligned aligned' fits dmem is
  obtain ⟨t0, here⟩ := leads.holds
  have event : Isa.event p.imemAddrW m s.fetch.ram.mem (fun _ => 0) _ = _ := text.event_jal call here nonzero
  have into : Clocked.Leads (Isa.step p.imemAddrW m s.fetch.ram.mem fun _ => 0) (Isa.Tame p.imemAddrW s.fetch.ram.mem)
      (4 * bssWords (la bssStart) (la bssEnd) + 8 + 1) (Arch.start boot s) fun t =>
        ∃ t0, t.rf = Function.update (Function.update (Function.update (looping s.rf t0 (la bssEnd)) 10 0) 11 0) 1
          (slot boot 12) ∧
          t.mem = cleared (bytesOf s.lsu.dmem.mem) (la bssStart) (bssWords (la bssStart) (la bssEnd)) := by
    refine leads.trans fun t inside => ?_
    obtain ⟨t0, is⟩ := inside
    have calls : (Isa.after m t ((Instr.jal 1 main).effect m (fun _ => 0) t)).Is _ _ _ := is.jal nonzero main
    rw [slot_next] at calls
    exact text.leads call is.pc rfl (.here ⟨t0, calls.rf, calls.mem⟩)
  obtain ⟨n, soon, log, t, rel, t1, regs, bytes⟩ :=
    (follows_isa p m s.fetch.ram.mem fun _ => 0).leads (follows_start even s) low into
  refine ⟨n, soon, by rw [log, Clocked.length_eventsOf], ?_, ?_⟩
  · rw [log, Clocked.eventsOf_succ, List.getLast?_append, event]
    rfl
  have rf := rel.agrees.rf.trans regs
  refine ⟨?_, ?_, ?_, ?_, fun r other => ?_, rel.agrees.mem.trans bytes⟩
  all_goals rw [rf]
  · rfl
  · rfl
  · rfl
  · rfl
  · simp only [List.mem_cons, List.not_mem_nil, or_false, not_or] at other
    obtain ⟨ra, sp, t0, t1, a0, a1⟩ := other
    simp only [looping, Function.update_apply]
    rw [if_neg ra, if_neg a1, if_neg a0, if_neg t0, if_neg t1, if_neg sp]

/-- `start.S` with a `.bss` of the two words at 0x2000, and `main` behind it. -/
def twoWords : Cpu := ofWords ((startCode (2, 0) (2, 8) 4).map Instr.encode)

theorem start_enters_main_twoWords :
    ∃ n < 43 * 18,
      (Clocked.log (next .board .board) (shows .board .board) (twoWords.start 0) (msipFrom 999) n).length = 17 ∧
        (Clocked.log (next .board .board) (shows .board .board) (twoWords.start 0) (msipFrom 999) n).getLast? =
          some (.commit 44 (Instr.jal 1 4).encode (some (1, 48)) none none) ∧
        Entered 0 0x2000 0x2008 twoWords (Clocked.run (next .board .board) (twoWords.start 0) (msipFrom 999) n) :=
  start_enters_main .board .board 0 rfl twoWords (msipFrom 999) (2, 0) (2, 8) 4
    (fun _ soon => ⟨decide_eq_false (Nat.not_le.mpr (Nat.lt_of_lt_of_le soon (by decide))), rfl, rfl⟩)
    ⟨by decide +kernel, by decide +kernel⟩ (by decide) (by decide) (by decide) (by decide)

end Cpu

end YarvUc
