import YarvUc.Execute.Word
import YarvUc.Isa.Meaning
import YarvUc.Sequential.Retire

/-!
# The sequential machine is the instruction set's

Fetched words and halfwords have the meaning of the instructions they encode, so the sequential
machine is `Isa.step`, and shows what `Isa.event` does, wherever no slip and no hint stands at
the PC.
-/

namespace YarvUc

/-! ## Refused halfwords -/

theorem refuses_quad0 (c : BitVec 16) : (decodeUniform (cQuad0 c)).decIllegal = false ∨ cQuad0 c = 0#32 := by
  unfold cQuad0
  split_ifs <;> simp

theorem refuses_quad1 (c : BitVec 16) : (decodeUniform (cQuad1 c)).decIllegal = false ∨ cQuad1 c = 0#32 := by
  have misc := accepted_misc c
  unfold cQuad1
  split_ifs <;> simp [misc]

theorem refuses_quad2 (c : BitVec 16) : (decodeUniform (cQuad2 c)).decIllegal = false ∨ cQuad2 c = 0#32 := by
  have add : ∀ rs1, (decodeUniform (mkR OPC_OP (cRd5 c) rs1 (cRs2 c) 0b000#3 0b0000000#7)).decIllegal = false :=
    fun rs1 => accepted_mkR (by simp [rv32]) _ _ _
  unfold cQuad2
  split_ifs <;> simp [add]

/-- `c_expand` refuses a halfword by the zero word only. -/
theorem expand_refused {c : BitVec 16} (refused : (decodeUniform (cExpand c)).decIllegal = true) : cExpand c = 0#32 := by
  have cases : (decodeUniform (cExpand c)).decIllegal = false ∨ cExpand c = 0#32 := by
    rw [cExpand]
    split_ifs
    · exact refuses_quad0 c
    · exact refuses_quad1 c
    · exact refuses_quad2 c
    · exact .inr rfl
  rcases cases with ok | zero
  · rw [ok] at refused
    cases refused
  · exact zero

/-! ## The meaning of what was fetched -/

section Meaning

variable {p : Params} {m : DmemParams} {peri : PeriMem} {s : Arch}

/-- A refused word traps with itself. -/
theorem effect_illegal {w : Word} {c : Bool} (refused : (decodeUniform w).decIllegal = true) :
    (decodeWord s.rf.read s.pc w c).effect p m peri s = .trap MCAUSE_ILLEGAL w := by
  have exc : (decodeWord s.rf.read s.pc w c).exception = true := by simp [decodeWord, refused]
  rw [DeT.effect_trap (DeT.fault_exc exc)]
  simp [decodeWord, refused]

theorem effect_word {w : Word} (plain : ¬ Slip32 w) : (decodeWord s.rf.read s.pc w false).effect p m peri s =
    (Instr.ofWord w).elim (.trap MCAUSE_ILLEGAL w) (·.effect m peri s) := by
  cases read : Instr.ofWord w with
  | some i =>
    rw [← Instr.encode_ofWord read]
    exact Instr.effect_decoded i
  | none =>
    refine effect_illegal ?_
    rw [← Bool.not_eq_false, (agrees w).accepts, Instr.legal32_iff, read]
    simpa using plain

theorem effect_half {c : BitVec 16} (nospan : c.extractLsb 1 0 ≠ 0b11#2) (hint : hint16 c = false) (plain : ¬ Slip16 c) :
    (decodeWord s.rf.read s.pc (cExpand c) true).effect p m peri s =
      if legal16 c then (rvcOf c).effect m peri s else .trap MCAUSE_ILLEGAL 0 := by
  cases legal : legal16 c with
  | true =>
    rw [if_pos rfl]
    rcases quadrant_cases (c.extractLsb 1 0) with q | q | q | q
    · exact expanded_quad0 q legal
    · exact expanded_quad1 q legal hint
    · exact expanded_quad2 q legal hint
    · exact absurd q nospan
  | false =>
    have refused : (decodeUniform (cExpand c)).decIllegal = true := by
      rw [← Bool.not_eq_false, (agrees16 hint).accepts, legal]
      simpa using plain
    rw [effect_illegal refused, expand_refused refused]
    rfl

/-- What the words mean. Every instruction is read back from the word it is written as, every
word an instruction is read from is the one it is written as, and, slips apart, what decode and
execute make of a word on a state is the effect of the instruction it is, or the
illegal-instruction trap when it is none. -/
theorem words_meaning (p : Params) (m : DmemParams) (peri : PeriMem) :
    (∀ i : Instr, Instr.ofWord i.encode = some i) ∧ (∀ w i, Instr.ofWord w = some i → i.encode = w) ∧
      ∀ (s : Arch) (w : Word), ¬ Slip32 w → (decodeWord s.rf.read s.pc w false).effect p m peri s =
        (Instr.ofWord w).elim (.trap MCAUSE_ILLEGAL w) (·.effect m peri s) :=
  ⟨Instr.ofWord_encode, fun _ _ read => Instr.encode_ofWord read, fun _ _ plain => effect_word plain⟩

/-- `mulhsu x3, x1, x2` of -1 and 2. -/
theorem words_meaning_mulhsu :
    let s : Arch := { pc := 0x100#32, rf := fun r => if r = 1#5 then -1 else 2, csr := .reset, mem := fun _ => 0 }
    (decodeWord s.rf.read s.pc 0x0220A1B3#32 false).effect .board .board (fun _ => 0) s =
      .retire 0x104#32 (some (3, -1)) none none :=
  ((words_meaning .board .board fun _ => 0).2.2 _ 0x0220A1B3#32 (by decide)).trans (by decide +kernel)

end Meaning

/-! ## Stores on the port -/

namespace DeT

variable {p : Params} {m : DmemParams} {peri : PeriMem} {s : Arch} {de : DeT}

theorem lanes_byte : ∀ n < 4, 0b0001#4 <<< n = BitVec.ofNat 4 ((2 ^ 1 - 1) * 2 ^ n) := by decide
theorem lanes_half : ∀ n < 4, 0b0011#4 <<< n = BitVec.ofNat 4 ((2 ^ 2 - 1) * 2 ^ n) := by decide

theorem storeAccess_eq (aligned : de.memMisalignedLive = false) :
    de.storeAccess = StoreOp.access ⟨de.lsuEa, de.memSize, de.rs2Data⟩ := by
  have offset := (aligned_iff _ _).mp aligned
  have wdata : de.storeWdata = de.rs2Data <<< (8 * (de.lsuEa.toNat % 4)) := by
    rw [storeWdata, BitVec.shiftLeft_eq', toNat_laneShift, offsetOf]
  have wstrb : de.storeWstrb = BitVec.ofNat 4 ((2 ^ de.memSize.bytes - 1) * 2 ^ (de.lsuEa.toNat % 4)) := by
    rw [storeWstrb]
    cases size : de.memSize with
    | B =>
      have shift : (de.lsuEa.extractLsb 1 0).toNat = de.lsuEa.toNat % 4 := by simp [BitVec.extractLsb_toNat]
      simp only [BitVec.shiftLeft_eq', shift]
      exact lanes_byte _ (Nat.mod_lt _ (by decide))
    | H =>
      simp only [size, MemSize.bytes] at offset
      have shift : (de.lsuEa.extractLsb 1 1 ++ 0b0#1).toNat = de.lsuEa.toNat % 4 := by
        simp only [BitVec.toNat_append, BitVec.extractLsb_toNat, BitVec.toNat_ofNat]
        simp [Nat.shiftLeft_eq, Nat.shiftRight_eq_div_pow]
        omega
      simp only [BitVec.shiftLeft_eq', shift]
      exact lanes_half _ (Nat.mod_lt _ (by decide))
    | W =>
      simp only [size, MemSize.bytes] at offset
      simp only [MemSize.bytes, offset]
      rfl
  rw [storeAccess, StoreOp.access, wdata, wstrb]
  rfl

/-- A store that retires is aligned. -/
theorem store_effect {next : Word} {gpr : Option (BitVec 5 × Word)} {csr : Option (BitVec 12 × Word)}
    {store : Option StoreOp} (does : de.effect p m peri s = .retire next gpr csr store) :
    (if store.isSome then some de.storeAccess else none) = store.map StoreOp.access := by
  cases fault : de.fault with
  | some t =>
    rw [effect_trap fault] at does
    cases does
  | none =>
    cases mret : de.isMretOp with
    | true =>
      rw [effect_mret fault mret] at does
      cases does
    | false =>
      rw [effect_retire fault mret] at does
      obtain ⟨-, -, -, rfl⟩ := Effect.retire.inj does
      cases write : de.memWrite with
      | false => rfl
      | true =>
        have mem : de.isMemOp = true := by rw [isMemOp, write, Bool.or_true]
        have aligned : de.memMisalignedLive = false := by
          rw [← Bool.not_eq_true]
          intro misaligned
          cases exc : de.exception with
          | true => rw [fault_exc exc] at fault; cases fault
          | false => rw [fault_misaligned exc mem misaligned] at fault; cases fault
        simp [storeAccess_eq aligned]

end DeT

/-! ## The machine -/

namespace Isa

variable {p : Params} {m : DmemParams} {image : ℕ → BitVec 64} {peri : PeriMem} {s : Arch}

theorem fetchAt_eq (w : ℕ) (image : ℕ → BitVec 64) (s : Arch) : fetchAt w image s.pc =
    if outsideImem w s.pc then .fault s.pc
    else if isWide w image s then
      if outsideImem w (s.pc + 2) then .fault (s.pc + 2) else .instr s.pc (wide w image s) false
    else .instr s.pc (cExpand (low w image s)) true := by
  have span : (halfAt w image s.pc).isSpan = isWide w image s := by
    rw [isWide, Half.isSpan, beq_eq_decide]
    rfl
  rw [fetchAt, span]
  rfl

theorem effect_eq (plain : Plain p.imemAddrW image s) :
    (s.word p image).effect p m peri s = effect p.imemAddrW m image peri s := by
  rw [Arch.word, fetchAt_eq, effect]
  cases inside : outsideImem p.imemAddrW s.pc with
  | true => exact DeT.effect_trap (DeT.fault_exc rfl)
  | false =>
    cases long : isWide p.imemAddrW image s with
    | true =>
      cases outsideImem p.imemAddrW (s.pc + 2) with
      | true => exact DeT.effect_trap (DeT.fault_exc rfl)
      | false => exact effect_word (plain.word inside long)
    | false =>
      obtain ⟨hint, slip⟩ := plain.half inside long
      exact effect_half (of_decide_eq_false long) hint slip

/-- What the CSR file and the trap unit make of an effect. -/
theorem csrs_eq (r : CsrRegs) (pc : Word) (e : Effect) : r.next (e.csrIn r pc) = csrs r pc e := by
  cases e with
  | retire next gpr csr store =>
    have off : ((Effect.retire next gpr csr store).csrIn r pc).trap.Off := ⟨rfl, rfl, rfl, rfl⟩
    cases csr with
    | none => exact CsrRegs.next_quiet off rfl
    | some write => exact CsrRegs.next_assign off rfl
  | mret => exact CsrRegs.next_leave (i := Effect.mret.csrIn r pc) rfl rfl rfl rfl
  | trap cause tval => exact CsrRegs.next_enter (i := (Effect.trap cause tval).csrIn r pc) rfl rfl rfl

theorem after_eq (m : DmemParams) (s : Arch) (e : Effect) : s.after m e = after m s e := by
  unfold Arch.after after
  rw [csrs_eq]
  congr 1
  cases e with
  | retire next gpr csr store => rfl
  | mret => rfl
  | trap cause tval => exact CsrRegs.mtvecBase_eq s.csr

theorem step_eq (plain : Plain p.imemAddrW image s) :
    s.step p m image peri = step p.imemAddrW m image peri s := by
  rw [Arch.step, step, effect_eq plain, after_eq]

/-- What does not trap was fetched. -/
theorem instr_eq {e : Effect} (does : (s.word p image).effect p m peri s = e) (runs : ∀ cause tval, e ≠ .trap cause tval) :
    (s.word p image).instr = shown p.imemAddrW image s := by
  subst does
  rw [Arch.word, fetchAt_eq] at runs ⊢
  rw [shown]
  cases outside : outsideImem p.imemAddrW s.pc with
  | true =>
    rw [outside] at runs
    exact absurd (DeT.effect_trap (DeT.fault_exc rfl)) (runs _ _)
  | false =>
    cases long : isWide p.imemAddrW image s with
    | true =>
      cases past : outsideImem p.imemAddrW (s.pc + 2) with
      | true =>
        rw [outside, long, past] at runs
        exact absurd (DeT.effect_trap (DeT.fault_exc rfl)) (runs _ _)
      | false => rfl
    | false => rfl

theorem event_eq (plain : Plain p.imemAddrW image s) :
    s.event p m image peri = event p.imemAddrW m image peri s := by
  have same : (s.word p image).effect p m peri s = effect p.imemAddrW m image peri s := effect_eq plain
  rw [Arch.event, event, ← same]
  cases does : (s.word p image).effect p m peri s with
  | retire next gpr csr store =>
    have shown := instr_eq does fun _ _ trap => by cases trap
    rw [← shown, Effect.event, DeT.store_effect does]
  | mret =>
    have shown := instr_eq does fun _ _ trap => by cases trap
    rw [← shown]
    rfl
  | trap cause tval => rfl

end Isa

end YarvUc
