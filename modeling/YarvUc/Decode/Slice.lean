import YarvUc.Decode.Parse
import YarvUc.Decode.Class
import YarvUc.Clocked.Run

/-!
# `decode_stage` slices the halfword stream

Each unstalled cycle of the stage is one `Cut`: the nine sources of the selection
chain, its hold buffer's next state and its pops agree case by case. A stalled cycle
latches nothing and pops nothing; it may drop a held low half whose high half has
already turned out to be a fault.
-/

namespace YarvUc

/-- The instruction or fault a D/E word carries. -/
def DeT.fetched (de : DeT) : Fetched :=
  if de.exception && de.exceptionCause == MCAUSE_INSTR_ACC then .fault de.exceptionTval
  else .instr de.pc de.instr de.isCompressed

/-- The hold buffer's content. -/
def DecQ.held (q : DecQ) : Option Half :=
  if q.hold then some { pc := q.holdPc, bits := q.holdWord.extractLsb 15 0 } else none

/-- The entries on the head ports. -/
def FePort.head (fe : FePort) : Option Entry :=
  if fe.valid then some { instr := fe.instr, pc := fe.pc, fault := fe.fault } else none
def FePort.next (fe : FePort) : Option Entry :=
  if fe.nextValid then some { instr := fe.nextInstr, pc := fe.nextPc, fault := fe.nextFault } else none

/-! ## Bits of the ports -/

theorem isSpan_lo (pc instr : Word) (f : Bool) :
    (Entry.lo { instr := instr, pc := pc, fault := f }).isSpan = !(instr.extractLsb 1 0 != 0b11#2) := by
  have : (instr.extractLsb 15 0).extractLsb 1 0 = instr.extractLsb 1 0 := by
    apply BitVec.eq_of_toNat_eq
    simp only [BitVec.extractLsb_toNat, Nat.shiftRight_eq_div_pow]
    omega
  simp [Half.isSpan, Entry.lo, this, bne]

theorem isSpan_hi (pc instr : Word) (f : Bool) :
    (Entry.hi { instr := instr, pc := pc, fault := f }).isSpan = (instr.extractLsb 17 16 == 0b11#2) := by
  have : (instr.extractLsb 31 16).extractLsb 1 0 = instr.extractLsb 17 16 := by
    apply BitVec.eq_of_toNat_eq
    simp only [BitVec.extractLsb_toNat, Nat.shiftRight_eq_div_pow]
    omega
  simp [Half.isSpan, Entry.hi, this]

theorem joined_halves (w : Word) : w.extractLsb 31 16 ++ w.extractLsb 15 0 = w := by
  apply BitVec.eq_of_getLsbD_eq
  intro k hk
  rw [BitVec.getLsbD_append]
  simp only [BitVec.getLsbD_extractLsb]
  split
  · simp
    omega
  · have hlt : k - 16 < 16 := by omega
    simp [hlt, show 16 + (k - 16) = k by omega]

theorem isSpan_held (pc w : Word) :
    Half.isSpan { pc := pc, bits := w.extractLsb 15 0 } = (w.extractLsb 1 0 == 0b11#2) := by
  have : (w.extractLsb 15 0).extractLsb 1 0 = w.extractLsb 1 0 := by
    apply BitVec.eq_of_toNat_eq
    simp only [BitVec.extractLsb_toNat, Nat.shiftRight_eq_div_pow]
    omega
  simp [Half.isSpan, this]

theorem stash_bits (w : Word) : ((w.extractLsb 31 16).setWidth 32).extractLsb 15 0 = w.extractLsb 31 16 := by
  apply BitVec.eq_of_toNat_eq
  simp only [BitVec.extractLsb_toNat, Nat.shiftRight_eq_div_pow, BitVec.toNat_setWidth]
  omega

/-! ## One cycle -/

namespace DecCyc

variable {d : DecCyc}

theorem excCause_clean (clean : d.takeFault = false) : d.excCause ≠ MCAUSE_INSTR_ACC := by
  rw [DecCyc.excCause, clean, if_neg (by simp)]
  split
  · decide
  · exact (excCause_uniform d.src.instr32).1

/-- What the cycle latches, when it latches. -/
theorem fetched_deD (d : DecCyc) :
    d.deD.fetched =
      if d.takeFault then .fault d.fe.pc else .instr d.src.pc d.src.instr32 d.src.isCompressed := by
  cases hf : d.takeFault with
  | true => simp [DeT.fetched, DecCyc.deD, DecCyc.excReq, DecCyc.excCause, DecCyc.excTval, hf]
  | false =>
    have := excCause_clean hf
    simp [DeT.fetched, DecCyc.deD, this]

/-- The entries fetch's buffer loses at this edge. -/
def pops (d : DecCyc) : Nat := if d.fe.valid && !d.stallO then (if d.fePop2 then 2 else 1) else 0

def emitted (d : DecCyc) : List Fetched := if d.decodedValid then [d.deD.fetched] else []

theorem held_stash (w pc : Word) (pred : Bool) (ghr : Ghr) (de : DeT) :
    DecQ.held { stash w pc pred ghr with de := de } = some { pc := pc, bits := w.extractLsb 31 16 } := by
  simp only [DecQ.held, stash, stash_bits, if_true]

/-- The head entry, when there is one. -/
def headE (d : DecCyc) : Entry := { instr := d.fe.instr, pc := d.fe.pc, fault := d.fe.fault }
def nextE (d : DecCyc) : Entry := { instr := d.fe.nextInstr, pc := d.fe.nextPc, fault := d.fe.nextFault }

theorem head_eq (valid : d.fe.valid = true) : d.fe.head = some d.headE := by simp [FePort.head, valid, headE]
theorem next_eq (valid : d.fe.nextValid = true) : d.fe.next = some d.nextE := by simp [FePort.next, valid, nextE]

/-- The cycle is a cut of `n` entries; the hold buffer follows it unless a prediction redirects. -/
def Cuts (d : DecCyc) (held : Option Half) (head : Option Entry) (n : ℕ) : Prop :=
  ∃ held', Cut held head d.fe.next d.emitted held' n ∧ (d.predRedirectFire = false → d.next.held = held')

/-- The fault entry at the head, behind nothing or behind a low half. -/
theorem cut_fault (d : DecCyc) (running : d.stall = false) (kept : d.flush = false)
    (fault : d.takeFault = true) : d.Cuts d.q.held d.fe.head d.pops := by
  have hboth := fault
  simp only [DecCyc.takeFault, DecCyc.fetchFault, DecCyc.holdPlainPending, Bool.and_eq_true, Bool.not_eq_true',
    Bool.and_eq_false_iff] at hboth
  obtain ⟨⟨hv, hf⟩, hspan⟩ := hboth
  have hpops : d.pops = 1 := by
    have : d.holdPlainPending = false := by
      rcases hspan with h | h <;> simp_all [DecCyc.holdPlainPending]
    simp [DecCyc.pops, hv, DecCyc.stallO, DecCyc.resourceStall, this, running, DecCyc.fePop2,
      DecCyc.targetSpanComplete, DecCyc.targetSpan, DecCyc.targetUpper, fault]
  have hemit : d.emitted = [.fault d.headE.pc] := by
    simp [DecCyc.emitted, DecCyc.decodedValid, fault, fetched_deD, headE]
  refine ⟨none, ?_, ?_⟩
  · rw [hpops, hemit, head_eq hv]
    refine .fault ?_ hf
    intro h hh
    cases hold : d.q.hold with
    | false => simp [DecQ.held, hold] at hh
    | true =>
      rcases hspan with h' | h'
      · simp [hold] at h'
      · simp only [DecQ.held, hold, if_true, Option.mem_def, Option.some.injEq] at hh
        rw [← hh, isSpan_held]
        simpa [DecCyc.holdIsSpan] using h'
  · intro hp
    simp [DecCyc.next, DecCyc.holdNext, kept, hp, fault, DecQ.held]

/-- What is decoded, when nothing faults. -/
theorem emitted_src (clean : d.takeFault = false) {x : Src} (src : d.src = x) (valid : d.decodedValid = true) :
    d.emitted = [.instr x.pc x.instr32 x.isCompressed] := by
  simp [DecCyc.emitted, valid, fetched_deD, clean, src]

/-- A cycle that moves on, and takes no fault. -/
structure Clean (d : DecCyc) : Prop where
  running : d.stall = false
  kept : d.flush = false
  noFault : d.takeFault = false

/-- Without a halfword latched nothing of the hold buffer is decoded. -/
structure FreshWires (d : DecCyc) : Prop where
  plain : d.holdPlainPending = false
  complete : d.spanComplete = false
  wait : d.spanWait = false
  isPlain : d.isHoldPlain = false

theorem fresh_wires (empty : d.q.hold = false) : d.FreshWires := by
  have plain : d.holdPlainPending = false := by simp [DecCyc.holdPlainPending, empty]
  have span : d.spanPending = false := by simp [DecCyc.spanPending, empty]
  exact ⟨plain, by simp [DecCyc.spanComplete, span], by simp [DecCyc.spanWait, span], plain⟩

/-- What is decoded is built from the head entry. -/
structure FreshHead (d : DecCyc) : Prop where
  wires : d.FreshWires
  ok : d.headE.fault = false
  pops : d.pops = if d.fePop2 then 2 else 1
  upper : d.targetUpper = d.headE.odd

theorem fresh_head (running : d.stall = false) (empty : d.q.hold = false) (clean : d.takeFault = false)
    (valid : d.fe.valid = true) : d.FreshHead := by
  have wires := fresh_wires empty
  refine ⟨wires, ?_, ?_, by simp [DecCyc.targetUpper, clean, empty, valid, Entry.odd, headE]⟩
  · simpa [headE, DecCyc.takeFault, DecCyc.fetchFault, valid, wires.plain] using clean
  · have stall : d.stallO = false := by simp [DecCyc.stallO, DecCyc.resourceStall, wires.plain, running]
    simp [DecCyc.pops, valid, stall]

/-- A clean cycle with nothing latched and an entry at the head. -/
structure Heads (d : DecCyc) : Prop extends FreshHead d where
  clean : d.Clean
  empty : d.q.hold = false
  valid : d.fe.valid = true

namespace Heads

/-! ### An entry whose address is odd -/

section Upper

variable (h : d.Heads) (odd : d.headE.odd = true)
include h odd

theorem targetUpper : d.targetUpper = true := h.upper.trans odd

theorem targetSpan : d.targetSpan = d.headE.hi.isSpan := by
  simp only [headE, isSpan_hi, DecCyc.targetSpan, h.targetUpper odd, Bool.true_and]

omit h in
theorem hi_odd : d.headE.hi = { pc := d.fe.pc, bits := d.fe.instr.extractLsb 31 16 } := by
  rw [Entry.hi, odd]
  rfl

/-- It gives its high half alone, -/
theorem cut_upper (plain : d.headE.hi.isSpan = false) : d.Cuts none (some d.headE) (if d.fePop2 then 2 else 1) := by
  have span : d.targetSpan = false := (h.targetSpan odd).trans plain
  have complete : d.targetSpanComplete = false := by simp [DecCyc.targetSpanComplete, span]
  have wait : d.targetSpanWait = false := by simp [DecCyc.targetSpanWait, span]
  have valid : d.decodedValid = true := by simp [DecCyc.decodedValid, h.valid, h.empty, h.clean.noFault, wait]
  have src : d.src =
      { word32 := 0, half16 := d.fe.instr.extractLsb 31 16, pc := d.fe.pc, isCompressed := true } := by
    simp [DecCyc.src, h.clean.noFault, h.wires.complete, h.wires.wait, h.wires.isPlain, complete, wait,
      h.targetUpper odd]
  have emit : d.emitted = [d.headE.hi.fetched] := by
    rw [emitted_src h.clean.noFault src valid, hi_odd odd]
    rfl
  refine ⟨none, ?_, ?_⟩
  · rw [emit, DecCyc.fePop2, complete]
    exact .upper h.ok odd plain
  · intro quiet
    simp [DecCyc.next, DecCyc.holdNext, h.clean.kept, quiet, h.clean.noFault, h.clean.running, h.wires.wait,
      h.wires.complete, h.wires.isPlain, complete, wait, DecCyc.bufferUpper, h.targetUpper odd, DecQ.held]

/-- or stitched to the next entry, -/
theorem cut_target (complete : d.targetSpanComplete = true) :
    d.Cuts none (some d.headE) (if d.fePop2 then 2 else 1) := by
  obtain ⟨⟨span, next⟩, ok⟩ : (d.targetSpan = true ∧ d.fe.nextValid = true) ∧ d.nextE.fault = false := by
    simpa [DecCyc.targetSpanComplete, nextE] using complete
  have wait : d.targetSpanWait = false := by simp [DecCyc.targetSpanWait, complete]
  have valid : d.decodedValid = true := by simp [DecCyc.decodedValid, h.valid, h.empty, h.clean.noFault, wait]
  have src : d.src = { word32 := d.fe.nextInstr.extractLsb 15 0 ++ d.fe.instr.extractLsb 31 16, half16 := 0,
                       pc := d.fe.pc, isCompressed := false } := by
    simp [DecCyc.src, h.clean.noFault, h.wires.complete, h.wires.wait, h.wires.isPlain, complete]
  have emit : d.emitted = [d.headE.hi.join d.nextE.lo] := by
    rw [emitted_src h.clean.noFault src valid, hi_odd odd]
    rfl
  refine ⟨some { pc := d.nextE.pc + 2#32, bits := d.nextE.hi.bits }, ?_, ?_⟩
  · rw [emit, DecCyc.fePop2, complete, next_eq next]
    exact .target h.ok odd ((h.targetSpan odd).symm.trans span) ok
  · intro quiet
    simp only [DecCyc.next, DecCyc.holdNext, h.clean.kept, quiet, h.clean.noFault, h.clean.running, h.wires.wait,
      h.wires.complete, h.wires.isPlain, complete, if_true, Bool.false_eq_true, if_false, held_stash]
    rfl

/-- or nothing yet: its high half waits for the next entry. -/
theorem cut_stash (isSpan : d.headE.hi.isSpan = true) (late : d.targetSpanComplete = false) :
    d.Cuts none (some d.headE) (if d.fePop2 then 2 else 1) := by
  have span : d.targetSpan = true := (h.targetSpan odd).trans isSpan
  have wait : d.targetSpanWait = true := by simp [DecCyc.targetSpanWait, late, span]
  have valid : d.decodedValid = false := by
    simp [DecCyc.decodedValid, h.clean.noFault, h.wires.complete, h.wires.isPlain, wait]
  have emit : d.emitted = [] := by simp [DecCyc.emitted, valid]
  refine ⟨some d.headE.hi, ?_, ?_⟩
  · rw [emit, DecCyc.fePop2, late]
    refine .stash h.ok odd isSpan ?_
    intro f hf
    cases next : d.fe.nextValid with
    | false => simp [FePort.next, next] at hf
    | true =>
      simp only [FePort.next, next, if_true, Option.mem_def, Option.some.injEq] at hf
      rw [← hf]
      simpa [DecCyc.targetSpanComplete, span, next] using late
  · intro quiet
    simp only [DecCyc.next, DecCyc.holdNext, h.clean.kept, quiet, h.clean.noFault, h.clean.running, h.wires.wait,
      h.wires.complete, h.wires.isPlain, late, wait, if_true, Bool.false_eq_true, if_false, held_stash, hi_odd odd]

theorem cut_odd : d.Cuts none (some d.headE) (if d.fePop2 then 2 else 1) := by
  cases isSpan : d.headE.hi.isSpan with
  | false => exact h.cut_upper odd isSpan
  | true =>
    cases complete : d.targetSpanComplete with
    | true => exact h.cut_target odd complete
    | false => exact h.cut_stash odd isSpan complete

end Upper

/-! ### Another entry -/

section Lower

variable (h : d.Heads) (even : d.headE.odd = false)
include h even

theorem targetLower : d.targetUpper = false := h.upper.trans even

theorem noTarget : d.targetSpanComplete = false := by
  simp [DecCyc.targetSpanComplete, DecCyc.targetSpan, h.targetLower even]

theorem noWait : d.targetSpanWait = false := by
  simp [DecCyc.targetSpanWait, DecCyc.targetSpan, h.targetLower even]

theorem decoded : d.decodedValid = true := by
  simp [DecCyc.decodedValid, h.valid, h.empty, h.clean.noFault, h.noWait even]

omit h in
theorem hi_even : d.headE.hi = { pc := d.fe.pc + 2#32, bits := d.fe.instr.extractLsb 31 16 } := by
  rw [Entry.hi, even]
  rfl

/-- It gives its low half, -/
theorem cut_lower (plain : d.headE.lo.isSpan = false) : d.Cuts none (some d.headE) (if d.fePop2 then 2 else 1) := by
  have compressed : d.feIsCompressed = true := by
    have lo : d.headE.lo.isSpan = !d.feIsCompressed := isSpan_lo d.fe.pc d.fe.instr d.fe.fault
    simpa [plain] using lo
  have src : d.src =
      { word32 := 0, half16 := d.fe.instr.extractLsb 15 0, pc := d.fe.pc, isCompressed := true } := by
    simp [DecCyc.src, h.clean.noFault, h.wires.complete, h.wires.wait, h.wires.isPlain, h.noTarget even, h.noWait even,
      h.targetLower even, compressed]
  have emit : d.emitted = [d.headE.lo.fetched] := by
    rw [emitted_src h.clean.noFault src (h.decoded even)]
    rfl
  have buffer : d.bufferUpper = true := by
    simp [DecCyc.bufferUpper, h.empty, h.targetLower even, h.valid, compressed]
  refine ⟨some d.headE.hi, ?_, ?_⟩
  · rw [emit, DecCyc.fePop2, h.noTarget even]
    exact .lower h.ok even plain
  · intro quiet
    simp only [DecCyc.next, DecCyc.holdNext, h.clean.kept, quiet, h.clean.noFault, h.clean.running, h.wires.wait,
      h.wires.complete, h.wires.isPlain, h.noTarget even, h.noWait even, buffer, if_true, Bool.false_eq_true, if_false,
      held_stash, hi_even even]
    rfl

/-- or the whole word. -/
theorem cut_full (isSpan : d.headE.lo.isSpan = true) : d.Cuts none (some d.headE) (if d.fePop2 then 2 else 1) := by
  have whole : d.feIsCompressed = false := by
    have lo : d.headE.lo.isSpan = !d.feIsCompressed := isSpan_lo d.fe.pc d.fe.instr d.fe.fault
    simpa [isSpan] using lo
  have src : d.src = { word32 := d.fe.instr, half16 := 0, pc := d.fe.pc, isCompressed := false } := by
    simp [DecCyc.src, h.clean.noFault, h.wires.complete, h.wires.wait, h.wires.isPlain, h.noTarget even, h.noWait even,
      h.targetLower even, whole]
  have emit : d.emitted = [d.headE.lo.join d.headE.hi] := by
    rw [emitted_src h.clean.noFault src (h.decoded even), hi_even even, Half.join, Src.instr32]
    exact congrArg (fun w => [Fetched.instr d.fe.pc w false]) (joined_halves _).symm
  refine ⟨none, ?_, ?_⟩
  · rw [emit, DecCyc.fePop2, h.noTarget even]
    exact .full h.ok even isSpan
  · intro quiet
    simp [DecCyc.next, DecCyc.holdNext, h.clean.kept, quiet, h.clean.noFault, h.clean.running, h.wires.wait,
      h.wires.complete, h.wires.isPlain, h.noTarget even, h.noWait even, DecCyc.bufferUpper, whole, DecQ.held]

theorem cut_even : d.Cuts none (some d.headE) (if d.fePop2 then 2 else 1) := by
  cases isSpan : d.headE.lo.isSpan with
  | false => exact h.cut_lower even isSpan
  | true => exact h.cut_full even isSpan

end Lower

end Heads

/-- With nothing latched in the hold buffer: the head entry alone, or stitched to the next one. -/
theorem cut_fresh (d : DecCyc) (clean : d.Clean) (empty : d.q.hold = false) : d.Cuts none d.fe.head d.pops := by
  cases valid : d.fe.valid with
  | false =>
    have wires := fresh_wires empty
    have upper : d.targetUpper = false := by simp [DecCyc.targetUpper, valid]
    refine ⟨none, ?_, ?_⟩
    · simp [FePort.head, valid, DecCyc.emitted, DecCyc.pops, DecCyc.decodedValid, clean.noFault, wires.complete,
        wires.isPlain]
      exact .idle
    · intro quiet
      simp [DecCyc.next, DecCyc.holdNext, clean.kept, quiet, clean.noFault, clean.running, wires.complete, wires.wait,
        wires.isPlain, DecCyc.targetSpanComplete, DecCyc.targetSpanWait, DecCyc.targetSpan, upper, DecCyc.bufferUpper,
        valid, DecQ.held]
  | true =>
    have h : d.Heads := ⟨fresh_head clean.running empty clean.noFault valid, clean, empty, valid⟩
    rw [head_eq valid, h.pops]
    cases odd : d.headE.odd with
    | true => exact h.cut_odd odd
    | false => exact h.cut_even odd

/-! ### A latched halfword -/

/-- The halfword in the hold buffer. -/
def latchedHalf (d : DecCyc) : Half := { pc := d.q.holdPc, bits := d.q.holdWord.extractLsb 15 0 }

section Held

variable (clean : d.Clean) (full : d.q.hold = true)
include clean full

/-- It is an instruction by itself, -/
theorem cut_plain (plain : d.holdIsSpan = false) : d.Cuts (some d.latchedHalf) d.fe.head d.pops := by
  have pending : d.holdPlainPending = true := by simp [DecCyc.holdPlainPending, full, plain]
  have notSpan : d.spanPending = false := by simp [DecCyc.spanPending, plain]
  have complete : d.spanComplete = false := by simp [DecCyc.spanComplete, notSpan]
  have wait : d.spanWait = false := by simp [DecCyc.spanWait, notSpan]
  have isPlain : d.isHoldPlain = true := pending
  have valid : d.decodedValid = true := by simp [DecCyc.decodedValid, isPlain]
  have src : d.src =
      { word32 := 0, half16 := d.q.holdWord.extractLsb 15 0, pc := d.q.holdPc, isCompressed := true } := by
    simp [DecCyc.src, clean.noFault, complete, wait, isPlain]
  have pops : d.pops = 0 := by
    cases valid : d.fe.valid <;> simp [DecCyc.pops, DecCyc.stallO, DecCyc.resourceStall, pending, valid]
  refine ⟨none, ?_, ?_⟩
  · rw [emitted_src clean.noFault src valid, pops]
    exact .plain ((isSpan_held _ _).trans plain)
  · intro quiet
    simp [DecCyc.next, DecCyc.holdNext, clean.kept, quiet, clean.noFault, clean.running, wait, complete, isPlain,
      DecQ.held]

/-- or waits for its other half, -/
theorem cut_wait (span : d.holdIsSpan = true) (none : d.fe.valid = false) :
    d.Cuts (some d.latchedHalf) d.fe.head d.pops := by
  have pending : d.spanPending = true := by simp [DecCyc.spanPending, full, span]
  have notPlain : d.isHoldPlain = false := by simp [DecCyc.isHoldPlain, DecCyc.holdPlainPending, span]
  have complete : d.spanComplete = false := by simp [DecCyc.spanComplete, none]
  have wait : d.spanWait = true := by simp [DecCyc.spanWait, pending, none, clean.noFault]
  have valid : d.decodedValid = false := by simp [DecCyc.decodedValid, clean.noFault, complete, notPlain, none]
  have pops : d.pops = 0 := by simp [DecCyc.pops, none]
  refine ⟨some d.latchedHalf, ?_, ?_⟩
  · rw [pops, DecCyc.emitted, valid, FePort.head, none]
    exact .wait ((isSpan_held _ _).trans span)
  · intro quiet
    simp [DecCyc.next, DecCyc.holdNext, clean.kept, quiet, clean.noFault, clean.running, wait, DecQ.held, full,
      latchedHalf]

/-- or is stitched to it. -/
theorem cut_join (span : d.holdIsSpan = true) (there : d.fe.valid = true) :
    d.Cuts (some d.latchedHalf) d.fe.head d.pops := by
  have pending : d.spanPending = true := by simp [DecCyc.spanPending, full, span]
  have notPlain : d.holdPlainPending = false := by simp [DecCyc.holdPlainPending, span]
  have stall : d.stallO = false := by simp [DecCyc.stallO, DecCyc.resourceStall, notPlain, clean.running]
  have ok : d.headE.fault = false := by
    simpa [headE, DecCyc.takeFault, DecCyc.fetchFault, there, notPlain] using clean.noFault
  have complete : d.spanComplete = true := by simp [DecCyc.spanComplete, pending, there, clean.noFault]
  have wait : d.spanWait = false := by simp [DecCyc.spanWait, there]
  have valid : d.decodedValid = true := by simp [DecCyc.decodedValid, complete]
  have src : d.src = { word32 := d.fe.instr.extractLsb 15 0 ++ d.q.holdWord.extractLsb 15 0, half16 := 0,
                       pc := d.q.holdPc, isCompressed := false } := by
    simp [DecCyc.src, clean.noFault, complete]
  have noTarget : d.fePop2 = false := by
    simp [DecCyc.fePop2, DecCyc.targetSpanComplete, DecCyc.targetSpan, DecCyc.targetUpper, full]
  have pops : d.pops = 1 := by simp [DecCyc.pops, there, stall, noTarget]
  refine ⟨some { pc := d.headE.pc + 2#32, bits := d.headE.hi.bits }, ?_, ?_⟩
  · rw [emitted_src clean.noFault src valid, pops, head_eq there]
    exact .join ((isSpan_held _ _).trans span) ok
  · intro quiet
    simp only [DecCyc.next, DecCyc.holdNext, clean.kept, quiet, clean.noFault, clean.running, wait, complete, if_true,
      Bool.false_eq_true, if_false, held_stash]
    rfl

theorem cut_held : d.Cuts (some d.latchedHalf) d.fe.head d.pops := by
  cases span : d.holdIsSpan with
  | false => exact cut_plain clean full span
  | true =>
    cases valid : d.fe.valid with
    | false => exact cut_wait clean full span valid
    | true => exact cut_join clean full span valid

end Held

/-- An unstalled cycle is one cut; the hold buffer follows it unless a prediction redirects. -/
theorem cut (d : DecCyc) (running : d.stall = false) (kept : d.flush = false) :
    ∃ held', Cut d.q.held d.fe.head d.fe.next d.emitted held' d.pops ∧
      (d.predRedirectFire = false → d.next.held = held') := by
  cases fault : d.takeFault with
  | true => exact cut_fault d running kept fault
  | false =>
    have clean : d.Clean := ⟨running, kept, fault⟩
    cases full : d.q.hold with
    | true =>
      rw [DecQ.held, full, if_pos rfl]
      exact cut_held clean full
    | false =>
      rw [DecQ.held, full, if_neg (by simp)]
      exact cut_fresh d clean full

/-- A stalled cycle takes nothing and keeps the held half, or drops a low half in front of its fault. -/
theorem stalled (d : DecCyc) (stall : d.stall = true) (kept : d.flush = false) :
    d.pops = 0 ∧ d.next.de = d.q.de ∧
      (d.next.held = d.q.held ∨ d.next.held = none ∧ d.takeFault = true) := by
  have hp : d.predRedirectFire = false := by simp [DecCyc.predRedirectFire, stall]
  refine ⟨?_, ?_, ?_⟩
  · simp [DecCyc.pops, DecCyc.stallO, stall]
  · simp [DecCyc.next, DecCyc.deNext, kept, stall]
  · cases hf : d.takeFault with
    | false => left; simp [DecCyc.next, DecCyc.holdNext, kept, hp, hf, stall, DecQ.held]
    | true => right; simp [DecCyc.next, DecCyc.holdNext, kept, hp, hf, DecQ.held]

/-- The valid word this edge latches into D/E. -/
def latched (d : DecCyc) : List Fetched :=
  if d.stall || d.flush then [] else if d.next.de.valid then [d.next.de.fetched] else []

theorem latched_eq (d : DecCyc) (running : d.stall = false) (kept : d.flush = false) : d.latched = d.emitted := by
  have : d.next.de = d.deD := by simp [DecCyc.next, DecCyc.deNext, running, kept]
  simp only [latched, running, kept, this, emitted]
  rfl

/-- One cycle without a redirect: the parse of what decode holds and what is still to
come loses what was latched. -/
theorem parse_step (d : DecCyc) (kept : d.flush = false) (quiet : d.predRedirectFire = false) {es : List Entry}
    (shows : Shows d.fe.head d.fe.next es) (aligned : Aligned d.q.held es) (room : d.pops ≤ es.length) :
    Aligned d.next.held (es.drop d.pops) ∧
      parse (heldItems d.q.held ++ itemsOf es) =
        d.latched ++ parse (heldItems d.next.held ++ itemsOf (es.drop d.pops)) := by
  cases running : d.stall with
  | false =>
    obtain ⟨held', hcut, hheld⟩ := d.cut running kept
    rw [latched_eq d running kept, hheld quiet]
    exact hcut.parse shows aligned room
  | true =>
    obtain ⟨hpops, -, hheld⟩ := d.stalled running kept
    have hout : d.latched = [] := by simp [latched, running]
    rw [hpops, hout, List.drop_zero, List.nil_append]
    rcases hheld with h | ⟨h, hf⟩
    · rw [h]
      exact ⟨aligned, rfl⟩
    · rw [h]
      refine ⟨aligned.drop, ?_⟩
      obtain ⟨hv, hfe⟩ : d.fe.valid = true ∧ d.headE.fault = true := by
        simp only [DecCyc.takeFault, DecCyc.fetchFault, Bool.and_eq_true] at hf
        exact hf.1
      rw [head_eq hv] at shows
      cases hold : d.q.hold with
      | false => simp [DecQ.held, hold]
      | true =>
        have span : Half.isSpan { pc := d.q.holdPc, bits := d.q.holdWord.extractLsb 15 0 } = true := by
          rw [isSpan_held]
          simpa [DecCyc.takeFault, DecCyc.holdPlainPending, hold, DecCyc.holdIsSpan, DecCyc.fetchFault, hv,
            show d.fe.fault = true from hfe] using hf
        simp only [DecQ.held, hold, if_true, heldItems, Option.map_some, Option.toList_some, List.singleton_append]
        cases es with
        | nil => simp [itemsOf, parse, span]
        | cons x rest =>
          have hx : x = d.headE := shows.head _ rfl x (by simp)
          exact parse_drop_span span (by rw [hx, hfe]) rest

end DecCyc

/-! ## Runs -/

/-- What the rest of the core feeds decode in one cycle. -/
structure DecIn where
  fe : FePort
  regRead : BitVec 5 → Word
  stall : Bool
  flush : Bool
  exWbEn : Bool
  exWbAddr : BitVec 5
  exWbData : Word
  bpLookup : Word → BpLookupRsp

def DecQ.cyc (p : Params) (q : DecQ) (i : DecIn) : DecCyc :=
  { p := p, q := q, fe := i.fe, regRead := i.regRead, stall := i.stall, flush := i.flush, exWbEn := i.exWbEn,
    exWbAddr := i.exWbAddr, exWbData := i.exWbData, bpLookup := i.bpLookup }

/-- Decode and the number of buffer entries its pops have taken. -/
structure Slicer where
  q : DecQ
  taken : Nat

namespace Slicer

def next (p : Params) (s : Slicer) (i : DecIn) : Slicer :=
  { q := (s.q.cyc p i).next, taken := s.taken + (s.q.cyc p i).pops }

def latched (p : Params) (s : Slicer) (i : DecIn) : List Fetched := (s.q.cyc p i).latched

/-- The entries `a`, .., `b - 1` of a sequence. -/
def entries (e : Nat → Entry) (a b : Nat) : List Entry := (List.range' a (b - a)).map e

/-- A cycle of a window: the ports show the first entries not yet taken, where they
show anything, and nothing redirects. -/
structure Quiet (p : Params) (e : Nat → Entry) (s : Slicer) (i : DecIn) : Prop where
  head : ∀ x ∈ i.fe.head, x = e s.taken
  next : ∀ x ∈ i.fe.next, x = e (s.taken + 1)
  kept : i.flush = false
  noRedirect : (s.q.cyc p i).predRedirectFire = false

theorem getElem?_entries (e : Nat → Entry) (a b k : Nat) {x : Entry} (hx : x ∈ (entries e a b)[k]?) :
    x = e (a + k) := by
  simp only [entries, List.getElem?_map, Option.mem_def, Option.map_eq_some_iff] at hx
  obtain ⟨m, hm, rfl⟩ := hx
  obtain ⟨hk, rfl⟩ := List.getElem?_eq_some_iff.mp hm
  simp [List.getElem_range']

theorem drop_entries (e : Nat → Entry) (a b k : Nat) : (entries e a b).drop k = entries e (a + k) b := by
  rw [entries, entries, ← List.map_drop, List.drop_range', Nat.mul_one, Nat.sub_sub]

theorem Quiet.shows {p : Params} {e : Nat → Entry} {s : Slicer} {i : DecIn} (ok : Quiet p e s i) (b : Nat) :
    Shows i.fe.head i.fe.next (entries e s.taken b) := by
  constructor
  · intro x hx y hy
    rw [ok.head x hx]
    exact getElem?_entries e _ b 0 hy
  · intro x hx y hy
    rw [ok.next x hx]
    exact getElem?_entries e _ b 1 hy

/-- Entries behind the first are aligned, and so is the head whenever a half is held. -/
structure Inv (e : Nat → Entry) (s : Slicer) : Prop where
  aligned : ∀ k, (e (k + 1)).odd = false
  held : s.q.held.isSome = true → (e s.taken).odd = false

theorem Inv.ports {e : Nat → Entry} {s : Slicer} (inv : Inv e s) (b : Nat) :
    Aligned s.q.held (entries e s.taken b) := by
  cases h : Slicer.entries e s.taken b with
  | nil => trivial
  | cons x rest =>
    have hx : x = e s.taken := getElem?_entries e s.taken b 0 (by simp [h])
    refine ⟨fun hh => hx ▸ inv.held hh, fun f hf => ?_⟩
    obtain ⟨k, hk⟩ := List.getElem?_of_mem hf
    have := getElem?_entries e s.taken b (k + 1) (x := f) (by simp [h, hk])
    rw [this]
    exact inv.aligned (s.taken + k)

theorem length_entries (e : Nat → Entry) (a b : Nat) : (entries e a b).length = b - a := by simp [entries]

theorem Inv.next {p : Params} {e : Nat → Entry} {s : Slicer} {i : DecIn} (inv : Inv e s) (ok : Quiet p e s i) :
    Inv e (s.next p i) := by
  refine ⟨inv.aligned, ?_⟩
  have hstep := (s.q.cyc p i).parse_step ok.kept ok.noRedirect (ok.shows (s.next p i).taken.succ)
    (inv.ports _) (by rw [length_entries]; simp [Slicer.next]; omega)
  have hal := hstep.1
  have hone : (entries e s.taken (s.next p i).taken.succ).drop (s.q.cyc p i).pops = [e (s.next p i).taken] := by
    rw [drop_entries, show s.taken + (s.q.cyc p i).pops = (s.next p i).taken from rfl, entries]
    simp
  rw [hone] at hal
  exact hal.1

/-- The parse of what decode holds and of the entries up to `b` it has not taken. -/
def rest (e : Nat → Entry) (b : Nat) (s : Slicer) : List Fetched :=
  parse (heldItems s.q.held ++ itemsOf (entries e s.taken b))

theorem Inv.moves {p : Params} {e : Nat → Entry} {s : Slicer} {i : DecIn} {b : Nat} (inv : Inv e s)
    (ok : Quiet p e s i) (room : (s.next p i).taken ≤ b) :
    s.rest e b = s.latched p i ++ (s.next p i).rest e b := by
  have hstep := (s.q.cyc p i).parse_step ok.kept ok.noRedirect (ok.shows b) (inv.ports b)
    (by rw [length_entries]; simp only [Slicer.next] at room; omega)
  rw [drop_entries] at hstep
  exact hstep.2

/-- An unstalled cycle that sees an entry latches a word, or stashes the first entry's upper half. -/
theorem Inv.productive {p : Params} {e : Nat → Entry} {s : Slicer} {i : DecIn} (inv : Inv e s) (ok : Quiet p e s i)
    (running : i.stall = false) (valid : i.fe.valid = true) :
    s.latched p i ≠ [] ∨ s.taken = 0 ∧ (s.next p i).taken = 1 := by
  obtain ⟨held', hcut, -⟩ := (s.q.cyc p i).cut running ok.kept
  rw [DecCyc.head_eq valid] at hcut
  rcases hcut.productive with h | ⟨hn, hodd⟩
  · left
    rwa [Slicer.latched, DecCyc.latched_eq _ running ok.kept]
  · right
    have hhead : (s.q.cyc p i).headE = e s.taken := ok.head _ (DecCyc.head_eq (d := s.q.cyc p i) valid)
    have hzero : s.taken = 0 := by
      by_contra hc
      obtain ⟨k, hk⟩ := Nat.exists_eq_succ_of_ne_zero hc
      rw [hhead, hk, inv.aligned k] at hodd
      simp at hodd
    exact ⟨hzero, by simp [Slicer.next, hn, hzero]⟩

theorem taken_mono (p : Params) (s : Slicer) (i : Nat → DecIn) (m k : Nat) :
    (Clocked.run (next p) s i m).taken ≤ (Clocked.run (next p) s i (m + k)).taken := by
  induction k with
  | zero => exact le_rfl
  | succ k ih => exact ih.trans (Nat.le_add_right _ _)

/-- Decode slices the halfword stream exactly: after any cycles without a redirect,
what was latched, the held half and the entries still to come make up the parse of
all entries, however far one looks; and an unstalled cycle that sees an entry latches
a word, unless it stashes the upper half of the first one. -/
theorem decode_slices (p : Params) (e : Nat → Entry) (aligned : ∀ k, (e (k + 1)).odd = false) (q : DecQ)
    (empty : q.hold = false) (i : Nat → DecIn)
    (ok : ∀ n, Quiet p e (Clocked.run (next p) ⟨q, 0⟩ i n) (i n)) (n : Nat) :
    let s := Clocked.run (next p) ⟨q, 0⟩ i n
    (∀ b, s.taken ≤ b →
      parse (itemsOf (entries e 0 b)) =
        Clocked.log (next p) (latched p) ⟨q, 0⟩ i n ++ parse (heldItems s.q.held ++ itemsOf (entries e s.taken b))) ∧
      ((i n).stall = false → (i n).fe.valid = true →
        s.latched p (i n) ≠ [] ∨ s.taken = 0 ∧ (s.next p (i n)).taken = 1) := by
  intro s
  have held : q.held = none := by simp [DecQ.held, empty]
  have init : Inv e ⟨q, 0⟩ := ⟨aligned, by simp [held]⟩
  refine ⟨fun b hb => ?_, ?_⟩
  · have hcons : rest e b ⟨q, 0⟩ = Clocked.log (next p) (latched p) ⟨q, 0⟩ i n ++ s.rest e b := by
      refine Clocked.log_conserves (latched p) (rest e b) (Inv e)
        (fun s i => Quiet p e s i ∧ (s.next p i).taken ≤ b) init (fun _ _ inv ok => inv.next ok.1)
        (fun _ _ inv ok => inv.moves ok.1 ok.2) n (fun m hm => ⟨ok m, ?_⟩)
      obtain ⟨k, rfl⟩ := Nat.exists_eq_add_of_lt hm
      have := taken_mono p ⟨q, 0⟩ i (m + 1) k
      rw [show m + 1 + k = m + k + 1 by omega] at this
      exact this.trans hb
    simpa [rest, held, heldItems] using hcons
  · exact (Clocked.run_invariant (Inv e) (Quiet p e) init (fun _ _ inv ok => inv.next ok) n fun m _ => ok m).productive
      (ok n)

/-- A stream that starts in the middle of a word: the halves of `addi x1, x0, 5`, then
`c.nop`, `c.li x10, 1` and `c.addi x1, 1`, then faults. -/
def mixed (k : ℕ) : Entry where
  instr := [0x00930001#32, 0x00010050#32, 0x00854505#32].getD k 0
  pc := [0x2#32, 0x4#32, 0x8#32].getD k 0xC#32
  fault := decide (3 ≤ k)

/-- The first entry shown in a cycle. -/
def mixedAt (n : ℕ) : ℕ := [0, 1, 1, 2, 2, 2].getD n 3

/-- The ports show one entry at first, then two, then none; cycles 1 and 4 are stalled. -/
def mixedPort (n : ℕ) : DecIn where
  fe := { instr := (mixed (mixedAt n)).instr, pc := (mixed (mixedAt n)).pc, fault := (mixed (mixedAt n)).fault,
          valid := decide (n < 8), predLo := false, predHi := false, ghr := 0,
          nextInstr := (mixed (mixedAt n + 1)).instr, nextPc := (mixed (mixedAt n + 1)).pc,
          nextFault := (mixed (mixedAt n + 1)).fault, nextValid := decide (0 < n ∧ n < 8), nextPredHi := false,
          nextGhr := 0 }
  regRead := fun _ => 0
  stall := n == 1 || n == 4
  flush := false
  exWbEn := false
  exWbAddr := 0
  exWbData := 0
  bpLookup := fun _ => { phtTaken := false, rasValid := false, rasTop := 0, phtIndex := 0 }

/-- The board's decoder with prediction off. -/
def mixedBuild : Params := { Params.board with bpEn := false }

theorem mixed_taken : ∀ n < 8, (Clocked.run (next mixedBuild) ⟨.reset, 0⟩ mixedPort n).taken = mixedAt n := by
  decide +kernel

theorem mixed_aligned : ∀ k, (mixed (k + 1)).odd = false
  | 0 | 1 => rfl
  | k + 2 => by simp [mixed, Entry.odd]

theorem mixed_quiet (n : ℕ) :
    Quiet mixedBuild mixed (Clocked.run (next mixedBuild) ⟨.reset, 0⟩ mixedPort n) (mixedPort n) := by
  refine ⟨?_, ?_, rfl, rfl⟩
  · intro x shown
    by_cases valid : n < 8
    · rw [mixed_taken n valid]
      simpa [FePort.head, mixedPort, valid] using shown.symm
    · simp [FePort.head, mixedPort, valid] at shown
  · intro x shown
    by_cases valid : 0 < n ∧ n < 8
    · rw [mixed_taken n valid.2]
      simpa [FePort.next, mixedPort, valid] using shown.symm
    · simp [FePort.next, mixedPort, valid] at shown

/-- All of it is latched in cycle 8, the spanning instruction from its stash. -/
theorem decode_slices_mixed :
    parse (itemsOf (entries mixed 0 4)) =
        Clocked.log (next mixedBuild) (latched mixedBuild) ⟨.reset, 0⟩ mixedPort 8 ∧
      Clocked.log (next mixedBuild) (latched mixedBuild) ⟨.reset, 0⟩ mixedPort 8 =
        [.instr 0x2#32 0x00500093#32 false, .instr 0x6#32 0x00000013#32 true, .instr 0x8#32 0x00100513#32 true,
          .instr 0xA#32 0x00108093#32 true, .fault 0xC#32] := by
  have slices := (decode_slices mixedBuild mixed mixed_aligned .reset rfl mixedPort mixed_quiet 8).1 4
    (by decide +kernel)
  refine ⟨?_, by decide +kernel⟩
  rw [slices]
  exact (congrArg _ (by decide +kernel : parse _ = [])).trans (List.append_nil _)

end Slicer

end YarvUc
