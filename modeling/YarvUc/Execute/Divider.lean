import YarvUc.Rtl.Alu
import YarvUc.Clocked.Division
import YarvUc.Clocked.Run

/-!
# The divider computes the M extension's quotients and remainders

A launch leaves the magnitudes of the operands in the flops. Each of the 32 steps is one
step of restoring division on `{remainder, quotient}`, whatever the inputs are meanwhile;
with the operands held the result mux then gives the quotient or the remainder with the
sign the M extension asks for.
-/

namespace YarvUc

/-- What the M extension defines for the four ops: truncation toward zero, a remainder
with the dividend's sign, and the values for a zero divisor and for signed overflow. -/
def AluOp.division (op : AluOp) (a b : Word) : Word :=
  match op with
  | .DIV =>
    if b = 0 then BitVec.allOnes 32
    else if a = BitVec.intMin 32 ∧ b = BitVec.allOnes 32 then BitVec.intMin 32
    else BitVec.ofInt 32 (a.toInt.tdiv b.toInt)
  | .DIVU => if b = 0 then BitVec.allOnes 32 else BitVec.ofNat 32 (a.toNat / b.toNat)
  | .REM =>
    if b = 0 then a
    else if a = BitVec.intMin 32 ∧ b = BitVec.allOnes 32 then 0
    else BitVec.ofInt 32 (a.toInt.tmod b.toInt)
  | .REMU => if b = 0 then a else BitVec.ofNat 32 (a.toNat % b.toNat)
  | _ => 0

theorem AluOp.division_div (a b : Word) :
    AluOp.division .DIV a b = if b = 0 then BitVec.allOnes 32 else a.sdiv b := by
  have general : BitVec.ofInt 32 (a.toInt.tdiv b.toInt) = a.sdiv b := by
    apply BitVec.eq_of_toInt_eq
    rw [BitVec.toInt_ofInt, BitVec.toInt_sdiv]
  simp only [AluOp.division]
  split
  · rfl
  · split
    case isTrue overflow =>
      rw [overflow.1, overflow.2]
      decide +kernel
    case isFalse => exact general

theorem AluOp.division_rem (a b : Word) : AluOp.division .REM a b = a.srem b := by
  have general : BitVec.ofInt 32 (a.toInt.tmod b.toInt) = a.srem b := by
    apply BitVec.eq_of_toInt_eq
    rw [BitVec.toInt_ofInt, ← BitVec.toInt_srem, BitVec.toInt_bmod_cancel]
  simp only [AluOp.division]
  split
  case isTrue zero => rw [zero, BitVec.ofNat_eq_ofNat, BitVec.srem_zero]
  case isFalse =>
    split
    case isTrue overflow =>
      rw [overflow.1, overflow.2]
      decide +kernel
    case isFalse => exact general

namespace AluIn

/-- The op and the operands are the same; `start_i` may differ. -/
structure Holds (i j : AluIn) : Prop where
  aluOp : j.aluOp = i.aluOp
  operandA : j.operandA = i.operandA
  operandB : j.operandB = i.operandB

instance (i j : AluIn) : Decidable (i.Holds j) :=
  decidable_of_iff (j.aluOp = i.aluOp ∧ j.operandA = i.operandA ∧ j.operandB = i.operandB)
    ⟨fun ⟨op, a, b⟩ => ⟨op, a, b⟩, fun ⟨op, a, b⟩ => ⟨op, a, b⟩⟩

/-- The sign decided at the launch. -/
def divNeg (i : AluIn) : Bool :=
  (i.aluOp == .DIV && (i.operandA.msb ^^ i.operandB.msb) && i.operandB != 0) || (i.aluOp == .REM && i.operandA.msb)

theorem divBAbs_eq_zero (i : AluIn) : i.divBAbs = 0#32 ↔ i.operandB = 0#32 := by
  unfold divBAbs
  split
  · exact BitVec.neg_eq_zero_iff
  · rfl

end AluIn

namespace AluQ

variable {q : AluQ} {i j : AluIn} {k : ℕ}

/-- The flops `k` steps after the launch with the inputs `i`. -/
structure Dividing (i : AluIn) (k : ℕ) (q : AluQ) : Prop where
  divA : q.divA = i.divAAbs
  divisor : q.divDivisor = i.divBAbs
  neg : q.divNeg = i.divNeg
  bz : q.divBz = (i.operandB == 0)
  rem : i.operandB ≠ 0#32 → ∃ r p, Restoring 32 i.divAAbs.toNat i.divBAbs.toNat k r p ∧
    q.divRem.toNat = Restoring.register 32 i.divAAbs.toNat k r p

/-- The state counts the steps. -/
structure Running (i : AluIn) (k : ℕ) (q : AluQ) : Prop extends Dividing i k q where
  state : q.divState = .RUN
  count : q.divCnt.toNat = k

theorem launch (idle : q.divState = .IDLE) (start : i.start = true) (div : i.isDivOp = true) :
    Running i 0 (q.next i) := by
  have launched : q.next i =
      { divState := .RUN, divCnt := 0, divA := i.divAAbs, divDivisor := i.divBAbs, divNeg := i.divNeg,
        divBz := i.operandB == 0, divRem := 0#32 ++ i.divAAbs } := by
    simp only [next, idle, start, div, Bool.and_self, if_true]
    rfl
  rw [launched]
  refine ⟨⟨rfl, rfl, rfl, rfl, fun nonzero => ⟨0, 0, ?_, ?_⟩⟩, rfl, rfl⟩
  · apply Restoring.start i.divAAbs.isLt
    have : i.divBAbs ≠ 0#32 := fun h => nonzero (i.divBAbs_eq_zero.mp h)
    exact Nat.pos_of_ne_zero fun h => this (BitVec.eq_of_toNat_eq h)
  · rw [Restoring.register_start i.divAAbs.isLt]
    change (0#32 ++ i.divAAbs).toNat = i.divAAbs.toNat
    rw [BitVec.toNat_append]
    simp

/-! ## One step -/

theorem toNat_shifted {x : ℕ} (h : 2 * q.divRem.toNat = x) (small : x < 2 ^ 64) : q.shifted.toNat = x := by
  rw [shifted, BitVec.toNat_shiftLeft, Nat.shiftLeft_eq]
  omega

theorem toNat_remPart : q.remPart.toNat = q.shifted.toNat / 2 ^ 32 := by
  have := q.shifted.isLt
  rw [remPart, BitVec.extractLsb_toNat, Nat.shiftRight_eq_div_pow]
  omega

theorem toNat_subtracted (r : Word) (s : BitVec 64) :
    (r ++ s.extractLsb 31 1 ++ 1#1).toNat = r.toNat * 2 ^ 32 + (s.toNat / 2 % 2 ^ 31 * 2 + 1) := by
  have low : (s.extractLsb 31 1).toNat = s.toNat / 2 % 2 ^ 31 := by
    rw [BitVec.extractLsb_toNat, Nat.shiftRight_eq_div_pow]
  have inner : (r ++ s.extractLsb 31 1).toNat = r.toNat * 2 ^ 31 + s.toNat / 2 % 2 ^ 31 := by
    rw [BitVec.toNat_append, low, Nat.shiftLeft_eq, Nat.mul_comm, ← Nat.two_pow_add_eq_or_of_lt (by omega)]
  rw [BitVec.toNat_append, inner, Nat.shiftLeft_eq, Nat.mul_comm, ← Nat.two_pow_add_eq_or_of_lt (by decide)]
  change 2 ^ 1 * (r.toNat * 2 ^ 31 + s.toNat / 2 % 2 ^ 31) + 1 = _
  omega

/-- One shift-subtract is one step of the division. -/
theorem divRemStep_restoring {n d r p : ℕ} (step : Restoring 32 n d k r p) (hn : n < 2 ^ 32) (hk : k < 32)
    (divisor : q.divDivisor.toNat = d) (reg : q.divRem.toNat = Restoring.register 32 n k r p) :
    ∃ r' p', Restoring 32 n d (k + 1) r' p' ∧ q.divRemStep.toNat = Restoring.register 32 n (k + 1) r' p' := by
  have quot : 2 * p < 2 ^ (k + 1) := by
    have := step.quot_lt_two_pow hn hk.le
    rw [Nat.pow_succ]
    omega
  have rem : Restoring.shifted 32 n k r < 2 ^ 32 :=
    (step.shifted_lt hn hk).trans_le (Nat.pow_le_pow_right (by decide) hk)
  have shift : q.shifted.toNat = Restoring.register 32 n (k + 1) (Restoring.shifted 32 n k r) (2 * p) :=
    toNat_shifted (by rw [reg, Restoring.register_shift hk]) (Restoring.register_lt quot hk rem)
  have part : q.remPart.toNat = Restoring.shifted 32 n k r := by
    rw [toNat_remPart, shift, Restoring.register_div quot hk]
  rw [divRemStep]
  split
  case isTrue fits =>
    rw [BitVec.le_def, divisor, part] at fits
    refine ⟨_, _, step.subtract hk fits, ?_⟩
    have even : n % 2 ^ (32 - (k + 1)) * 2 ^ (k + 1) = 2 * (n % 2 ^ (32 - (k + 1)) * 2 ^ k) := by
      rw [Nat.pow_succ]
      ring
    have low := Restoring.low_lt (n := n) quot hk
    rw [toNat_subtracted, shift, BitVec.toNat_sub_of_le (by rw [BitVec.le_def, divisor, part]; exact fits), divisor,
      part]
    simp only [Restoring.register]
    omega
  case isFalse below =>
    rw [BitVec.le_def, divisor, part, Nat.not_le] at below
    exact ⟨_, _, step.keep hk below, shift⟩

theorem Dividing.step (h : q.Dividing i k) (run : q.divState = .RUN) (hk : k < 32) : (q.next j).Dividing i (k + 1) := by
  simp only [next, run]
  refine ⟨h.divA, h.divisor, h.neg, h.bz, fun nonzero => ?_⟩
  obtain ⟨r, p, step, reg⟩ := h.rem nonzero
  exact divRemStep_restoring step i.divAAbs.isLt hk (congrArg BitVec.toNat h.divisor) reg

theorem Running.step (h : q.Running i k) (hk : k < 31) : (q.next j).Running i (k + 1) := by
  have more : q.divCnt ≠ 31 := by
    intro full
    have := h.count
    rw [full] at this
    simp at this
    omega
  refine ⟨h.toDividing.step h.state (by omega), ?_, ?_⟩
  · simp only [next, h.state, more, if_false]
  · simp only [next, h.state, more, if_false, BitVec.toNat_add, h.count]
    change (k + 1) % 32 = k + 1
    omega

theorem Running.last (h : q.Running i 31) : (q.next j).divState = .DONE := by
  have full : q.divCnt = 31 := BitVec.eq_of_toNat_eq h.count
  simp [next, h.state, full]

/-! ## The result -/

theorem divRaw {n d r p : ℕ} (step : Restoring 32 n d 32 r p) (hn : n < 2 ^ 32)
    (reg : q.divRem.toNat = Restoring.register 32 n 32 r p) :
    (q.divRem.extractLsb 63 32).toNat = n % d ∧ (q.divRem.extractLsb 31 0).toNat = n / d := by
  have quot := step.quot_lt_two_pow hn le_rfl
  have rem := step.rem_lt_two_pow hn le_rfl
  have high := Restoring.register_div (n := n) (r := r) quot le_rfl
  have low : Restoring.register 32 n 32 r p = r * 2 ^ 32 + p := by
    rw [Restoring.register, Nat.sub_self, Nat.pow_zero, Nat.mod_one, Nat.zero_mul, Nat.zero_add]
  obtain ⟨hp, hr⟩ := step.done
  rw [← hp, ← hr, BitVec.extractLsb_toNat, BitVec.extractLsb_toNat, Nat.shiftRight_eq_div_pow,
    Nat.shiftRight_eq_div_pow, reg]
  constructor
  · rw [high]
    exact Nat.mod_eq_of_lt rem
  · rw [low]
    omega

theorem divMag_nonzero (h : q.Dividing i 32) (nonzero : i.operandB ≠ 0#32) :
    q.divMag i = if divTakeRem i then i.divAAbs % i.divBAbs else i.divAAbs / i.divBAbs := by
  obtain ⟨r, p, step, reg⟩ := h.rem nonzero
  obtain ⟨rem, quot⟩ := divRaw step i.divAAbs.isLt reg
  have bz : q.divBz = false := by rw [h.bz]; simpa using nonzero
  rw [divMag, bz, if_neg Bool.false_ne_true]
  split
  · exact BitVec.eq_of_toNat_eq (by rw [rem, BitVec.toNat_umod])
  · exact BitVec.eq_of_toNat_eq (by rw [quot, BitVec.toNat_udiv])

theorem divMag_zero (h : q.Dividing i 32) (zero : i.operandB = 0#32) :
    q.divMag i = if divTakeRem i then i.divAAbs else BitVec.allOnes 32 := by
  have bz : q.divBz = true := by rw [h.bz, zero]; rfl
  rw [divMag, bz, if_pos rfl, h.divA]

theorem divResult_div (h : q.Dividing i 32) (op : i.aluOp = .DIV) :
    q.divResult i = AluOp.division .DIV i.operandA i.operandB := by
  have take : divTakeRem i = false := by simp [divTakeRem, op]
  rw [AluOp.division_div, divResult, h.neg]
  by_cases zero : i.operandB = 0#32
  · rw [divMag_zero h zero, take]
    simp [AluIn.divNeg, op, zero]
  · rw [divMag_nonzero h zero, take, if_neg (show ¬ i.operandB = 0 from zero), BitVec.sdiv_eq]
    have neg : i.divNeg = (i.operandA.msb ^^ i.operandB.msb) := by
      rw [AluIn.divNeg, op, show (i.operandB != 0) = true from bne_iff_ne.mpr zero]
      cases i.operandA.msb <;> cases i.operandB.msb <;> rfl
    rw [neg, AluIn.divAAbs, AluIn.divBAbs, show i.signedDiv = true by simp [AluIn.signedDiv, op]]
    cases i.operandA.msb <;> cases i.operandB.msb <;> rfl

theorem divResult_rem (h : q.Dividing i 32) (op : i.aluOp = .REM) :
    q.divResult i = AluOp.division .REM i.operandA i.operandB := by
  have take : divTakeRem i = true := by simp [divTakeRem, op]
  have neg : i.divNeg = i.operandA.msb := by simp [AluIn.divNeg, op]
  have signed : i.signedDiv = true := by simp [AluIn.signedDiv, op]
  rw [AluOp.division_rem, divResult, h.neg, neg]
  by_cases zero : i.operandB = 0#32
  · rw [divMag_zero h zero, take, zero, BitVec.srem_zero, AluIn.divAAbs, signed]
    cases i.operandA.msb
    · rfl
    · exact BitVec.neg_neg
  · rw [divMag_nonzero h zero, take, BitVec.srem_eq, AluIn.divAAbs, AluIn.divBAbs, signed]
    cases i.operandA.msb <;> cases i.operandB.msb <;> rfl

theorem divResult_unsigned (h : q.Dividing i 32) (op : i.aluOp = .DIVU ∨ i.aluOp = .REMU) :
    q.divResult i = i.aluOp.division i.operandA i.operandB := by
  have neg : i.divNeg = false := by rcases op with op | op <;> simp [AluIn.divNeg, op]
  have magA : i.divAAbs = i.operandA := by rcases op with op | op <;> simp [AluIn.divAAbs, AluIn.signedDiv, op]
  have magB : i.divBAbs = i.operandB := by rcases op with op | op <;> simp [AluIn.divBAbs, AluIn.signedDiv, op]
  rw [divResult, h.neg, neg, if_neg Bool.false_ne_true]
  by_cases zero : i.operandB = 0#32
  · rw [divMag_zero h zero, magA]
    rcases op with op | op <;> simp [divTakeRem, AluOp.division, op, zero]
  · rw [divMag_nonzero h zero, magA, magB]
    rcases op with op | op <;> rw [op] <;> apply BitVec.eq_of_toNat_eq
    · have fits := Nat.lt_of_le_of_lt (Nat.div_le_self i.operandA.toNat i.operandB.toNat) i.operandA.isLt
      simp [divTakeRem, AluOp.division, op, zero, Nat.mod_eq_of_lt fits]
    · have fits := Nat.lt_of_le_of_lt (Nat.mod_le i.operandA.toNat i.operandB.toNat) i.operandA.isLt
      simp [divTakeRem, AluOp.division, op, zero, Nat.mod_eq_of_lt fits]

theorem divResult_eq (h : q.Dividing i 32) (div : i.isDivOp = true) :
    q.divResult i = i.aluOp.division i.operandA i.operandB := by
  simp only [AluIn.isDivOp, Bool.or_eq_true, beq_iff_eq] at div
  rcases div with ((op | op) | op) | op
  · rw [divResult_div h op, op]
  · exact divResult_unsigned h (.inl op)
  · rw [divResult_rem h op, op]
  · exact divResult_unsigned h (.inr op)

theorem divResult_holds (hold : i.Holds j) : q.divResult j = q.divResult i := by
  have take : divTakeRem j = divTakeRem i := by rw [divTakeRem, divTakeRem, hold.aluOp]
  rw [divResult, divResult, divMag, divMag, take]

theorem isDivOp_holds (hold : i.Holds j) : j.isDivOp = i.isDivOp := by
  simp only [AluIn.isDivOp, hold.aluOp]

theorem result_div (q : AluQ) (sharedDsp : Bool) (div : i.isDivOp = true) : q.result i sharedDsp = q.divResult i := by
  simp only [AluIn.isDivOp, Bool.or_eq_true, beq_iff_eq] at div
  have notMul : i.isMulOp = false := by rcases div with ((op | op) | op) | op <;> simp [AluIn.isMulOp, op]
  have notAdder : i.selAdder = false := by
    rcases div with ((op | op) | op) | op <;> simp [AluIn.selAdder, AluIn.opIsLx, op]
  have isDiv : i.isDivOp = true := by simpa only [AluIn.isDivOp, Bool.or_eq_true, beq_iff_eq] using div
  simp only [result, notMul, notAdder, isDiv, Bool.false_eq_true, if_false, if_true]

/-! ## A whole operation -/

section Run

variable {s : AluQ} {ins : ℕ → AluIn}

/-- From the pulse on, op and operands are held until the result is valid. -/
def HeldUntilValid (s : AluQ) (ins : ℕ → AluIn) : Prop :=
  ∀ n, (∀ m < n, (Clocked.run next s ins m).resultValid (ins m) = false) → (ins 0).Holds (ins n)

theorem running_run (idle : s.divState = .IDLE) (start : (ins 0).start = true) (div : (ins 0).isDivOp = true)
    (hk : k < 32) : (Clocked.run next s ins (k + 1)).Running (ins 0) k := by
  induction k with
  | zero => exact launch idle start div
  | succ k ih => exact (ih (by omega)).step (by omega)

theorem done_run (idle : s.divState = .IDLE) (start : (ins 0).start = true) (div : (ins 0).isDivOp = true) :
    (Clocked.run next s ins 33).Dividing (ins 0) 32 ∧ (Clocked.run next s ins 33).divState = .DONE := by
  have last := running_run idle start div (k := 31) (by decide)
  exact ⟨last.toDividing.step last.state (by decide), last.last⟩

theorem notValid_run (idle : s.divState = .IDLE) (start : (ins 0).start = true) (div : (ins 0).isDivOp = true)
    (held : HeldUntilValid s ins) {n : ℕ} (hn : n ≤ 32) :
    (Clocked.run next s ins n).resultValid (ins n) = false := by
  induction n using Nat.strongRecOn with
  | ind n ih =>
    have hold := held n fun m hm => ih m hm (by omega)
    rw [resultValid, isDivOp_holds hold, div, if_pos rfl]
    cases n with
    | zero =>
      rw [Clocked.run_zero, idle]
      rfl
    | succ k =>
      rw [(running_run idle start div (k := k) (by omega)).state]
      rfl

/-- The divider is correct: launched in `DIV_IDLE` with a division op, and with op and
operands held, it runs for 32 cycles, then shows the M extension's result for one cycle,
and is idle again behind it. -/
theorem divides (sharedDsp : Bool) (s : AluQ) (ins : ℕ → AluIn) (idle : s.divState = .IDLE)
    (start : (ins 0).start = true) (div : (ins 0).isDivOp = true) (held : HeldUntilValid s ins) :
    let q := Clocked.run next s ins
    (∀ n ≤ 32, (q n).resultValid (ins n) = false) ∧
      (∀ n, 1 ≤ n → n ≤ 32 → (q n).divState = .RUN) ∧
      (q 33).divState = .DONE ∧ (q 33).resultValid (ins 33) = true ∧
      (q 33).result (ins 33) sharedDsp = (ins 0).aluOp.division (ins 0).operandA (ins 0).operandB ∧
      (q 34).divState = .IDLE := by
  intro q
  have quiet : ∀ n ≤ 32, (q n).resultValid (ins n) = false := fun n hn => notValid_run idle start div held hn
  have hold : (ins 0).Holds (ins 33) := held 33 fun m hm => quiet m (by omega)
  obtain ⟨dividing, done⟩ := done_run idle start div
  have div33 : (ins 33).isDivOp = true := by rw [isDivOp_holds hold, div]
  refine ⟨quiet, ?_, done, ?_, ?_, ?_⟩
  · intro n low high
    obtain ⟨k, rfl⟩ : ∃ k, n = k + 1 := ⟨n - 1, by omega⟩
    exact (running_run idle start div (k := k) (by omega)).state
  · rw [resultValid, div33, if_pos rfl]
    exact beq_iff_eq.mpr done
  · rw [result_div _ sharedDsp div33, divResult_holds hold]
    exact divResult_eq dividing div
  · rw [show q 34 = (q 33).next (ins 33) from rfl, next, show (q 33).divState = .DONE from done]

/-- -7 / 2 with the remainder's sign of the dividend. -/
theorem divides_rem : (Clocked.run next reset (fun _ =>
    { operandA := -7#32, operandB := 2#32, aluOp := .REM, shamt := 0, start := true }) 33).divResult
    { operandA := -7#32, operandB := 2#32, aluOp := .REM, shamt := 0, start := true } = -1#32 := by
  let i : AluIn := { operandA := -7#32, operandB := 2#32, aluOp := .REM, shamt := 0, start := true }
  obtain ⟨-, -, -, -, res, -⟩ := divides true reset (fun _ => i) rfl rfl (by decide) fun _ _ => ⟨rfl, rfl, rfl⟩
  rw [result_div _ true (by decide)] at res
  exact res.trans (by decide +kernel)

end Run

end AluQ

end YarvUc
