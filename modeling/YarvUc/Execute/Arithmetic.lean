import YarvUc.Clocked.Exact
import YarvUc.Rtl.Alu

/-!
# The single-cycle ALU

Everything but division is a function of the operands. `AluOp.reference` says which, in terms of
the integers the operands stand for; the one adder, the comparisons read off its carry and its
sign, and either build of the multiplier compute it.
-/

namespace YarvUc

open Clocked

/-- Bits 63 to 32 of an exact product. -/
def highWord (z : ℤ) : Word := BitVec.ofInt 32 (z / 2 ^ 32)

/-- What an operation returns; the divisions take more than a cycle and have no value here. -/
def AluOp.reference (op : AluOp) (a b : Word) (shamt : BitVec 2) : Word :=
  match op with
  | .ADD => a + b
  | .SUB => a - b
  | .SLL => a <<< (b.toNat % 32)
  | .SLT => if a.toInt < b.toInt then 1 else 0
  | .SLTU => if a.toNat < b.toNat then 1 else 0
  | .XOR => a ^^^ b
  | .SRL => a >>> (b.toNat % 32)
  | .SRA => a.sshiftRight (b.toNat % 32)
  | .OR => a ||| b
  | .AND => a &&& b
  | .MUL => BitVec.ofInt 32 (a.toInt * b.toInt)
  | .MULH => highWord (a.toInt * b.toInt)
  | .MULHSU => highWord (a.toInt * b.toNat)
  | .MULHU => highWord (a.toNat * b.toNat)
  | .LX => a + b <<< shamt.toNat
  | .DIV | .DIVU | .REM | .REMU => 0

namespace AluIn

variable {i : AluIn}

/-! ## The adder -/

/-- Without a subtraction the shared adder adds. -/
theorem ea_eq (add : i.opIsSub = false) : i.ea = i.operandA + i.addendB := by
  apply BitVec.eq_of_toNat_eq
  simp [ea, adderSum, add, BitVec.toNat_setWidth, BitVec.toNat_add]

theorem adderSum_add (add : i.aluOp = .ADD) : i.adderSum.setWidth 32 = i.operandA + i.operandB := by
  have plain : i.opIsSub = false := by rw [opIsSub, add]; rfl
  have same : i.addendB = i.operandB := by rw [addendB, plain, opIsLx, add]; rfl
  rw [show i.adderSum.setWidth 32 = i.ea from rfl, ea_eq plain, same]

theorem adderSum_lx (lx : i.aluOp = .LX) :
    i.adderSum.setWidth 32 = i.operandA + i.operandB <<< i.shamt.toNat := by
  have plain : i.opIsSub = false := by rw [opIsSub, lx]; rfl
  have scaled : i.addendB = i.operandB <<< i.shamt.toNat := by rw [addendB, plain, opIsLx, lx]; rfl
  rw [show i.adderSum.setWidth 32 = i.ea from rfl, ea_eq plain, scaled]

/-- With one it subtracts. -/
theorem adderSum_sub (subs : i.opIsSub = true) : i.adderSum.setWidth 32 = i.operandA - i.operandB := by
  have ha := i.operandA.isLt
  have hb := i.operandB.isLt
  apply BitVec.eq_of_toNat_eq
  simp [adderSum, addendB, subs]
  omega

/-! ## Comparisons -/

theorem cmpLt_unsigned (sltu : i.aluOp = .SLTU) : i.cmpLt = decide (i.operandA.toNat < i.operandB.toNat) := by
  have subs : i.opIsSub = true := by rw [opIsSub, sltu]; rfl
  have sum : i.adderSum = i.operandA.setWidth (32 + 1) + (~~~i.operandB).setWidth (32 + 1) + 1 := by
    rw [adderSum, addendB, subs]
    rfl
  rw [cmpLt, if_pos sltu, sum, getLsbD_sub_carry, ← decide_not, decide_eq_decide]
  exact Nat.not_le

theorem cmpLt_signed (slt : i.aluOp = .SLT) : i.cmpLt = decide (i.operandA.toInt < i.operandB.toInt) := by
  have subs : i.opIsSub = true := by rw [opIsSub, slt]; rfl
  have top : i.adderSum.getLsbD 31 = (i.operandA - i.operandB).msb := by
    rw [← adderSum_sub subs, BitVec.msb_eq_getLsbD_last, BitVec.getLsbD_setWidth]
    rfl
  have signed : i.aluOp ≠ .SLTU := by
    rw [slt]
    decide
  rw [cmpLt, if_neg signed, top]
  exact slt_of_signs _ _

theorem ofBool_decide {p : Prop} [Decidable p] :
    (BitVec.ofBool (decide p)).setWidth 32 = if p then (1 : Word) else 0 := by
  by_cases h : p <;> simp [h]

/-! ## The multiplier -/

/-- Which operands of a multiplication are signed; the low word does not care. -/
def aSigned : AluOp → Bool
  | .MULHU => false
  | _ => true

def bSigned : AluOp → Bool
  | .MUL | .MULH => true
  | _ => false

/-- The part of the exact product an operation returns. -/
def product (i : AluIn) : Word :=
  let exact := valueOf (aSigned i.aluOp) i.operandA * valueOf (bSigned i.aluOp) i.operandB
  if i.aluOp = .MUL then BitVec.ofInt 32 exact else highWord exact

/-- One 33-bit product, its operands guarded. -/
theorem mulShared_eq : i.mulShared = i.product := by
  have guards : i.mulShared =
      let prod : BitVec 66 :=
        (guard (aSigned i.aluOp) i.operandA).signExtend 66 * (guard (bSigned i.aluOp) i.operandB).signExtend 66
      if i.aluOp ≠ .MUL then prod.extractLsb' 32 32 else prod.extractLsb' 0 32 := by
    rw [mulShared]
    cases i.aluOp <;> rfl
  rw [guards, signExtend_mul, toInt_guard, toInt_guard, product]
  by_cases mul : i.aluOp = .MUL
  · simp [mul, extractLsb'_ofInt]
  · simp [mul, highWord, extractLsb'_ofInt]

/-- Three 32-bit products. -/
theorem mulThree_eq (mul : i.isMulOp = true) : i.mulThree = i.product := by
  have unsigned : (0#1 ++ i.operandB : BitVec (1 + 32)).toInt = i.operandB.toNat := toInt_guard false i.operandB
  rw [mulThree, product, signExtend_mul, signExtend_mul, setWidth_mul, unsigned]
  cases op : i.aluOp <;> simp only [isMulOp, op] at mul
  case MUL =>
    change (BitVec.ofInt 64 _).extractLsb' 0 32 = _
    rw [extractLsb'_ofInt _ (by decide)]
    simp [aSigned, bSigned, valueOf]
  case MULH => exact extractLsb'_ofInt (n := 64) _ (by omega)
  case MULHSU => exact extractLsb'_ofInt (n := 64) _ (by omega)
  case MULHU => exact extractLsb'_ofInt (n := 64) _ (by omega)
  all_goals cases mul

theorem mulResult_eq (mul : i.isMulOp = true) (sharedDsp : Bool) : i.mulResult sharedDsp = i.product := by
  cases sharedDsp with
  | false => exact mulThree_eq mul
  | true => exact mulShared_eq

end AluIn

namespace AluQ

/-- Every single-cycle operation returns its reference value, in both builds of the multiplier,
and the address tap is the result of the two operations that compute addresses. -/
theorem result_reference (q : AluQ) (i : AluIn) (single : i.isDivOp = false) :
    (∀ sharedDsp, q.result i sharedDsp = i.aluOp.reference i.operandA i.operandB i.shamt) ∧
      (i.aluOp = .ADD ∨ i.aluOp = .LX → ∀ sharedDsp, i.ea = q.result i sharedDsp) := by
  have rb : (i.operandB.extractLsb 4 0).toNat = i.operandB.toNat % 32 := by simp [BitVec.extractLsb]
  constructor
  · intro sharedDsp
    have product : i.isMulOp = true → i.mulResult sharedDsp = i.product := fun mul => AluIn.mulResult_eq mul sharedDsp
    unfold result AluIn.isMulOp AluIn.selAdder AluIn.isDivOp AluIn.selCmp AluIn.opIsLx AluIn.logicShiftResult
    unfold AluIn.isMulOp AluIn.product AluIn.aSigned AluIn.bSigned at product
    unfold AluIn.isDivOp at single
    cases op : i.aluOp <;> rw [op] at single product
    case ADD => exact AluIn.adderSum_add op
    case SUB => exact AluIn.adderSum_sub (by rw [AluIn.opIsSub, op]; rfl)
    case LX => exact AluIn.adderSum_lx op
    case SLT =>
      change (BitVec.ofBool i.cmpLt).setWidth 32 = _
      rw [AluIn.cmpLt_signed op]
      exact AluIn.ofBool_decide
    case SLTU =>
      change (BitVec.ofBool i.cmpLt).setWidth 32 = _
      rw [AluIn.cmpLt_unsigned op]
      exact AluIn.ofBool_decide
    case SLL => exact congrArg (i.operandA <<< ·) rb
    case SRL => exact congrArg (i.operandA >>> ·) rb
    case SRA => exact congrArg i.operandA.sshiftRight rb
    case XOR | OR | AND => rfl
    case MUL | MULH | MULHSU | MULHU => exact product rfl
    case DIV | DIVU | REM | REMU => cases single
  · intro address sharedDsp
    rcases address with op | op
    · simp [result, AluIn.isMulOp, AluIn.selAdder, op, AluIn.ea]
    · simp [result, AluIn.isMulOp, AluIn.selAdder, AluIn.opIsLx, op, AluIn.ea]

/-- The most negative word squared, and its mixed product with itself. -/
theorem result_reference_minimum :
    (∀ sharedDsp, AluQ.reset.result { operandA := 0x80000000, operandB := 0x80000000, aluOp := .MULH, shamt := 0,
                                      start := false } sharedDsp = 0x40000000) ∧
      ∀ sharedDsp, AluQ.reset.result { operandA := 0x80000000, operandB := 0x80000000, aluOp := .MULHSU, shamt := 0,
                                       start := false } sharedDsp = 0xC0000000 := by
  have squared := (result_reference AluQ.reset { operandA := 0x80000000, operandB := 0x80000000, aluOp := .MULH,
                                                 shamt := 0, start := false } rfl).1
  have mixed := (result_reference AluQ.reset { operandA := 0x80000000, operandB := 0x80000000, aluOp := .MULHSU,
                                               shamt := 0, start := false } rfl).1
  refine ⟨fun sharedDsp => (squared sharedDsp).trans ?_, fun sharedDsp => (mixed sharedDsp).trans ?_⟩
  · decide +kernel
  · decide +kernel

end AluQ

end YarvUc
