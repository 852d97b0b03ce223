import YarvUc.Rtl.Pkg

/-!
# `alu`

The combinational RV32I/M/Zilx results, both multiplier builds, and the
multi-cycle restoring divider with its flops.
-/

namespace YarvUc

/-- `div_state_e`. -/
inductive DivState where
  | IDLE | RUN | DONE
deriving DecidableEq, Inhabited, Repr

/-- The divider's flops. -/
structure AluQ where
  divState : DivState
  divCnt : BitVec 5
  divA : Word
  divNeg : Bool
  divBz : Bool
  /-- `{remainder, quotient}` shift register. -/
  divRem : BitVec 64
  divDivisor : Word
deriving Inhabited

/-- The inputs of one cycle. -/
structure AluIn where
  operandA : Word
  operandB : Word
  aluOp : AluOp
  shamt : BitVec 2
  start : Bool

namespace AluIn

variable (i : AluIn)

def opIsSub : Bool := i.aluOp == .SUB || i.aluOp == .SLT || i.aluOp == .SLTU
def opIsLx : Bool := i.aluOp == .LX

def addendB : Word :=
  if i.opIsSub then ~~~i.operandB else if i.opIsLx then i.operandB <<< i.shamt else i.operandB

/-- The one adder; bit 32 is the carry-out. -/
def adderSum : BitVec 33 :=
  i.operandA.setWidth 33 + i.addendB.setWidth 33 + (BitVec.ofBool i.opIsSub).setWidth 33

/-- `ea_o`. -/
def ea : Word := i.adderSum.setWidth 32

def cmpLt : Bool :=
  if i.aluOp = .SLTU then !i.adderSum.getLsbD 32
  else if i.operandA.msb ^^ i.operandB.msb then i.operandA.msb else i.adderSum.getLsbD 31

def shamtRb : BitVec 5 := i.operandB.extractLsb 4 0

def logicShiftResult : Word :=
  match i.aluOp with
  | .SLL => i.operandA <<< i.shamtRb
  | .SRL => i.operandA >>> i.shamtRb
  | .SRA => i.operandA.sshiftRight i.shamtRb.toNat
  | .XOR => i.operandA ^^^ i.operandB
  | .OR => i.operandA ||| i.operandB
  | .AND => i.operandA &&& i.operandB
  | _ => 0

def selAdder : Bool := i.aluOp == .ADD || i.aluOp == .SUB || i.opIsLx
def selCmp : Bool := i.aluOp == .SLT || i.aluOp == .SLTU
def isMulOp : Bool := i.aluOp == .MUL || i.aluOp == .MULH || i.aluOp == .MULHSU || i.aluOp == .MULHU

/-- `g_mul_shared`: one signed 33x33 product, signedness selected on the operands. -/
def mulShared : Word :=
  let aSigned := i.aluOp != .MULHU
  let bSigned := i.aluOp == .MUL || i.aluOp == .MULH
  let aExt : BitVec 33 := BitVec.ofBool (aSigned && i.operandA.msb) ++ i.operandA
  let bExt : BitVec 33 := BitVec.ofBool (bSigned && i.operandB.msb) ++ i.operandB
  let prod : BitVec 66 := aExt.signExtend 66 * bExt.signExtend 66
  if i.aluOp ≠ .MUL then prod.extractLsb 63 32 else prod.extractLsb 31 0

/-- `g_mul_three`: three 32x32 products and a mux on their results. -/
def mulThree : Word :=
  let mulSs : BitVec 64 := i.operandA.signExtend 64 * i.operandB.signExtend 64
  let mulUu : BitVec 64 := i.operandA.setWidth 64 * i.operandB.setWidth 64
  let mulSu : BitVec 64 := i.operandA.signExtend 64 * (0#1 ++ i.operandB).signExtend 64
  match i.aluOp with
  | .MUL => mulSs.extractLsb 31 0
  | .MULH => mulSs.extractLsb 63 32
  | .MULHSU => mulSu.extractLsb 63 32
  | .MULHU => mulUu.extractLsb 63 32
  | _ => 0

def mulResult (sharedDsp : Bool) : Word := if sharedDsp then i.mulShared else i.mulThree

def isDivOp : Bool := i.aluOp == .DIV || i.aluOp == .DIVU || i.aluOp == .REM || i.aluOp == .REMU

def signedDiv : Bool := i.aluOp == .DIV || i.aluOp == .REM

def divAAbs : Word := if i.signedDiv && i.operandA.msb then -i.operandA else i.operandA
def divBAbs : Word := if i.signedDiv && i.operandB.msb then -i.operandB else i.operandB

end AluIn

namespace AluQ

/-- The reset branch. -/
def reset : AluQ :=
  { divState := .IDLE, divCnt := 0, divA := 0, divDivisor := 0, divNeg := false, divBz := false, divRem := 0 }

variable (q : AluQ) (i : AluIn)

def shifted : BitVec 64 := q.divRem <<< 1
/-- `rem_part`: 32 bits, so bit 32 of the shifted remainder is dropped. -/
def remPart : Word := q.shifted.extractLsb 63 32

/-- One shift-subtract. -/
def divRemStep : BitVec 64 :=
  if q.divDivisor ≤ q.remPart then (q.remPart - q.divDivisor) ++ q.shifted.extractLsb 31 1 ++ 1#1
  else q.shifted

def next : AluQ :=
  match q.divState with
  | .IDLE =>
    if i.start && i.isDivOp then
      { divState := .RUN, divCnt := 0, divA := i.divAAbs, divDivisor := i.divBAbs,
        divNeg := (i.aluOp == .DIV && (i.operandA.msb ^^ i.operandB.msb) && i.operandB != 0) ||
          (i.aluOp == .REM && i.operandA.msb),
        divBz := i.operandB == 0,
        divRem := 0#32 ++ i.divAAbs }
    else q
  | .RUN =>
    { q with divRem := q.divRemStep,
             divState := if q.divCnt = 31 then .DONE else .RUN,
             divCnt := if q.divCnt = 31 then q.divCnt else q.divCnt + 1 }
  | .DONE => { q with divState := .IDLE }

def divTakeRem : Bool := i.aluOp == .REM || i.aluOp == .REMU

def divMag : Word :=
  if q.divBz then (if divTakeRem i then q.divA else BitVec.allOnes 32)
  else if divTakeRem i then q.divRem.extractLsb 63 32 else q.divRem.extractLsb 31 0

def divResult : Word := if q.divNeg then -q.divMag i else q.divMag i

/-- `result_o`. -/
def result (sharedDsp : Bool) : Word :=
  if i.isMulOp then i.mulResult sharedDsp
  else if i.selAdder then i.adderSum.setWidth 32
  else if i.isDivOp then q.divResult i
  else if i.selCmp then (BitVec.ofBool i.cmpLt).setWidth 32
  else i.logicShiftResult

/-- `result_valid_o`. -/
def resultValid : Bool := if i.isDivOp then q.divState == .DONE else true

end AluQ

end YarvUc
